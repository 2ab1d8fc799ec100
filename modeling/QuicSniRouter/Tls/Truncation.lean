import QuicSniRouter.Hostname
import QuicSniRouter.Incremental

/-
  ClientHellos that have not arrived completely.  For every
  place where a hello can be cut off, the parser's answer is
  compared with its answer for the whole.

  Main declarations:
    * `Wire.extensionBlock`
    * `extensionsOffset`
    * `cut_hello_truncated_iff`
-/

------------------------------------------------------------
-- The Fields Before The Extensions
------------------------------------------------------------

namespace QuicSniRouter

namespace Tls

namespace Wire

variable {n : Nat} {input rest : Bytes} {truncated : Bool}

/- Skip a field behind its length in `n` bytes. -/
def skipField
    (n : Nat)
    (input : Bytes) :
    Except Status Bytes :=
  uint n input >>= fun read => skip read.1 read.2

/- Skip the cipher suites, of two bytes each. -/
def skipSuites
    (input : Bytes) :
    Except Status Bytes :=
  uint 2 input >>= fun read =>
    if read.1 % 2 ≠ 0 then
      .error .invalid
    else
      skip read.1 read.2

/- What comes behind the compression methods of a hello. -/
def extensionBlock
    (hello : Bytes) :
    Except Status Bytes :=
  skip (2 + 32) hello >>= fun hello =>
    skipField 1 hello >>= fun hello =>
      skipSuites hello >>= fun hello =>
        skipField 1 hello

/- The rest of the parser, from the extensions on. -/
def sniFromBlock
    (helloTruncated : Bool)
    (block : Bytes) :
    Except Status Bytes := do
  if block.length = 0 then
    throw .notFound
  let (extensionsLen, block) ← uint 2 block
  let (extensions, extensionsTruncated) ←
    fieldAvailable extensionsLen block
  sniFromExtensions (helloTruncated || extensionsTruncated)
    (extensions.length + 1) extensions

/- A hello is its fields and its extensions. -/
theorem sniFromHello_eq
    (helloTruncated : Bool)
    (hello : Bytes) :
    sniFromHello helloTruncated hello =
      extensionBlock hello >>=
        sniFromBlock helloTruncated := by
  unfold sniFromHello extensionBlock skipField skipSuites
  simp only [bind_assoc]
  refine bind_congr (fun _ => bind_congr (fun _ =>
    bind_congr (fun _ => bind_congr (fun suites => ?_))))
  by_cases hOdd : suites.1 % 2 ≠ 0
  · rw [if_pos hOdd, if_pos hOdd]
    rfl
  · rw [if_neg hOdd, if_neg hOdd]
    rfl

open Incremental

variable {hello block : Bytes}

theorem skip_cuts
    (n : Nat) :
    Cuts .truncated (skip n) :=
  Cuts.read n (fun _ => ()) (fun _ => Cuts.done)

theorem uint_cuts
    (n : Nat)
    {next : Nat → Bytes → Except Status Bytes}
    (hNext : ∀ value, Cuts .truncated (next value)) :
    Cuts .truncated (fun input =>
      uint n input >>= fun read =>
        next read.1 read.2) := by
  have hSame :
      (fun input =>
        uint n input >>= fun read =>
          next read.1 read.2) =
      fun input =>
        if n ≤ input.length then
          next (beNat (input.take n)) (input.drop n)
        else
          .error .truncated := by
    funext input
    unfold uint
    by_cases hLe : n ≤ input.length
    · rw [if_pos hLe, if_pos hLe]
      rfl
    · rw [if_neg hLe, if_neg hLe]
      rfl
  rw [hSame]
  exact Cuts.read n beNat hNext

theorem skipField_cuts
    (n : Nat) :
    Cuts .truncated (skipField n) :=
  uint_cuts n skip_cuts

theorem skipSuites_cuts :
    Cuts .truncated skipSuites := by
  have hSuites (value : Nat) :
      Cuts Status.truncated (fun input =>
        if value % 2 ≠ 0 then
          .error .invalid
        else
          skip value input) :=
    (skip_cuts value).guard
  exact uint_cuts 2 hSuites

/- A cut in the fields is seen as one. -/
theorem extensionBlock_cuts :
    Cuts .truncated extensionBlock :=
  (skip_cuts (2 + 32)).bind ((skipField_cuts 1).bind
    (skipSuites_cuts.bind (skipField_cuts 1)))

/- Where the extensions of a hello begin. -/
def extensionsAt
    (hello : Bytes) : Nat :=
  let suites := 35 + beNat ((hello.drop 34).take 1)
  let methods :=
    suites + 2 + beNat ((hello.drop suites).take 2)
  methods + 1 + beNat ((hello.drop methods).take 1)

theorem skip_eq_ok
    (hSkip : skip n input = .ok rest) :
    n ≤ input.length ∧ rest = input.drop n := by
  unfold skip at hSkip
  by_cases hLe : n ≤ input.length
  · rw [if_pos hLe] at hSkip
    cases hSkip
    exact ⟨hLe, rfl⟩
  · rw [if_neg hLe] at hSkip
    cases hSkip

theorem uint_eq_ok
    {value : Nat}
    (hRead : uint n input = .ok (value, rest)) :
    n ≤ input.length ∧ value = beNat (input.take n) ∧
      rest = input.drop n := by
  unfold uint at hRead
  by_cases hLe : n ≤ input.length
  · rw [if_pos hLe] at hRead
    cases hRead
    exact ⟨hLe, rfl, rfl⟩
  · rw [if_neg hLe] at hRead
    cases hRead

/- What is left of an input behind a field. -/
theorem skipField_eq_ok
    {i : Nat}
    (hSkip : skipField n (hello.drop i) = .ok rest)
    (hi : i ≤ hello.length) :
    i + n + beNat ((hello.drop i).take n) ≤ hello.length ∧
      rest = hello.drop
        (i + n + beNat ((hello.drop i).take n)) := by
  rcases except_bind_eq_ok hSkip with
    ⟨⟨value, left⟩, hRead, hRest⟩
  rcases uint_eq_ok hRead with ⟨hLen, hValue, hLeft⟩
  rcases skip_eq_ok hRest with ⟨hFits, hEq⟩
  dsimp only at hFits hEq
  rw [hLeft, hValue, List.length_drop, List.length_drop]
    at hFits
  rw [List.length_drop] at hLen
  rw [hLeft, hValue, List.drop_drop, List.drop_drop,
    ← Nat.add_assoc] at hEq
  exact ⟨by omega, hEq⟩

theorem skipSuites_skipField
    (hSkip : skipSuites input = .ok rest) :
    skipField 2 input = .ok rest := by
  rcases except_bind_eq_ok hSkip with ⟨read, hRead, hRest⟩
  unfold skipField
  rw [hRead]
  split at hRest
  · cases hRest
  · exact hRest

theorem extensionBlock_eq_ok
    (hBlock : extensionBlock hello = .ok block) :
    extensionsAt hello ≤ hello.length ∧
      block = hello.drop (extensionsAt hello) := by
  rcases except_bind_eq_ok hBlock with ⟨a, hA, hRest⟩
  rcases skip_eq_ok hA with ⟨hLe, hEq⟩
  rw [hEq] at hRest
  rcases except_bind_eq_ok hRest with ⟨b, hB, hRest⟩
  rcases skipField_eq_ok hB hLe with ⟨hLe, hEq⟩
  rw [hEq] at hRest
  rcases except_bind_eq_ok hRest with ⟨c, hC, hRest⟩
  rcases skipField_eq_ok (skipSuites_skipField hC) hLe with
    ⟨hLe, hEq⟩
  rw [hEq] at hRest
  exact skipField_eq_ok hRest hLe

variable {name p q : Bytes}

theorem uint_part
    (hLe : n ≤ p.length)
    (q : Bytes) :
    uint n p = .ok (beNat (p.take n), p.drop n) ∧
      uint n (p ++ q) =
        .ok (beNat (p.take n), p.drop n ++ q) := by
  unfold uint
  constructor
  · rw [if_pos hLe]
  · rw [if_pos (by rw [List.length_append]; omega),
      List.take_append_of_le_length hLe,
      List.drop_append_of_le_length hLe]

theorem field_part
    (hLe : n ≤ p.length)
    (q : Bytes) :
    field n p = .ok (p.take n, p.drop n) ∧
      field n (p ++ q) = .ok (p.take n, p.drop n ++ q) := by
  unfold field
  constructor
  · rw [if_pos hLe]
  · rw [if_pos (by rw [List.length_append]; omega),
      List.take_append_of_le_length hLe,
      List.drop_append_of_le_length hLe]

/-
  A part of the extensions gives the name, or there is more
  to come; bodies are looked at when they are complete.
-/
theorem sniFromExtensions_cut
    {fuel fuel' : Nat}
    (hFull :
      sniFromExtensions truncated fuel (p ++ q) = .ok name)
    (hFuel : p.length < fuel') :
    sniFromExtensions true fuel' p = .ok name ∨
      sniFromExtensions true fuel' p = .error .truncated := by
  induction fuel generalizing p fuel' with
  | zero => cases hFull
  | succ fuel ih =>
      cases fuel' with
      | zero => omega
      | succ fuel' =>
          unfold sniFromExtensions at hFull ⊢
          by_cases hShort : p.length < 4
          · rw [if_pos hShort]
            exact Or.inr rfl
          rw [if_neg hShort]
          rw [if_neg (by rw [List.length_append]; omega)]
            at hFull
          rcases uint_part (show 2 ≤ p.length by omega) q
            with ⟨hType, hTypeFull⟩
          have hRest : 2 ≤ (p.drop 2).length := by
            rw [List.length_drop]
            omega
          rcases uint_part hRest q with ⟨hLen, hLenFull⟩
          rw [hTypeFull] at hFull
          rw [hType]
          dsimp only [bind, Except.bind] at hFull ⊢
          rw [hLenFull] at hFull
          rw [hLen]
          dsimp only [bind, Except.bind] at hFull ⊢
          by_cases hBody :
              beNat ((p.drop 2).take 2) ≤
                ((p.drop 2).drop 2).length
          · rcases field_part hBody q with
              ⟨hField, hFieldFull⟩
            rw [hFieldFull] at hFull
            rw [hField]
            dsimp only [bind, Except.bind] at hFull ⊢
            split at hFull
            · rename_i hSni
              rw [if_pos hSni]
              exact Or.inl hFull
            · rename_i hOther
              rw [if_neg hOther]
              apply ih hFull
              simp only [List.length_drop]
              omega
          · unfold field
            rw [if_neg hBody]
            exact Or.inr rfl

/- A cut in the extensions. -/
theorem sniFromBlock_cut
    (hFull : sniFromBlock truncated (p ++ q) = .ok name) :
    (p = [] →
      ∀ helloTruncated,
        sniFromBlock helloTruncated p = .error .notFound) ∧
    (p ≠ [] →
      sniFromBlock true p = .ok name ∨
        sniFromBlock true p = .error .truncated) := by
  constructor
  · intro hNil helloTruncated
    rw [hNil]
    rfl
  · intro hSome
    unfold sniFromBlock at hFull ⊢
    have hLength : p.length ≠ 0 := by
      intro hZero
      exact hSome (List.length_eq_zero_iff.mp hZero)
    rw [if_neg hLength]
    rcases except_guard_eq_ok hFull with ⟨_, hFull⟩
    by_cases hOne : 2 ≤ p.length
    · rcases uint_part hOne q with ⟨hLen, hLenFull⟩
      dsimp only at hFull
      rw [hLenFull] at hFull
      rw [hLen]
      dsimp only [bind, Except.bind] at hFull ⊢
      rcases except_bind_eq_ok hFull with
        ⟨⟨extensions, missing⟩, hField, hFull⟩
      have hExt := fieldAvailable_ok hField
      dsimp only at hFull
      rw [hExt, List.take_append] at hFull
      unfold fieldAvailable
      by_cases hNone :
          min (beNat (p.take 2)) (p.drop 2).length = 0 ∧
            beNat (p.take 2) > 0
      · rw [if_pos hNone]
        exact Or.inr rfl
      · rw [if_neg hNone]
        exact sniFromExtensions_cut hFull (Nat.lt_succ_self _)
    · unfold uint
      rw [if_neg hOne]
      exact Or.inr rfl

/- A cut hello, by where it was cut. -/
theorem sniFromHello_cut
    (hFull : sniFromHello truncated (p ++ q) = .ok name) :
    extensionsAt (p ++ q) < (p ++ q).length ∧
    (p.length = extensionsAt (p ++ q) →
      ∀ helloTruncated,
        sniFromHello helloTruncated p = .error .notFound) ∧
    (p.length ≠ extensionsAt (p ++ q) →
      sniFromHello true p = .ok name ∨
        sniFromHello true p = .error .truncated) := by
  rw [sniFromHello_eq] at hFull
  rcases except_bind_eq_ok hFull with ⟨block, hBlock, hName⟩
  rcases extensionBlock_eq_ok hBlock with ⟨hLe, hDrop⟩
  have hLength := congrArg List.length hDrop
  rw [List.length_drop, List.length_append] at hLength
  rw [List.length_append] at hLe ⊢
  have hSome : block.length ≠ 0 :=
    (except_guard_eq_ok hName).1
  refine ⟨by omega, ?_⟩
  rcases (extensionBlock_cuts p q block hBlock).2 with
    ⟨hShort, hLt⟩ | ⟨left, hLeft, hEq⟩
  · refine ⟨by omega, ?_⟩
    intro _
    rw [sniFromHello_eq, hShort]
    exact Or.inr rfl
  · rw [hEq] at hName
    have hSplit := congrArg List.length hEq
    rw [List.length_append] at hSplit
    rcases sniFromBlock_cut hName with ⟨hNone, hMore⟩
    constructor
    · intro hAt helloTruncated
      rw [sniFromHello_eq, hLeft]
      apply hNone
      apply List.length_eq_zero_iff.mp
      omega
    · intro hElse
      rw [sniFromHello_eq, hLeft]
      apply hMore
      intro hNil
      rw [hNil] at hSplit
      simp only [List.length_nil] at hSplit
      omega

end Wire

namespace Wire

variable {name p q : Bytes} {message : Bytes}

/- The hello of a message, as far as it is there. -/
def helloOf
    (message : Bytes) : Bytes :=
  (message.drop 4).take (beNat ((message.drop 1).take 3))

/- What is read behind the type of a message. -/
theorem sniFromMessage_typed
    (hType : byteAt message 0 = 1) :
    sniFromMessage message =
      (uint 3 (message.drop 1) >>= fun length =>
        fieldAvailable length.1 length.2 >>= fun read =>
          sniFromHello read.2 read.1) := by
  cases message with
  | nil => cases hType
  | cons c rest =>
      have hFirst : c = 1 := hType
      have hOne : uint 1 (c :: rest) = .ok (1, rest) := by
        rw [byte_cons, hFirst]
        rfl
      unfold sniFromMessage
      rw [if_neg (by simp), hOne]
      dsimp only [bind, Except.bind]
      rw [if_neg (by simp)]
      rfl

theorem sniFromMessage_eq
    (hType : byteAt message 0 = 1)
    (hLength : 4 ≤ message.length) :
    sniFromMessage message =
      (fieldAvailable (beNat ((message.drop 1).take 3))
        (message.drop 4) >>= fun read =>
          sniFromHello read.2 read.1) := by
  rw [sniFromMessage_typed hType]
  unfold uint
  rw [List.length_drop, if_pos (by omega), List.drop_drop]
  rfl

theorem sniFromMessage_short
    (hType : byteAt message 0 = 1)
    (hLength : message.length < 4) :
    sniFromMessage message = .error .truncated := by
  rw [sniFromMessage_typed hType]
  unfold uint
  rw [List.length_drop, if_neg (by omega)]
  rfl

theorem le_extensionsAt
    (hello : Bytes) :
    38 ≤ extensionsAt hello := by
  unfold extensionsAt
  dsimp only
  omega

theorem helloOf_append
    (hLength : 4 ≤ p.length)
    (q : Bytes) :
    helloOf (p ++ q) =
      (p.drop 4 ++ q).take (beNat ((p.drop 1).take 3)) := by
  have hThree :
      ((p ++ q).drop 1).take 3 = (p.drop 1).take 3 := by
    rw [List.drop_append_of_le_length (by omega)]
    apply List.take_append_of_le_length
    rw [List.length_drop]
    omega
  unfold helloOf
  rw [hThree, List.drop_append_of_le_length hLength]

/- A cut in a message. -/
theorem sniFromMessage_cut
    (hType : byteAt p 0 = 1)
    (hFull : sniFromMessage (p ++ q) = .ok name) :
    (p.length = 4 + extensionsAt (helloOf (p ++ q)) →
      sniFromMessage p = .error .notFound) ∧
    (p.length ≠ 4 + extensionsAt (helloOf (p ++ q)) →
      sniFromMessage p = .ok name ∨
        sniFromMessage p = .error .truncated) := by
  have hFar := le_extensionsAt (helloOf (p ++ q))
  by_cases hLength : 4 ≤ p.length
  · have hTypeFull : byteAt (p ++ q) 0 = 1 := by
      cases p with
      | nil => cases hType
      | cons c rest => exact hType
    rw [sniFromMessage_eq hTypeFull
      (by rw [List.length_append]; omega)] at hFull
    rw [sniFromMessage_eq hType hLength]
    rcases except_bind_eq_ok hFull with
      ⟨⟨hello, missing⟩, hField, hName⟩
    have hHello : hello = helloOf (p ++ q) :=
      fieldAvailable_ok hField
    rw [hHello] at hName
    -- The two hellos, one of them a part of the other.
    have hPart := helloOf_append hLength q
    rw [List.take_append] at hPart
    rw [hPart] at hName hFar ⊢
    rcases sniFromHello_cut hName with ⟨hInside, hAt, hElse⟩
    have hDrop : (p.drop 4).length = p.length - 4 :=
      List.length_drop
    have hTake :=
      @List.length_take _ (beNat ((p.drop 1).take 3))
        (p.drop 4)
    unfold fieldAvailable
    by_cases hNone :
        min (beNat ((p.drop 1).take 3)) (p.drop 4).length =
            0 ∧
          beNat ((p.drop 1).take 3) > 0
    · rw [if_pos hNone]
      exact ⟨by omega, fun _ => Or.inr rfl⟩
    rw [if_neg hNone]
    by_cases hMissing :
        (p.drop 4).length < beNat ((p.drop 1).take 3)
    · have hFlag :
          decide (min (beNat ((p.drop 1).take 3))
            (p.drop 4).length <
              beNat ((p.drop 1).take 3)) = true :=
        decide_eq_true (by omega)
      rw [hFlag]
      exact ⟨fun h => hAt (by omega) true,
        fun h => hElse (by omega)⟩
    · -- Only bytes behind the hello are missing.
      rw [Nat.sub_eq_zero_of_le (by omega), List.take_zero,
        List.append_nil] at hName hInside
      rcases hello_of_sniFromHello hName with
        ⟨hGrammar, hValid⟩
      rw [Nat.sub_eq_zero_of_le (by omega), List.take_zero,
        List.append_nil]
      refine ⟨by omega, fun _ => Or.inl ?_⟩
      exact sniFromHello_of_hello hGrammar hValid
  · rw [sniFromMessage_short hType (by omega)]
    refine ⟨by omega, fun _ => Or.inr rfl⟩

/- A raw message is not taken for a record. -/
theorem clientHelloSni_raw
    {input : Bytes}
    (hType : byteAt input 0 = 1)
    (hBound : input.length ≤ maxClientHelloSize) :
    clientHelloSni input = sniFromMessage input := by
  have hRaw :
      ¬ (5 ≤ input.length ∧ byteAt input 0 = 0x16) := by
    rintro ⟨_, hRecord⟩
    rw [hType] at hRecord
    cases hRecord
  unfold clientHelloSni stripRecord
  rw [if_neg (Nat.not_lt_of_le hBound), if_neg hRaw]
  rfl

end Wire

/- Where the extensions of a raw message begin. -/
def extensionsOffset
    (message : Bytes) : Nat :=
  4 + Wire.extensionsAt (Wire.helloOf message)

/-
  A hello that has arrived in part gives its name, or is
  reported as truncated, unless it is cut exactly between
  the compression methods and the extensions.
-/
theorem cut_hello_truncated_iff
    {message name p : Bytes}
    (hType : byteAt message 0 = 1)
    (hName :
      clientHelloSni (byteAt message) message.length =
        .ok name)
    (hPrefix : p <+: message)
    (hNonempty : p ≠ []) :
    (clientHelloSni (byteAt p) p.length = .ok name ∨
      clientHelloSni (byteAt p) p.length =
        .error .truncated) ↔
      p.length ≠ extensionsOffset message := by
  rcases hPrefix with ⟨q, hMessage⟩
  have hTypePart : byteAt p 0 = 1 := by
    rw [← hMessage] at hType
    cases p with
    | nil => exact absurd rfl hNonempty
    | cons c rest => exact hType
  rw [clientHelloSni_wire, inputBytes_byteAt]
    at hName
  have hBound := Wire.length_of_clientHelloSni hName
  have hBoundPart : p.length ≤ maxClientHelloSize := by
    rw [← hMessage, List.length_append] at hBound
    exact Nat.le_trans (Nat.le_add_right _ _) hBound
  rw [Wire.clientHelloSni_raw hType hBound, ← hMessage]
    at hName
  rw [clientHelloSni_wire, inputBytes_byteAt,
    Wire.clientHelloSni_raw hTypePart hBoundPart]
  rcases Wire.sniFromMessage_cut hTypePart hName with
    ⟨hAt, hElse⟩
  unfold extensionsOffset
  rw [← hMessage]
  constructor
  · intro hGood hEq
    rw [hAt hEq] at hGood
    rcases hGood with hGood | hGood
    · cases hGood
    · cases hGood
  · exact hElse

/- The hello, cut within its extensions. -/
theorem cut_hello_truncated :
    clientHelloSni
        (byteAt ((Hostname.presenting [97]).take 43)) 43 =
        .ok [97] ∨
      clientHelloSni
          (byteAt ((Hostname.presenting [97]).take 43)) 43 =
        .error .truncated :=
  (cut_hello_truncated_iff rfl
    (Hostname.presenting_accepted
      ((Hostname.validHostname_iff [97]).mp (by decide)))
    (List.take_prefix 43 _) (by decide)).mpr (by decide)

/- The hello of host "a" without its extensions. -/
theorem cut_hello_not_found :
    clientHelloSni (byteAt (Hostname.presenting [97]))
        (Hostname.presenting [97]).length = .ok [97] ∧
      clientHelloSni
          (byteAt ((Hostname.presenting [97]).take 42)) 42 =
        .error .notFound := by
  decide +kernel

end Tls

end QuicSniRouter
