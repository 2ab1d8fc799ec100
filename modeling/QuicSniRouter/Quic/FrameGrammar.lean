import QuicSniRouter.Quic.Reassembly
import QuicSniRouter.Quic.Varint

/-
  The plaintexts that the frame walk accepts.  They are the
  sequences of PADDING, PING, ACK and CRYPTO frames with at
  least one CRYPTO frame, and the walk lays the payloads of
  the CRYPTO frames over the stream.

  Main declarations:
    * `Frame`
    * `Frame.bytes`
    * `CryptoStream.overlay`
    * `extract_crypto_grammar`
-/

------------------------------------------------------------
-- Frames
------------------------------------------------------------

namespace QuicSniRouter

namespace Quic

open Segments

variable {n : Nat} {frame : Frame}
variable {segments : List CryptoFrame}

/- Varints in sequence. -/
def varintBytes
    (varints : List Varint) : Bytes :=
  varints.flatMap Varint.bytes

/-
  An acknowledgement; `count` says how many ranges there are
  besides the first.  A frame with the three ECN counts has
  a type of its own.
-/
structure Ack where
  largest : Varint
  delay : Varint
  count : Varint
  firstRange : Varint
  ranges : List (Varint × Varint)
  counted : count.value = ranges.length
  ecn : Option (Varint × Varint × Varint)

namespace Ack

/- An acknowledgement with counts has its own type. -/
def frameType
    (ack : Ack) : UInt8 :=
  if ack.ecn.isSome then 0x03 else 0x02

/- The ranges after the first one. -/
def rangeVarints
    (ack : Ack) : List Varint :=
  ack.ranges.flatMap (fun range => [range.1, range.2])

/- The three counts, if there are any. -/
def ecnVarints
    (ack : Ack) : List Varint :=
  match ack.ecn with
  | some (ect0, ect1, ce) => [ect0, ect1, ce]
  | none => []

/- An acknowledgement without its type. -/
def bytes
    (ack : Ack) : Bytes :=
  varintBytes [ack.largest, ack.delay] ++
    (ack.count.bytes ++
      (varintBytes [ack.firstRange] ++
        (varintBytes ack.rangeVarints ++
          varintBytes ack.ecnVarints)))

end Ack

/- Where crypto data belongs, and the data. -/
structure CryptoBody where
  offset : Varint
  length : Varint
  payload : Bytes
  sized : length.value = payload.length

namespace CryptoBody

/- A crypto frame without its type. -/
def bytes
    (body : CryptoBody) : Bytes :=
  body.offset.bytes ++ (body.length.bytes ++ body.payload)

/- What it adds to the stream. -/
def segment
    (body : CryptoBody) : CryptoFrame where
  offset := body.offset.value
  items := body.payload

end CryptoBody

/- The frames that an Initial may hold. -/
inductive Frame
  | padding
  | ping
  | ack (body : Ack)
  | crypto (body : CryptoBody)

namespace Frame

/- A frame as it is written. -/
def bytes :
    Frame → Bytes
| .padding => [0x00]
| .ping => [0x01]
| .ack body => body.frameType :: body.bytes
| .crypto body => 0x06 :: body.bytes

/- The piece of the CRYPTO stream that a frame carries. -/
def segment? :
    Frame → Option CryptoFrame
| .crypto body => some body.segment
| _ => none

end Frame

/- The pieces of the CRYPTO stream, in their order. -/
def segmentsOf
    (frames : List Frame) : List CryptoFrame :=
  frames.filterMap Frame.segment?

variable {input rest : Bytes}

/- A varint is read back. -/
theorem takeVarint_bytes
    (v : Varint)
    (rest : Bytes) :
    takeVarint (v.bytes ++ rest) = .ok (v.value, rest) := by
  unfold takeVarint
  rw [parseVarint_bytes, ← v.length_bytes]
  dsimp only [bind, Except.bind]
  rw [List.drop_left]
  rfl

theorem takeVarint_eq_ok
    {value : Nat}
    (hTake : takeVarint input = .ok (value, rest)) :
    ∃ v : Varint,
      v.value = value ∧ input = v.bytes ++ rest := by
  rcases except_bind_eq_ok hTake with
    ⟨⟨value', width⟩, hParse, hRest⟩
  rcases parseVarint_eq_ok hParse with
    ⟨v, rest', hInput, hValue, hWidth⟩
  cases hRest
  refine ⟨v, hValue, ?_⟩
  rw [hInput, ← hWidth, ← v.length_bytes, List.drop_left]

theorem skipVarints_bytes
    (varints : List Varint)
    (rest : Bytes) :
    skipVarints varints.length
      (varintBytes varints ++ rest) = .ok rest := by
  induction varints with
  | nil => rfl
  | cons v varints ih =>
      have hSplit :
          varintBytes (v :: varints) ++ rest =
            v.bytes ++ (varintBytes varints ++ rest) := by
        unfold varintBytes
        rw [List.flatMap_cons, List.append_assoc]
      rw [hSplit, List.length_cons]
      unfold skipVarints
      rw [takeVarint_bytes]
      exact ih

theorem skipVarints_eq_ok
    (hSkip : skipVarints n input = .ok rest) :
    ∃ varints : List Varint,
      varints.length = n ∧
        input = varintBytes varints ++ rest := by
  induction n generalizing input with
  | zero =>
      cases hSkip
      exact ⟨[], rfl, rfl⟩
  | succ n ih =>
      unfold skipVarints at hSkip
      rcases except_bind_eq_ok hSkip with
        ⟨⟨value, left⟩, hTake, hSkip⟩
      rcases takeVarint_eq_ok hTake with ⟨v, _, hInput⟩
      rcases ih hSkip with ⟨varints, hLength, hLeft⟩
      refine ⟨v :: varints, by rw [List.length_cons, hLength],
        ?_⟩
      unfold varintBytes at hLeft ⊢
      rw [hInput, hLeft, List.flatMap_cons, List.append_assoc]

/- Every varint takes a byte at least. -/
theorem length_le_varintBytes
    (varints : List Varint) :
    varints.length ≤ (varintBytes varints).length := by
  induction varints with
  | nil => exact Nat.le_refl 0
  | cons v varints ih =>
      have hPos := v.width_pos
      unfold varintBytes at ih ⊢
      rw [List.flatMap_cons, List.length_append,
        Varint.length_bytes, List.length_cons]
      omega

theorem Ack.length_rangeVarints
    (ack : Ack) :
    ack.rangeVarints.length = 2 * ack.count.value := by
  rw [ack.counted]
  unfold Ack.rangeVarints
  induction ack.ranges with
  | nil => rfl
  | cons range ranges ih =>
      rw [List.flatMap_cons, List.length_append, ih]
      simp only [List.length_cons, List.length_nil]
      omega

/- An even number of varints makes up ranges. -/
theorem exists_ranges
    {varints : List Varint}
    (hLength : varints.length = 2 * n) :
    ∃ ranges : List (Varint × Varint),
      ranges.length = n ∧
        varints =
          ranges.flatMap (fun range =>
            [range.1, range.2]) := by
  induction n generalizing varints with
  | zero =>
      exact ⟨[], rfl, List.length_eq_zero_iff.mp hLength⟩
  | succ n ih =>
      cases varints with
      | nil =>
          rw [List.length_nil] at hLength
          omega
      | cons a others =>
          cases others with
          | nil =>
              simp only [List.length_cons,
                List.length_nil] at hLength
              omega
          | cons b others =>
              simp only [List.length_cons] at hLength
              rcases @ih others (by omega) with
                ⟨ranges, hRanges, hOthers⟩
              refine ⟨(a, b) :: ranges,
                by rw [List.length_cons, hRanges], ?_⟩
              rw [List.flatMap_cons, ← hOthers]
              rfl

/- An acknowledgement is skipped whole. -/
theorem skipAck_bytes
    (ack : Ack)
    (rest : Bytes) :
    skipAck ack.frameType (ack.bytes ++ rest) = .ok rest := by
  unfold Ack.bytes
  simp only [List.append_assoc]
  unfold skipAck
  have hRanges := ack.length_rangeVarints
  apply except_bind_ok (skipVarints_bytes [_, _] _)
  apply except_bind_ok (takeVarint_bytes _ _)
  apply except_bind_ok (skipVarints_bytes [_] _)
  apply except_guard_ok
  · -- Two bytes for each range are still to come.
    have hBytes := length_le_varintBytes ack.rangeVarints
    rw [List.length_append]
    omega
  rw [← hRanges]
  apply except_bind_ok (skipVarints_bytes _ _)
  unfold Ack.frameType Ack.ecnVarints
  cases ack.ecn with
  | none => rfl
  | some counts =>
      exact skipVarints_bytes [_, _, _] rest

/- What was skipped is an acknowledgement. -/
theorem skipAck_eq_ok
    {frameType : UInt8}
    (hType : frameType = 0x02 ∨ frameType = 0x03)
    (hSkip : skipAck frameType input = .ok rest) :
    ∃ ack : Ack,
      ack.frameType = frameType ∧
        input = ack.bytes ++ rest := by
  unfold skipAck at hSkip
  rcases except_bind_eq_ok hSkip with ⟨a, hA, hSkip⟩
  rcases except_bind_eq_ok hSkip with
    ⟨⟨rangeCount, b⟩, hB, hSkip⟩
  rcases except_bind_eq_ok hSkip with ⟨c, hC, hSkip⟩
  rcases except_guard_eq_ok hSkip with ⟨_, hSkip⟩
  rcases except_bind_eq_ok hSkip with ⟨d, hD, hSkip⟩
  rcases skipVarints_eq_ok hA with ⟨front, hFront, hInput⟩
  rcases takeVarint_eq_ok hB with ⟨count, hCount, hA⟩
  rcases skipVarints_eq_ok hC with ⟨first, hFirst, hB⟩
  rcases skipVarints_eq_ok hD with ⟨varints, hLength, hC⟩
  rcases List.length_eq_two.mp hFront with
    ⟨largest, delay, hFront⟩
  rcases List.length_eq_one_iff.mp hFirst with
    ⟨firstRange, hFirst⟩
  rcases exists_ranges hLength with ⟨ranges, hRanges, hEq⟩
  have hCounted : count.value = ranges.length := by
    rw [hCount, hRanges]
  rcases hType with hType | hType
  · rw [hType, if_neg (by decide)] at hSkip
    cases hSkip
    refine ⟨⟨largest, delay, count, firstRange, ranges,
      hCounted, none⟩, hType.symm, ?_⟩
    unfold Ack.bytes Ack.rangeVarints Ack.ecnVarints
    dsimp only
    rw [hInput, hA, hB, hC, hFront, hFirst, hEq]
    simp only [List.append_assoc]
    rfl
  · rw [hType, if_pos rfl] at hSkip
    rcases skipVarints_eq_ok hSkip with ⟨ecn, hEcn, hD⟩
    rcases List.length_eq_three.mp hEcn with
      ⟨ect0, ect1, ce, hEcn⟩
    refine ⟨⟨largest, delay, count, firstRange, ranges,
      hCounted, some (ect0, ect1, ce)⟩, hType.symm, ?_⟩
    unfold Ack.bytes Ack.rangeVarints Ack.ecnVarints
    dsimp only
    rw [hInput, hA, hB, hC, hD, hFront, hFirst, hEq, hEcn]
    simp only [List.append_assoc]

/- A crypto frame is read back. -/
theorem takeFrame_bytes
    (body : CryptoBody)
    (hFits : Fits body.segment)
    (rest : Bytes) :
    takeFrame (body.bytes ++ rest) =
      .ok (body.segment, rest) := by
  have hSized := body.sized
  unfold Fits CryptoBody.segment at hFits
  dsimp only at hFits
  unfold CryptoBody.bytes
  simp only [List.append_assoc]
  unfold takeFrame
  apply except_bind_ok (takeVarint_bytes _ _)
  apply except_bind_ok (takeVarint_bytes _ _)
  apply except_guard_ok
  · rw [List.length_append]
    omega
  · rw [hSized, List.take_left, List.drop_left]
    rfl

theorem takeFrame_eq_ok
    {frame : CryptoFrame}
    (hTake : takeFrame input = .ok (frame, rest)) :
    ∃ body : CryptoBody,
      body.segment = frame ∧ input = body.bytes ++ rest := by
  unfold takeFrame at hTake
  rcases except_bind_eq_ok hTake with
    ⟨⟨cryptoOffset, a⟩, hOffset, hTake⟩
  rcases except_bind_eq_ok hTake with
    ⟨⟨cryptoLen, b⟩, hLen, hTake⟩
  rcases except_guard_eq_ok hTake with ⟨hInside, hTake⟩
  rcases takeVarint_eq_ok hOffset with
    ⟨offset, hOffset, hInput⟩
  rcases takeVarint_eq_ok hLen with ⟨length, hLen, hA⟩
  cases hTake
  have hSized : length.value = (b.take cryptoLen).length := by
    rw [List.length_take, hLen]
    omega
  refine ⟨⟨offset, length, b.take cryptoLen, hSized⟩, ?_, ?_⟩
  · unfold CryptoBody.segment
    dsimp only
    rw [hOffset]
  · unfold CryptoBody.bytes
    dsimp only
    rw [hInput, hA, List.append_assoc, List.append_assoc,
      List.take_append_drop]

------------------------------------------------------------
-- The Walk
------------------------------------------------------------

variable {input : Bytes} {fuel : Nat} {found : Bool}

theorem cryptoFramesFrom_nil
    (fuel : Nat)
    (found : Bool) :
    cryptoFramesFrom fuel [] found =
      if found then .ok [] else .error .notFound := by
  cases fuel with
  | zero => rfl
  | succ fuel => rfl

theorem Frame.bytes_ne_nil
    (frame : Frame) :
    frame.bytes ≠ [] := by
  cases frame with
  | padding => exact List.cons_ne_nil _ _
  | ping => exact List.cons_ne_nil _ _
  | ack body => exact List.cons_ne_nil _ _
  | crypto body => exact List.cons_ne_nil _ _

theorem segmentsOf_cons
    (frame : Frame)
    (frames : List Frame) :
    segmentsOf (frame :: frames) =
      frame.segment?.toList ++ segmentsOf frames := by
  unfold segmentsOf
  cases hSegment : frame.segment? with
  | none => simp [hSegment]
  | some segment => simp [hSegment]

theorem Ack.frameType_eq
    (ack : Ack) :
    ack.frameType = 0x02 ∨ ack.frameType = 0x03 := by
  unfold Ack.frameType
  by_cases hEcn : ack.ecn.isSome
  · rw [if_pos hEcn]
    exact Or.inr rfl
  · rw [if_neg hEcn]
    exact Or.inl rfl

theorem cryptoFramesFrom_cons
    (fuel : Nat)
    (frameType : UInt8)
    (rest : Bytes)
    (found : Bool) :
    cryptoFramesFrom (fuel + 1) (frameType :: rest) found =
      if frameType = 0x00 ∨ frameType = 0x01 then
        cryptoFramesFrom fuel rest found
      else if frameType = 0x02 ∨ frameType = 0x03 then
        skipAck frameType rest >>= fun rest =>
          cryptoFramesFrom fuel rest found
      else if frameType ≠ 0x06 then
        .error .unsupported
      else
        takeFrame rest >>= fun taken =>
          cryptoFramesFrom fuel taken.2 true >>= fun frames =>
            pure (taken.1 :: frames) :=
  rfl

/- Frames of other types leave the walk as it is. -/
theorem walk_of_no_segment
    (hNone : frame.segment? = none)
    (fuel : Nat)
    (rest : Bytes)
    (found : Bool) :
    (cryptoFramesFrom fuel rest
      (found || frame.segment?.isSome)).map
        (frame.segment?.toList ++ ·) =
      cryptoFramesFrom fuel rest found := by
  rw [hNone, Option.isSome_none, Bool.or_false]
  cases cryptoFramesFrom fuel rest found with
  | ok segments => rfl
  | error status => rfl

/- The walk over one frame. -/
theorem cryptoFramesFrom_frame
    (hFits : ∀ s, frame.segment? = some s → Fits s)
    (fuel : Nat)
    (rest : Bytes)
    (found : Bool) :
    cryptoFramesFrom (fuel + 1) (frame.bytes ++ rest) found =
      (cryptoFramesFrom fuel rest
        (found || frame.segment?.isSome)).map
          (frame.segment?.toList ++ ·) := by
  cases frame with
  | padding => exact (walk_of_no_segment rfl _ _ _).symm
  | ping => exact (walk_of_no_segment rfl _ _ _).symm
  | ack body =>
      have hType := body.frameType_eq
      have hOther :
          ¬ (body.frameType = 0x00 ∨
            body.frameType = 0x01) := by
        rcases hType with hType | hType
        · rw [hType]
          decide
        · rw [hType]
          decide
      rw [walk_of_no_segment rfl]
      unfold Frame.bytes
      rw [List.cons_append, cryptoFramesFrom_cons,
        if_neg hOther, if_pos hType, skipAck_bytes]
      rfl
  | crypto body =>
      have hTake := takeFrame_bytes body (hFits _ rfl) rest
      unfold Frame.segment? Frame.bytes
      rw [Option.isSome_some, Bool.or_true,
        List.cons_append, cryptoFramesFrom_cons,
        if_neg (by decide), if_neg (by decide),
        if_neg (by decide), hTake]
      rfl

/- An input starts with a frame, or the walk ends at once. -/
theorem exists_frame
    (frameType : UInt8)
    (rest : Bytes)
    (found : Bool) :
    (∃ status, ∀ fuel,
      cryptoFramesFrom (fuel + 1) (frameType :: rest) found =
        .error status) ∨
    ∃ (frame : Frame) (left : Bytes),
      frameType :: rest = frame.bytes ++ left ∧
        ∀ s, frame.segment? = some s → Fits s := by
  by_cases hZero : frameType = 0x00
  · exact Or.inr ⟨.padding, rest, by rw [hZero]; rfl, nofun⟩
  by_cases hOne : frameType = 0x01
  · exact Or.inr ⟨.ping, rest, by rw [hOne]; rfl, nofun⟩
  have hPad : ¬ (frameType = 0x00 ∨ frameType = 0x01) :=
    not_or.mpr ⟨hZero, hOne⟩
  by_cases hAck : frameType = 0x02 ∨ frameType = 0x03
  · cases hSkip : skipAck frameType rest with
    | error status =>
        left
        refine ⟨status, fun fuel => ?_⟩
        rw [cryptoFramesFrom_cons, if_neg hPad,
          if_pos hAck, hSkip]
        rfl
    | ok left =>
        rcases skipAck_eq_ok hAck hSkip with
          ⟨body, hType, hRest⟩
        refine Or.inr ⟨.ack body, left, ?_, nofun⟩
        rw [hRest, ← hType]
        rfl
  by_cases hCrypto : frameType = 0x06
  · cases hTake : takeFrame rest with
    | error status =>
        left
        refine ⟨status, fun fuel => ?_⟩
        rw [cryptoFramesFrom_cons, if_neg hPad,
          if_neg hAck, if_neg (not_not.mpr hCrypto), hTake]
        rfl
    | ok taken =>
        rcases takeFrame_eq_ok hTake with
          ⟨body, hSegment, hRest⟩
        refine Or.inr ⟨.crypto body, taken.2, ?_, ?_⟩
        · rw [hRest, hCrypto]
          rfl
        · intro s hs
          cases hs
          rw [hSegment]
          exact takeFrame_fits hTake
  · left
    refine ⟨.unsupported, fun fuel => ?_⟩
    rw [cryptoFramesFrom_cons, if_neg hPad, if_neg hAck,
      if_pos hCrypto]

/- Frames in sequence are read back. -/
theorem cryptoFramesFrom_bytes
    {frames : List Frame}
    (hFuel : (frames.flatMap Frame.bytes).length ≤ fuel)
    (hFits : ∀ s ∈ segmentsOf frames, Fits s)
    (hFound : found = true ∨ segmentsOf frames ≠ []) :
    cryptoFramesFrom fuel (frames.flatMap Frame.bytes)
      found = .ok (segmentsOf frames) := by
  induction frames generalizing fuel found with
  | nil =>
      have hFlag : found = true :=
        hFound.resolve_right (fun hSome => hSome rfl)
      rw [List.flatMap_nil, cryptoFramesFrom_nil, hFlag]
      rfl
  | cons frame frames ih =>
      have hLength :=
        List.length_pos_iff.mpr frame.bytes_ne_nil
      rw [List.flatMap_cons, List.length_append] at hFuel
      rw [segmentsOf_cons] at hFits hFound
      cases fuel with
      | zero => omega
      | succ fuel =>
          have hNext :
              cryptoFramesFrom fuel
                  (frames.flatMap Frame.bytes)
                  (found || frame.segment?.isSome) =
                .ok (segmentsOf frames) := by
            apply ih (by omega)
            · intro s hs
              exact hFits s (List.mem_append_right _ hs)
            · cases hSegment : frame.segment? with
              | none =>
                  rw [hSegment] at hFound
                  simpa using hFound
              | some segment => exact Or.inl (by simp)
          rw [List.flatMap_cons, segmentsOf_cons,
            cryptoFramesFrom_frame, hNext]
          · rfl
          · intro s hs
            apply hFits
            rw [hs]
            exact List.mem_append_left _
              (List.mem_singleton_self s)

theorem end_of_walk
    (hWalk : cryptoFramesFrom fuel [] found = .ok segments) :
    found = true ∧ segments = [] := by
  rw [cryptoFramesFrom_nil] at hWalk
  cases found with
  | true =>
      cases hWalk
      exact ⟨rfl, rfl⟩
  | false => cases hWalk

/- What was read is frames in sequence. -/
theorem frames_of_cryptoFramesFrom
    (hWalk :
      cryptoFramesFrom fuel input found = .ok segments) :
    ∃ frames : List Frame,
      input = frames.flatMap Frame.bytes ∧
        segmentsOf frames = segments ∧
        (found = true ∨ segments ≠ []) := by
  induction fuel generalizing input found segments with
  | zero =>
      cases input with
      | nil =>
          rcases end_of_walk hWalk with ⟨hFlag, hNone⟩
          exact ⟨[], rfl, hNone.symm, Or.inl hFlag⟩
      | cons frameType rest => cases hWalk
  | succ fuel ih =>
      cases input with
      | nil =>
          rcases end_of_walk hWalk with ⟨hFlag, hNone⟩
          exact ⟨[], rfl, hNone.symm, Or.inl hFlag⟩
      | cons frameType rest =>
          rcases exists_frame frameType rest found with
            ⟨status, hStops⟩ | ⟨frame, left, hInput, hFits⟩
          · rw [hStops] at hWalk
            cases hWalk
          · rw [hInput, cryptoFramesFrom_frame hFits]
              at hWalk
            cases hNext :
                cryptoFramesFrom fuel left
                  (found || frame.segment?.isSome) with
            | error status =>
                rw [hNext] at hWalk
                cases hWalk
            | ok others =>
                rw [hNext] at hWalk
                cases hWalk
                rcases ih hNext with
                  ⟨frames, hLeft, hSegments, hFound⟩
                refine ⟨frame :: frames, ?_, ?_, ?_⟩
                · rw [hInput, hLeft, List.flatMap_cons]
                · rw [segmentsOf_cons, hSegments]
                · cases hSegment : frame.segment? with
                  | none =>
                      rw [hSegment] at hFound
                      simpa using hFound
                  | some segment => exact Or.inr (by simp)

/- The length of the plaintext is fuel enough. -/
theorem cryptoFramesFrom_fuel
    {fuel' : Nat}
    (hFuel : input.length ≤ fuel)
    (hFuel' : input.length ≤ fuel') :
    cryptoFramesFrom fuel input found =
      cryptoFramesFrom fuel' input found := by
  induction fuel generalizing fuel' input found with
  | zero =>
      rw [List.length_eq_zero_iff.mp (Nat.le_zero.mp hFuel),
        cryptoFramesFrom_nil, cryptoFramesFrom_nil]
  | succ fuel ih =>
      cases input with
      | nil =>
          rw [cryptoFramesFrom_nil, cryptoFramesFrom_nil]
      | cons frameType rest =>
          cases fuel' with
          | zero => simp at hFuel'
          | succ fuel' =>
              rcases exists_frame frameType rest found with
                ⟨status, hStops⟩ |
                  ⟨frame, left, hInput, hFits⟩
              · rw [hStops, hStops]
              · have hLength :=
                  List.length_pos_iff.mpr frame.bytes_ne_nil
                rw [hInput, List.length_append]
                  at hFuel hFuel'
                rw [hInput, cryptoFramesFrom_frame hFits,
                  cryptoFramesFrom_frame hFits,
                  @ih left _ fuel' (by omega) (by omega)]

/- The position behind a piece. -/
def stopOf
    (segment : CryptoFrame) : Nat :=
  segment.offset + segment.items.length

namespace CryptoStream

/-
  The stream under the pieces; of the pieces that cover a
  position the last one counts.
-/
def overlay
    (stream : CryptoStream)
    (segments : List CryptoFrame) : CryptoStream where
  data := fun i =>
    match segments.reverse.find? (·.covers i) with
    | some segment =>
        byteAt segment.items (i - segment.offset)
    | none => stream.data i
  received := fun i =>
    covered segments i || stream.received i
  len := (segments.map stopOf).foldl max stream.len
  firstReceived :=
    (segments.map Segment.offset).foldl min
      stream.firstReceived
  lastReceived :=
    (segments.map stopOf).foldl max stream.lastReceived

theorem overlay_cons
    (stream : CryptoStream)
    (segment : CryptoFrame)
    (segments : List CryptoFrame) :
    stream.overlay (segment :: segments) =
      (stream.write segment.offset segment.items).overlay
        segments := by
  unfold overlay
  congr 1
  · funext i
    rw [List.reverse_cons, List.find?_append]
    cases segments.reverse.find? (·.covers i) with
    | some last => rfl
    | none =>
        have hWrite :
            (stream.write segment.offset
                segment.items).data i =
              if segment.covers i = true then
                byteAt segment.items (i - segment.offset)
              else
                stream.data i :=
          rfl
        rw [Option.none_or, List.find?_singleton, hWrite]
        cases segment.covers i with
        | true => rfl
        | false => rfl
  · funext i
    unfold covered write Segment.covers
    rw [List.any_cons, Bool.or_assoc, Bool.or_left_comm]

/- Writing in turn is laying the segments over. -/
theorem writeAll_eq_overlay
    (stream : CryptoStream)
    (segments : List CryptoFrame) :
    stream.writeAll segments = stream.overlay segments := by
  induction segments generalizing stream with
  | nil => rfl
  | cons segment segments ih =>
      rw [overlay_cons, ← ih]
      rfl

end CryptoStream

/-
  Extraction succeeds for the sequences of frames in which
  some CRYPTO frame occurs and each fits the stream, and the
  stream is then overlaid with their payloads.  The rounds
  of the walk are bounded by the length of the plaintext.
-/
theorem extract_crypto_grammar
    (plaintext : Bytes)
    (hLength : plaintext.length ≤ maxClientHelloSize)
    (stream : CryptoStream) :
    (∀ after,
      extractCrypto plaintext stream = .ok after ↔
        ∃ frames : List Frame,
          plaintext = frames.flatMap Frame.bytes ∧
            segmentsOf frames ≠ [] ∧
            (∀ segment ∈ segmentsOf frames,
              segment.offset + segment.items.length ≤ 8192) ∧
            after = stream.overlay (segmentsOf frames)) ∧
    ∀ fuel ≥ plaintext.length,
      extractCryptoFrom fuel plaintext stream false =
        extractCrypto plaintext stream := by
  have hWalk :
      cryptoFrames plaintext =
        cryptoFramesFrom plaintext.length plaintext
          false := by
    unfold cryptoFrames
    rw [if_neg (Nat.not_lt_of_le hLength)]
  constructor
  · intro after
    rw [extractCrypto_eq, hWalk]
    constructor
    · intro hOk
      cases hFrames :
          cryptoFramesFrom plaintext.length plaintext
            false with
      | error status =>
          rw [hFrames] at hOk
          cases hOk
      | ok segments =>
          rw [hFrames] at hOk
          cases hOk
          rcases frames_of_cryptoFramesFrom hFrames with
            ⟨frames, hPlaintext, hSegments, hSome⟩
          have hFits := cryptoFramesFrom_fit hFrames
          rw [← hSegments] at hSome hFits ⊢
          exact ⟨frames, hPlaintext,
            hSome.resolve_left (by decide), hFits,
            stream.writeAll_eq_overlay _⟩
    · rintro ⟨frames, hPlaintext, hSome, hFits, hAfter⟩
      have hFrames := @cryptoFramesFrom_bytes
        plaintext.length false frames
        (by rw [hPlaintext]) hFits (Or.inr hSome)
      rw [← hPlaintext] at hFrames
      rw [hFrames, hAfter, ← stream.writeAll_eq_overlay]
      rfl
  · intro fuel hFuel
    rw [extractCryptoFrom_eq, extractCrypto_eq, hWalk,
      cryptoFramesFrom_fuel hFuel (Nat.le_refl _)]

/- The value 4 in all of the four bytes it could take. -/
def wideVarint : Varint where
  value := 4
  log := 2
  log_le := by decide
  fits := by decide

/- An acknowledgement with one range and ECN counts. -/
def sampleAck : Ack where
  largest := shortVarint 9 (by decide)
  delay := zeroVarint
  count := shortVarint 1 (by decide)
  firstRange := shortVarint 2 (by decide)
  ranges :=
    [(shortVarint 1 (by decide), shortVarint 3 (by decide))]
  counted := rfl
  ecn :=
    some (zeroVarint, zeroVarint, zeroVarint)

/- Two bytes, from the fourth on. -/
def sampleCrypto : CryptoBody where
  offset := wideVarint
  length := shortVarint 2 (by decide)
  payload := [7, 8]
  sized := rfl

/- One frame of each type. -/
def sampleFrames : List Frame :=
  [.padding, .ack sampleAck, .ping, .crypto sampleCrypto]

/- The sample frames add their two bytes. -/
theorem sampleFrames_extracted :
    extractCrypto
        [0, 3, 9, 0, 1, 2, 1, 3, 0, 0, 0, 1, 6, 128, 0, 0, 4,
          2, 7, 8] CryptoStream.init =
      .ok (CryptoStream.init.overlay [⟨4, [7, 8]⟩]) :=
  ((extract_crypto_grammar _ (by decide) _).1 _).mpr
    ⟨sampleFrames, by decide, by decide, by decide, rfl⟩

end Quic

end QuicSniRouter
