import QuicSniRouter.Tls.ClientHello

/-
  A server name that is read from the first bytes of a
  ClientHello is also read from any more of them: every step
  of the parser that succeeds goes the same way when its
  reader ends later.

  Main declarations:
    * `Reader.Extends`
    * `clientHelloSni_extends`
    * `found_sni_is_final`
-/

------------------------------------------------------------
-- Longer Readers
------------------------------------------------------------

namespace QuicSniRouter

namespace Tls

variable {fuel fuel' len : Nat} {truncated truncated' : Bool}

namespace Reader

/- The same place in the same bytes, with a later end. -/
structure Extends
    (r longer : Reader) : Prop where
  offset : longer.offset = r.offset
  stop : r.stop ≤ longer.stop
  data : ∀ i < r.stop, longer.data i = r.data i

namespace Extends

variable {r longer : Reader} {n : Nat} {rest field : Reader}

theorem has
    (hExtends : Extends r longer)
    (hHas : r.has n = true) :
    longer.has n = true := by
  unfold Reader.has at hHas ⊢
  rw [decide_eq_true_eq] at hHas ⊢
  rw [hExtends.offset]
  exact Nat.le_trans hHas hExtends.stop

theorem remaining
    (hExtends : Extends r longer) :
    r.remaining ≤ longer.remaining := by
  have hStop := hExtends.stop
  unfold Reader.remaining
  rw [hExtends.offset]
  omega

theorem advance
    (n : Nat)
    (hExtends : Extends r longer) :
    Extends { r with offset := r.offset + n }
      { longer with offset := longer.offset + n } where
  offset := by
    dsimp only
    rw [hExtends.offset]
  stop := hExtends.stop
  data := hExtends.data

/- The bytes ahead, as far as the shorter reader goes. -/
theorem ahead
    (hExtends : Extends r longer)
    (hHas : r.has n = true) :
    (List.range n).map
        (fun i => longer.data (longer.offset + i)) =
      (List.range n).map
        (fun i => r.data (r.offset + i)) := by
  unfold Reader.has at hHas
  rw [decide_eq_true_eq] at hHas
  apply List.map_congr_left
  intro i hi
  rw [List.mem_range] at hi
  rw [hExtends.offset]
  exact hExtends.data _ (by omega)

theorem child
    {m : Nat}
    (hExtends : Extends r longer)
    (hInside : r.offset + n ≤ r.stop)
    (hLe : n ≤ m) :
    Extends (r.child n) (longer.child m) where
  offset := rfl
  stop := hLe
  data := by
    intro i hi
    have hi' : i < n := hi
    unfold Reader.child
    dsimp only
    rw [hExtends.offset]
    exact hExtends.data _ (by omega)

theorem uint
    {value : Nat}
    (hExtends : Extends r longer)
    (hRead : r.uint n = .ok (value, rest)) :
    ∃ rest', longer.uint n = .ok (value, rest') ∧
      Extends rest rest' := by
  unfold Reader.uint at hRead ⊢
  by_cases hHas : r.has n = true
  · rw [if_pos hHas] at hRead
    cases hRead
    rw [if_pos (hExtends.has hHas), hExtends.ahead hHas]
    exact ⟨_, rfl, hExtends.advance n⟩
  · rw [if_neg hHas] at hRead
    cases hRead

theorem skip
    (hExtends : Extends r longer)
    (hSkip : r.skip n = .ok rest) :
    ∃ rest', longer.skip n = .ok rest' ∧
      Extends rest rest' := by
  unfold Reader.skip at hSkip ⊢
  by_cases hHas : r.has n = true
  · rw [if_pos hHas] at hSkip
    cases hSkip
    rw [if_pos (hExtends.has hHas)]
    exact ⟨_, rfl, hExtends.advance n⟩
  · rw [if_neg hHas] at hSkip
    cases hSkip

theorem subreader
    (hExtends : Extends r longer)
    (hBorrow : r.subreader n = .ok (field, rest)) :
    ∃ field' rest',
      longer.subreader n = .ok (field', rest') ∧
        Extends field field' ∧ Extends rest rest' := by
  unfold Reader.subreader at hBorrow ⊢
  by_cases hHas : r.has n = true
  · rw [if_pos hHas] at hBorrow
    cases hBorrow
    rw [if_pos (hExtends.has hHas)]
    unfold Reader.has at hHas
    rw [decide_eq_true_eq] at hHas
    exact ⟨_, _, rfl, hExtends.child hHas (Nat.le_refl n),
      hExtends.advance n⟩
  · rw [if_neg hHas] at hBorrow
    cases hBorrow

theorem subreaderAvailable
    {declaredLen : Nat}
    {missing : Bool}
    (hExtends : Extends r longer)
    (hBorrow :
      r.subreaderAvailable declaredLen =
        .ok (field, missing)) :
    ∃ field' missing',
      longer.subreaderAvailable declaredLen =
          .ok (field', missing') ∧
        Extends field field' := by
  have hRemaining := hExtends.remaining
  unfold Reader.subreaderAvailable at hBorrow ⊢
  dsimp only at hBorrow ⊢
  by_cases hNone :
      min declaredLen r.remaining = 0 ∧ declaredLen > 0
  · rw [if_pos hNone] at hBorrow
    cases hBorrow
  · rw [if_neg hNone] at hBorrow
    cases hBorrow
    rw [if_neg (by omega)]
    by_cases hEnd : r.offset ≤ r.stop
    · refine ⟨_, _, rfl, hExtends.child ?_ (by omega)⟩
      unfold Reader.remaining
      omega
    · -- Past its end a reader has nothing to borrow.
      have hEmpty : r.remaining = 0 := by
        unfold Reader.remaining
        omega
      refine ⟨_, _, rfl, rfl, ?_, ?_⟩
      · unfold Reader.child
        dsimp only
        omega
      · intro i hi
        unfold Reader.child at hi
        dsimp only at hi
        omega

end Extends

end Reader

open Reader

variable {r longer : Reader} {name : Bytes}

theorem sniFromList_extends
    (hExtends : Extends r longer)
    (hFuel : fuel ≤ fuel')
    (hName : sniFromList fuel r = .ok name) :
    sniFromList fuel' longer = .ok name := by
  induction fuel generalizing r longer fuel' with
  | zero => cases hName
  | succ fuel ih =>
      cases fuel' with
      | zero => omega
      | succ fuel' =>
          have hRemaining := hExtends.remaining
          unfold sniFromList at hName ⊢
          by_cases hShort : r.remaining < 3
          · rw [if_pos hShort] at hName
            cases hName
          · rw [if_neg hShort] at hName
            rw [if_neg (by omega)]
            rcases except_bind_eq_ok hName with
              ⟨⟨nameType, a⟩, hType, hName⟩
            rcases hExtends.uint hType with ⟨a', hType', hA⟩
            rcases except_bind_eq_ok hName with
              ⟨⟨nameLen, b⟩, hLen, hName⟩
            rcases hA.uint hLen with ⟨b', hLen', hB⟩
            rcases except_guard_eq_ok hName with ⟨hHas, hName⟩
            rw [Bool.not_eq_true, Bool.not_eq_false']
              at hHas
            unfold u8 u16
            simp only [bind, Except.bind, hType', hLen',
              hB.has hHas, hB.ahead hHas]
            by_cases hHost : nameType = 0
            · rw [if_pos hHost] at hName ⊢
              exact hName
            · rw [if_neg hHost] at hName ⊢
              rcases except_bind_eq_ok hName with
                ⟨c, hSkip, hName⟩
              rcases hB.skip hSkip with ⟨c', hSkip', hC⟩
              rw [hSkip']
              exact ih hC (by omega) hName

theorem parseSniExtension_extends
    (hExtends : Extends r longer)
    (hName : parseSniExtension r = .ok name) :
    parseSniExtension longer = .ok name := by
  unfold parseSniExtension at hName ⊢
  rcases except_bind_eq_ok hName with
    ⟨⟨listLen, a⟩, hLen, hName⟩
  rcases hExtends.uint hLen with ⟨a', hLen', hA⟩
  rcases except_bind_eq_ok hName with
    ⟨⟨list, b⟩, hList, hName⟩
  rcases hA.subreader hList with
    ⟨list', b', hList', hField, _⟩
  have hStop := hField.stop
  unfold u16
  simp only [bind, Except.bind, hLen', hList']
  exact sniFromList_extends hField (by omega) hName

/- Whether bytes are missing matters to failures only. -/
theorem sniFromExtensions_extends
    (hExtends : Extends r longer)
    (hFuel : fuel ≤ fuel')
    (hName : sniFromExtensions truncated fuel r = .ok name) :
    sniFromExtensions truncated' fuel' longer = .ok name := by
  induction fuel generalizing r longer fuel' with
  | zero => cases hName
  | succ fuel ih =>
      cases fuel' with
      | zero => omega
      | succ fuel' =>
          have hRemaining := hExtends.remaining
          unfold sniFromExtensions at hName ⊢
          by_cases hShort : r.remaining < 4
          · rw [if_pos hShort] at hName
            cases truncated with
            | true => cases hName
            | false => cases hName
          · rw [if_neg hShort] at hName
            rw [if_neg (by omega)]
            rcases except_bind_eq_ok hName with
              ⟨⟨extType, a⟩, hType, hName⟩
            rcases hExtends.uint hType with ⟨a', hType', hA⟩
            rcases except_bind_eq_ok hName with
              ⟨⟨extLen, b⟩, hLen, hName⟩
            rcases hA.uint hLen with ⟨b', hLen', hB⟩
            rcases except_bind_eq_ok hName with
              ⟨⟨extBody, c⟩, hBody, hName⟩
            rcases hB.subreader hBody with
              ⟨extBody', c', hBody', hField, hC⟩
            unfold u16
            simp only [bind, Except.bind, hType', hLen',
              hBody']
            dsimp only at hName
            by_cases hSni : extType = 0
            · rw [if_pos hSni] at hName ⊢
              exact parseSniExtension_extends hField hName
            · rw [if_neg hSni] at hName ⊢
              exact ih hC (by omega) hName

theorem sniFromHello_extends
    (hExtends : Extends r longer)
    (hName : sniFromHello truncated r = .ok name) :
    sniFromHello truncated' longer = .ok name := by
  unfold sniFromHello at hName ⊢
  rcases except_bind_eq_ok hName with ⟨a, hVersion, hName⟩
  rcases hExtends.skip hVersion with ⟨a', hVersion', hA⟩
  rcases except_bind_eq_ok hName with
    ⟨⟨sessionIdLen, b⟩, hIdLen, hName⟩
  rcases hA.uint hIdLen with ⟨b', hIdLen', hB⟩
  rcases except_bind_eq_ok hName with ⟨c, hId, hName⟩
  rcases hB.skip hId with ⟨c', hId', hC⟩
  rcases except_bind_eq_ok hName with
    ⟨⟨cipherSuitesLen, d⟩, hSuitesLen, hName⟩
  rcases hC.uint hSuitesLen with ⟨d', hSuitesLen', hD⟩
  rcases except_guard_eq_ok hName with ⟨hEven, hName⟩
  rcases except_bind_eq_ok hName with ⟨e, hSuites, hName⟩
  rcases hD.skip hSuites with ⟨e', hSuites', hE⟩
  rcases except_bind_eq_ok hName with
    ⟨⟨compressionMethodsLen, f⟩, hMethodsLen, hName⟩
  rcases hE.uint hMethodsLen with ⟨f', hMethodsLen', hF⟩
  rcases except_bind_eq_ok hName with ⟨g, hMethods, hName⟩
  rcases hF.skip hMethods with ⟨g', hMethods', hG⟩
  rcases except_guard_eq_ok hName with ⟨hMore, hName⟩
  have hRemaining := hG.remaining
  rcases except_bind_eq_ok hName with
    ⟨⟨extensionsLen, h⟩, hExtLen, hName⟩
  rcases hG.uint hExtLen with ⟨h', hExtLen', hH⟩
  rcases except_bind_eq_ok hName with
    ⟨⟨extensions, missing⟩, hExt, hName⟩
  rcases hH.subreaderAvailable hExt with
    ⟨extensions', missing', hExt', hField⟩
  have hStop := hField.stop
  have hMore' : g'.remaining ≠ 0 := by omega
  unfold u8 u16
  simp only [bind, Except.bind, hVersion', hIdLen', hId',
    hSuitesLen', if_neg hEven, hSuites', hMethodsLen',
    hMethods', if_neg hMore', hExtLen', hExt']
  exact sniFromExtensions_extends hField (by omega) hName

variable {data data' : Nat → UInt8} {name : Bytes}

/- The handshake message, after the optional record. -/
def sniFromMessage
    (r : Reader) :
    Except Status Bytes := do
  if !r.has 1 then
    throw .invalid
  let (msgType, r) ← r.u8
  if msgType ≠ 1 then
    throw .invalid
  let (helloLen, r) ← r.u24
  let (hello, helloTruncated) ← r.subreaderAvailable helloLen
  sniFromHello helloTruncated hello

theorem sniFromMessage_extends
    (hExtends : Extends r longer)
    (hName : sniFromMessage r = .ok name) :
    sniFromMessage longer = .ok name := by
  unfold sniFromMessage at hName ⊢
  rcases except_guard_eq_ok hName with ⟨hHas, hName⟩
  rw [Bool.not_eq_true, Bool.not_eq_false'] at hHas
  rcases except_bind_eq_ok hName with
    ⟨⟨msgType, a⟩, hType, hName⟩
  rcases hExtends.uint hType with ⟨a', hType', hA⟩
  rcases except_guard_eq_ok hName with ⟨hHello, hName⟩
  rcases except_bind_eq_ok hName with
    ⟨⟨helloLen, b⟩, hLen, hName⟩
  rcases hA.uint hLen with ⟨b', hLen', hB⟩
  rcases except_bind_eq_ok hName with
    ⟨⟨hello, missing⟩, hBorrow, hName⟩
  rcases hB.subreaderAvailable hBorrow with
    ⟨hello', missing', hBorrow', hField⟩
  unfold u8 u24
  simp only [bind, Except.bind, hExtends.has hHas, hType',
    if_neg hHello, hLen', hBorrow']
  exact sniFromHello_extends hField hName

/- A message that yields a name starts with its type. -/
theorem sniFromMessage_type
    (hName :
      sniFromMessage (Reader.init data len) = .ok name) :
    0 < len ∧ data 0 = 1 := by
  unfold sniFromMessage at hName
  rcases except_guard_eq_ok hName with ⟨hHas, hName⟩
  rw [Bool.not_eq_true, Bool.not_eq_false'] at hHas
  rcases except_bind_eq_ok hName with
    ⟨⟨msgType, a⟩, hType, hName⟩
  rcases except_guard_eq_ok hName with ⟨hHello, _⟩
  have hLen : 0 + 1 ≤ len := of_decide_eq_true hHas
  unfold u8 Reader.uint at hType
  rw [if_pos hHas] at hType
  cases hType
  rw [ne_eq, not_not] at hHello
  refine ⟨by omega, ?_⟩
  have hValue : (data 0).toNat = 1 := by
    simpa [beNat, Reader.init] using hHello
  exact UInt8.toNat_inj.mp hValue

theorem clientHelloSni_eq
    (data : Nat → UInt8)
    (len : Nat) :
    clientHelloSni data len =
      if len > maxClientHelloSize then .error .invalid
      else
        stripRecord data (Reader.init data len) >>=
          sniFromMessage := by
  unfold clientHelloSni
  split
  · rfl
  · rfl

/-
  A name found in the first bytes is found in any more of
  them.
-/
theorem clientHelloSni_extends
    {len' : Nat}
    (hAgree : ∀ i < len, data' i = data i)
    (hLe : len ≤ len')
    (hBound : len' ≤ maxClientHelloSize)
    (hName : clientHelloSni data len = .ok name) :
    clientHelloSni data' len' = .ok name := by
  have hExtends :
      Extends (Reader.init data len)
        (Reader.init data' len') :=
    ⟨rfl, hLe, hAgree⟩
  rw [clientHelloSni_eq, if_neg (by omega)] at hName ⊢
  rcases except_bind_eq_ok hName with ⟨message, hStrip, hName⟩
  unfold stripRecord at hStrip ⊢
  by_cases hRecord :
      ((Reader.init data len).has 5 && data 0 == 0x16) = true
  · have hParts := Bool.and_eq_true_iff.mp hRecord
    have hLong : 0 + 5 ≤ len := of_decide_eq_true hParts.1
    have hFirst := hAgree 0 (by omega)
    rw [if_pos hRecord] at hStrip
    rw [if_pos (by
      rw [hExtends.has hParts.1, hFirst, hParts.2]
      rfl)]
    rcases except_bind_eq_ok hStrip with ⟨a, hSkip, hStrip⟩
    rcases hExtends.skip hSkip with ⟨a', hSkip', hA⟩
    rcases except_bind_eq_ok hStrip with
      ⟨⟨recordLen, b⟩, hLen, hStrip⟩
    rcases hA.uint hLen with ⟨b', hLen', hB⟩
    rcases except_bind_eq_ok hStrip with
      ⟨⟨record, c⟩, hBorrow, hStrip⟩
    rcases hB.subreader hBorrow with
      ⟨record', c', hBorrow', hField, _⟩
    cases hStrip
    unfold u16
    simp only [bind, Except.bind, hSkip', hLen', hBorrow',
      pure, Except.pure]
    exact sniFromMessage_extends hField hName
  · rw [if_neg hRecord] at hStrip
    cases hStrip
    -- The first byte is the message type, not a record's.
    rcases sniFromMessage_type hName with ⟨hSome, hType⟩
    rw [if_neg (by
      rw [hAgree 0 hSome, hType]
      simp)]
    exact sniFromMessage_extends hExtends hName

/- Routing on a partial ClientHello is not premature. -/
theorem found_sni_is_final
    (p q : Bytes)
    (name : Bytes)
    (hBound : (p ++ q).length ≤ maxClientHelloSize)
    (hName : clientHelloSni (byteAt p) p.length = .ok name) :
    clientHelloSni (byteAt (p ++ q)) (p ++ q).length =
      .ok name := by
  have hAgree :
      ∀ i < p.length, byteAt (p ++ q) i = byteAt p i := by
    intro i hi
    simp [byteAt, List.getElem?_append_left hi]
  have hLe : p.length ≤ (p ++ q).length := by
    rw [List.length_append]
    omega
  exact clientHelloSni_extends hAgree hLe hBound hName

/-
  The start of a ClientHello that names `a.b`.  The message
  and its extensions go on behind it.
-/
def partialHello : Bytes :=
  [0x01, 0x00, 0x02, 0x00, 0x03, 0x03] ++
    List.replicate 32 0x5a ++
    [0x00, 0x00, 0x02, 0x13, 0x01, 0x01, 0x00] ++
    [0x01, 0xc9, 0x00, 0x2b, 0x00, 0x01, 0x00] ++
    [0x00, 0x00, 0x00, 0x08, 0x00, 0x06, 0x00, 0x00,
      0x03, 0x61, 0x2e, 0x62]

/- The name does not change with more data. -/
theorem partialHello_final :
    clientHelloSni (byteAt partialHello)
        partialHello.length = .ok [0x61, 0x2e, 0x62] ∧
      clientHelloSni
        (byteAt (partialHello ++ [0x00, 0x10, 0x00]))
        (partialHello ++ [0x00, 0x10, 0x00]).length =
          .ok [0x61, 0x2e, 0x62] := by
  have hName :
      clientHelloSni (byteAt partialHello)
        partialHello.length = .ok [0x61, 0x2e, 0x62] := by
    decide +kernel
  exact ⟨hName, found_sni_is_final partialHello
    [0x00, 0x10, 0x00] [0x61, 0x2e, 0x62] (by decide)
    hName⟩

end Tls

end QuicSniRouter
