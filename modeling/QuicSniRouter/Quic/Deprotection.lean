import QuicSniRouter.Quic.Crypto
import QuicSniRouter.Quic.InitialEncoding

/-
  Decryption of Initial packets that the parser accepts.
  On such a packet none of the checks on offsets applies,
  and what is left is a composition of the primitives over
  the header and the payload.

  Main declarations:
    * `InitialPacket.opened`
    * `decryptInitial_bytes`
-/

namespace QuicSniRouter

namespace Quic

variable {n : Nat} {α : Type}

theorem sized_eq_ok
    {result : Option Bytes}
    {out : Bytes}
    (hSized : sized n result = .ok out) :
    result = some out ∧ out.length = n := by
  cases result with
  | none => cases hSized
  | some bytes =>
      unfold sized at hSized
      dsimp only at hSized
      by_cases hLength : bytes.length = n
      · rw [if_pos hLength] at hSized
        cases hSized
        exact ⟨rfl, hLength⟩
      · rw [if_neg hLength] at hSized
        cases hSized

/- The only failure of the primitives. -/
def OnlyInvalid
    {α : Type}
    (result : Except Status α) : Prop :=
  ∀ status, result = .error status → status = .invalid

theorem OnlyInvalid.bind
    {β : Type}
    {first : Except Status α}
    {rest : α → Except Status β}
    (hFirst : OnlyInvalid first)
    (hRest : ∀ a, OnlyInvalid (rest a)) :
    OnlyInvalid (first >>= rest) := by
  cases first with
  | ok a => exact hRest a
  | error failure =>
      intro status hError
      cases hError
      exact hFirst failure rfl

theorem sized_onlyInvalid
    (n : Nat)
    (result : Option Bytes) :
    OnlyInvalid (sized n result) := by
  intro status hSized
  cases result with
  | none =>
      cases hSized
      rfl
  | some bytes =>
      unfold sized at hSized
      dsimp only at hSized
      by_cases hLength : bytes.length = n
      · rw [if_pos hLength] at hSized
        cases hSized
      · rw [if_neg hLength] at hSized
        cases hSized
        rfl

theorem hkdfExpandLabel_onlyInvalid
    (crypto : Crypto)
    (secret label : Bytes)
    (outLen : Nat) :
    OnlyInvalid
      (hkdfExpandLabel crypto secret label outLen) := by
  unfold hkdfExpandLabel
  dsimp only
  split
  · intro status hError
    cases hError
    rfl
  · exact sized_onlyInvalid _ _

theorem asInvalid_eq
    {result : Except Status α}
    (hOnly : OnlyInvalid result) :
    asInvalid result = result := by
  cases result with
  | ok a => rfl
  | error status =>
      rw [hOnly status rfl]
      rfl

theorem aesEcbMask_asInvalid
    (crypto : Crypto)
    (key sample : Bytes) :
    asInvalid (aesEcbMask crypto key sample) =
      aesEcbMask crypto key sample :=
  asInvalid_eq (sized_onlyInvalid _ _)

theorem initialClientKeys_plain
    (crypto : Crypto)
    (version : Nat)
    (dcid : Bytes) :
    initialClientKeys crypto version dcid = (do
      if dcid.length = 0 ∨ dcid.length > maxQuicCidLen then
        throw .invalid
      let keying ← keyingForVersion version
      let initialSecret ←
        hkdfExtract crypto keying.salt dcid 32
      let clientSecret ←
        hkdfExpandLabel crypto initialSecret
          [99, 108, 105, 101, 110, 116, 32, 105, 110] 32
      let key ←
        hkdfExpandLabel crypto clientSecret keying.keyLabel 16
      let iv ←
        hkdfExpandLabel crypto clientSecret keying.ivLabel 12
      let hp ←
        hkdfExpandLabel crypto clientSecret keying.hpLabel 16
      return { key, iv, hp }) := by
  unfold initialClientKeys
  split
  · rfl
  · apply bind_congr
    intro keying
    apply asInvalid_eq
    apply OnlyInvalid.bind (sized_onlyInvalid _ _)
    intro initialSecret
    apply OnlyInvalid.bind (hkdfExpandLabel_onlyInvalid _ _ _ _)
    intro clientSecret
    apply OnlyInvalid.bind (hkdfExpandLabel_onlyInvalid _ _ _ _)
    intro key
    apply OnlyInvalid.bind (hkdfExpandLabel_onlyInvalid _ _ _ _)
    intro iv
    apply OnlyInvalid.bind (hkdfExpandLabel_onlyInvalid _ _ _ _)
    intro hp status hError
    cases hError

/- The bytes of the number, as a mask over the packet. -/
theorem unmaskNumber_eq
    {packet mask : Bytes}
    {offset : Nat}
    (hPacket : offset + n ≤ packet.length)
    (hMask : n + 1 ≤ mask.length) :
    unmaskNumber packet mask offset n =
      Octets.xor ((packet.drop offset).take n)
        (mask.drop 1) := by
  unfold unmaskNumber Octets.xor
  apply List.ext_getElem
  · simp
    omega
  · intro i hLeft hRight
    simp at hLeft
    have hAt : offset + i < packet.length := by omega
    have hMaskAt : i + 1 < mask.length := by omega
    simp [byteAt, hAt, hMaskAt]

theorem pnLen_le
    (first : UInt8) :
    (first &&& 0x03).toNat + 1 ≤ 4 := by
  have hLe := @UInt8.and_le_right first 0x03
  have hNat := UInt8.le_iff_toNat_le.mp hLe
  exact Nat.succ_le_succ hNat

namespace InitialPacket

/- Decryption, with no check of an offset. -/
def opened
    (crypto : Crypto)
    (p : InitialPacket) : Except Status Bytes := do
  let keys ← initialClientKeys crypto p.version p.dcid
  let mask ←
    aesEcbMask crypto keys.hp ((p.payload.drop 4).take 16)
  let first := p.first ^^^ (byteAt mask 0 &&& 0x0f)
  let pnLen := (first &&& 0x03).toNat + 1
  let number :=
    Octets.xor (p.payload.take pnLen) (mask.drop 1)
  aesGcmOpen crypto keys.key
    (packetNonce keys.iv (beNat number))
    (p.headerWith first ++ number) (p.payload.drop pnLen)

variable (p : InitialPacket)

theorem byteAt_bytes_zero :
    byteAt p.bytes 0 = p.first :=
  rfl

theorem take_set_bytes
    (first : UInt8) :
    (p.bytes.set 0 first).take p.payloadOffset =
      p.headerWith first := by
  have hSet :
      p.bytes.set 0 first =
        p.headerWith first ++ (p.payload ++ p.trailing) :=
    rfl
  rw [hSet]
  exact List.take_left' (p.length_headerWith first)

/- A part of the payload, from its offset in the packet. -/
theorem take_drop_bytes
    {n m : Nat}
    (hFits : n + m ≤ p.payload.length) :
    (p.bytes.drop (p.payloadOffset + n)).take m =
      (p.payload.drop n).take m := by
  rw [← List.drop_drop, p.drop_payloadOffset,
    List.drop_append_of_le_length (by omega),
    List.take_append_of_le_length (by
      rw [List.length_drop]
      omega)]

end InitialPacket

theorem decryptInitial_bytes
    {p : InitialPacket}
    (hSize : p.bytes.length ≤ maxDatagramSize)
    (crypto : Crypto) :
    decryptInitial crypto p.bytes p.initial =
      p.opened crypto := by
  have hMax : maxDatagramSize = 1500 := rfl
  have hMin : minInitialPayloadLen = 36 := rfl
  have hRoom : maxClientHelloSize = 8192 := rfl
  have hLength := p.length_bytes
  have hPayload := p.payload_ge
  have hDcid := p.dcid_ge
  have hSample :
      (p.bytes.drop (p.payloadOffset + 4)).take 16 =
        (p.payload.drop 4).take 16 :=
    p.take_drop_bytes (by omega)
  unfold decryptInitial InitialPacket.opened
    InitialPacket.initial
  dsimp only
  rw [if_neg (by omega)]
  apply bind_congr
  intro keys
  rw [if_neg (by omega), hSample, aesEcbMask_asInvalid]
  cases hMask :
      aesEcbMask crypto keys.hp
        ((p.payload.drop 4).take 16) with
  | error status => rfl
  | ok mask =>
      have hMaskLength := (sized_eq_ok hMask).2
      change (if _ then _ else _) = _
      rw [p.byteAt_bytes_zero]
      change _ = aesGcmOpen crypto keys.key
        (packetNonce keys.iv (beNat
          (Octets.xor (p.payload.take _) (mask.drop 1))))
        (p.headerWith (p.first ^^^ (byteAt mask 0 &&& 0x0f))
          ++ Octets.xor (p.payload.take _) (mask.drop 1))
        (p.payload.drop _)
      generalize p.first ^^^ (byteAt mask 0 &&& 0x0f) = first
      have hPnLen := pnLen_le first
      generalize (first &&& 0x03).toNat + 1 = pnLen at *
      have hMasked := @InitialPacket.take_drop_bytes p 0 pnLen
        (by omega)
      have hCiphertext :=
        @InitialPacket.take_drop_bytes p pnLen
          (p.payload.length - pnLen) (by omega)
      have hWhole :
          (p.payload.drop pnLen).take
              (p.payload.length - pnLen) =
            p.payload.drop pnLen :=
        List.take_of_length_le (by rw [List.length_drop])
      rw [Nat.add_zero, List.drop_zero] at hMasked
      rw [if_neg (by omega), if_neg (by omega),
        unmaskNumber_eq (by omega) (by omega), hMasked,
        p.take_set_bytes, hCiphertext, hWhole]

end Quic

end QuicSniRouter
