import QuicSniRouter.Checked
import QuicSniRouter.Quic.Protection

/-
  The offsets of accepted Initial packets.  Decryption is
  run once more with its accesses checked: reads from the
  datagram stay in the part that belongs to the packet,
  sizes are not below zero, and only the primitives fail.

  Main declarations:
    * `checkedDecrypt`
    * `checkedDecrypt_matches`
    * `parser_bounds_suffice`
-/

------------------------------------------------------------
-- Checked Decryption
------------------------------------------------------------

namespace QuicSniRouter

namespace Quic

open Checked

/- One expansion, with its buffers checked. -/
def checkedExpandLabel
    (crypto : Crypto)
    (secret label : Bytes)
    (outLen : Nat) : Run Status Bytes := do
  let labelPrefix : Bytes := [116, 108, 115, 49, 51, 32]
  let full := labelPrefix ++ label
  refuse
    (full.length > 255 ∨ 4 + full.length > 64 ∨
      outLen > 65535) .invalid
  let info :=
    [UInt8.ofNat (outLen / 256), UInt8.ofNat outLen,
      UInt8.ofNat full.length] ++ full ++ [0]
  call (sized outLen (crypto.hkdfExpand secret info outLen))

/- The keys of a client, with all buffers checked. -/
def checkedKeys
    (crypto : Crypto)
    (version : Nat)
    (dcid : Bytes) : Run Status InitialKeys := do
  refuse
    (dcid.length = 0 ∨ dcid.length > maxQuicCidLen) .invalid
  let keying ← ensure (keyingForVersion version)
  let initialSecret ←
    call (hkdfExtract crypto keying.salt dcid 32)
  let clientSecret ←
    checkedExpandLabel crypto initialSecret
      [99, 108, 105, 101, 110, 116, 32, 105, 110] 32
  let key ←
    checkedExpandLabel crypto clientSecret keying.keyLabel 16
  let iv ←
    checkedExpandLabel crypto clientSecret keying.ivLabel 12
  let hp ←
    checkedExpandLabel crypto clientSecret keying.hpLabel 16
  return { key, iv, hp }

/- The tag stands behind what was encrypted. -/
def checkedOpen
    (crypto : Crypto)
    (window : Nat)
    (packet key nonce aad : Bytes)
    (offset ciphertextLen : Nat) : Run Status Bytes := do
  refuse (ciphertextLen < 16) .invalid
  let encryptedLen ← subtract ciphertextLen 16
  let encrypted ← read window packet offset encryptedLen
  let tag ← read window packet (offset + encryptedLen) 16
  store maxClientHelloSize encryptedLen
  call
    (match crypto.aesGcmOpen key nonce aad encrypted tag with
    | some out => .ok out
    | none => .error .invalid)

/-
  `decryptInitial` with checked accesses.  Of the datagram
  only the first `window` bytes may be read.
-/
def checkedDecrypt
    (crypto : Crypto)
    (window : Nat)
    (packet : Bytes)
    (initial : Initial) : Run Status Bytes := do
  let pnOffset := initial.packetNumberOffset
  refuse
    (initial.dcid.length = 0 ∨
      pnOffset + 4 + 16 > packet.length ∨
      initial.payloadLen < minInitialPayloadLen) .invalid
  let keys ← checkedKeys crypto initial.version initial.dcid
  refuse (packet.length > maxDatagramSize) .invalid
  let sample ← read window packet (pnOffset + 4) 16
  let mask ← call (aesEcbMask crypto keys.hp sample)
  let start ← read window packet 0 1
  let first := byteAt start 0 ^^^ (byteAt mask 0 &&& 0x0f)
  let pnLen := (first &&& 0x03).toNat + 1
  refuse
    (pnLen > initial.payloadLen ∨
      pnOffset + pnLen > packet.length) .invalid
  let masked ← read window packet pnOffset pnLen
  let number := Octets.xor masked (mask.drop 1)
  let nonce := packetNonce keys.iv (beNat number)
  let aadLen := pnOffset + pnLen
  let ciphertextLen ← subtract initial.payloadLen pnLen
  refuse
    (ciphertextLen > maxClientHelloSize ∨
      pnOffset + pnLen + ciphertextLen > packet.length)
    .invalid
  let header ← read window packet 0 pnOffset
  let aad := header.set 0 first ++ number
  checkedOpen crypto window packet keys.key nonce aad aadLen
    ciphertextLen

variable (crypto : Crypto)

theorem checkedExpandLabel_matches
    (secret label : Bytes)
    (outLen : Nat) :
    Matches (checkedExpandLabel crypto secret label outLen)
      (hkdfExpandLabel crypto secret label outLen) := by
  unfold checkedExpandLabel hkdfExpandLabel
  apply Matches.refuse rfl
  intro _
  exact Matches.call _

theorem checkedKeys_matches
    (version : Nat)
    (dcid : Bytes) :
    Matches (checkedKeys crypto version dcid)
      (initialClientKeys crypto version dcid) := by
  unfold checkedKeys
  rw [initialClientKeys_plain]
  apply Matches.refuse rfl
  intro _
  apply Matches.bind (Matches.ensure _)
  intro keying _
  apply Matches.bind (Matches.call _)
  intro initialSecret _
  apply Matches.bind (checkedExpandLabel_matches _ _ _ _)
  intro clientSecret _
  apply Matches.bind (checkedExpandLabel_matches _ _ _ _)
  intro key _
  apply Matches.bind (checkedExpandLabel_matches _ _ _ _)
  intro iv _
  apply Matches.bind (checkedExpandLabel_matches _ _ _ _)
  intro hp _
  rfl

/- The ciphertext is read in two parts. -/
theorem checkedOpen_matches
    (window : Nat)
    {packet : Bytes}
    (key nonce aad : Bytes)
    {offset ciphertextLen : Nat}
    (hFits : offset + ciphertextLen ≤ packet.length) :
    Matches
      (checkedOpen crypto window packet key nonce aad offset
        ciphertextLen)
      (aesGcmOpen crypto key nonce aad
        ((packet.drop offset).take ciphertextLen)) := by
  have hLength :
      ((packet.drop offset).take ciphertextLen).length =
        ciphertextLen := by
    rw [List.length_take, List.length_drop]
    omega
  unfold checkedOpen aesGcmOpen
  rw [hLength]
  apply Matches.refuse rfl
  intro hTag
  have hEncrypted :
      ((packet.drop offset).take ciphertextLen).take
          (ciphertextLen - 16) =
        (packet.drop offset).take (ciphertextLen - 16) := by
    rw [List.take_take, Nat.min_eq_left (by omega)]
  have hTagIs :
      ((packet.drop offset).take ciphertextLen).drop
          (ciphertextLen - 16) =
        (packet.drop (offset + (ciphertextLen - 16))).take
          16 := by
    rw [List.drop_take, List.drop_drop,
      Nat.sub_sub_self (by omega)]
  apply Matches.subtract
  apply Matches.read
  apply Matches.read
  apply Matches.store
  dsimp only
  rw [hEncrypted, hTagIs]
  exact Matches.call _

theorem checkedDecrypt_matches
    (window : Nat)
    (packet : Bytes)
    (initial : Initial) :
    Matches (checkedDecrypt crypto window packet initial)
      (decryptInitial crypto packet initial) := by
  unfold checkedDecrypt decryptInitial
  apply Matches.refuse rfl
  intro hFits
  apply Matches.bind (checkedKeys_matches _ _ _)
  intro keys _
  apply Matches.refuse rfl
  intro _
  apply Matches.read
  dsimp only
  rw [aesEcbMask_asInvalid]
  apply Matches.bind (Matches.call _)
  intro mask hMask
  have hMaskLength := (sized_eq_ok hMask).2
  have hStart :
      byteAt ((packet.drop 0).take 1) 0 = byteAt packet 0 := by
    simp [byteAt]
  apply Matches.read
  rw [hStart]
  generalize byteAt packet 0 ^^^ (byteAt mask 0 &&& 0x0f) =
    first
  have hPnLen := pnLen_le first
  generalize (first &&& 0x03).toNat + 1 = pnLen at *
  apply Matches.refuse rfl
  intro hNumber
  rw [unmaskNumber_eq (by omega) (by omega)]
  apply Matches.read
  apply Matches.subtract
  apply Matches.refuse rfl
  intro hCiphertext
  apply Matches.read
  rw [List.drop_zero, List.take_set]
  exact checkedOpen_matches _ _ _ _ _ (by omega)

end Quic

/- AES-GCM gives as many bytes as were encrypted. -/
def Crypto.OpensSized
    (crypto : Crypto) : Prop :=
  ∀ key nonce aad encrypted tag out,
    crypto.aesGcmOpen key nonce aad encrypted tag = some out →
      out.length = encrypted.length

namespace Quic

open Checked

variable {crypto : Crypto} {p : InitialPacket}
variable {plaintext : Bytes}

theorem checkedExpandLabel_safe
    {label : Bytes}
    (hLabel : label.length ≤ 54)
    {outLen : Nat}
    (hLe : outLen ≤ 65535)
    (secret : Bytes) :
    Safe (checkedExpandLabel crypto secret label outLen) := by
  have hShort :
      ([116, 108, 115, 49, 51, 32] ++ label).length ≤ 60 := by
    rw [List.length_append]
    exact Nat.add_le_add_left hLabel 6
  unfold checkedExpandLabel
  apply Safe.refuse (by omega)
  exact Safe.call _

theorem checkedKeys_safe
    {version : Nat}
    (hKnown : version = quicV1 ∨ version = quicV2)
    {dcid : Bytes}
    (hPos : 0 < dcid.length)
    (hLe : dcid.length ≤ maxQuicCidLen) :
    Safe (checkedKeys crypto version dcid) := by
  have hKeying :
      ∃ keying,
        keyingForVersion version = .ok keying ∧
          keying.keyLabel.length ≤ 54 ∧
          keying.ivLabel.length ≤ 54 ∧
          keying.hpLabel.length ≤ 54 := by
    rcases hKnown with hKnown | hKnown
    · subst hKnown
      exact ⟨_, rfl, by decide, by decide, by decide⟩
    · subst hKnown
      exact ⟨_, rfl, by decide, by decide, by decide⟩
  rcases hKeying with ⟨keying, hKeying, hKey, hIv, hHp⟩
  unfold checkedKeys
  apply Safe.refuse (by omega)
  apply Safe.ensure hKeying
  apply Safe.bind (Safe.call _)
  intro initialSecret
  apply Safe.bind
    (checkedExpandLabel_safe (by decide) (by decide) _)
  intro clientSecret
  apply Safe.bind (checkedExpandLabel_safe hKey (by decide) _)
  intro key
  apply Safe.bind (checkedExpandLabel_safe hIv (by decide) _)
  intro iv
  apply Safe.bind (checkedExpandLabel_safe hHp (by decide) _)
  intro hp
  exact Safe.done _

theorem checkedDecrypt_safe
    (hSize : p.bytes.length ≤ maxDatagramSize) :
    Safe (checkedDecrypt crypto
      (p.payloadOffset + p.payload.length) p.bytes
      p.initial) := by
  have hMax : maxDatagramSize = 1500 := rfl
  have hMin : minInitialPayloadLen = 36 := rfl
  have hRoom : maxClientHelloSize = 8192 := rfl
  have hLength := p.length_bytes
  have hPayload := p.payload_ge
  have hDcid := p.dcid_ge
  unfold checkedDecrypt InitialPacket.initial
  dsimp only
  apply Safe.refuse (by omega)
  apply Safe.bind
    (checkedKeys_safe p.known (by omega) p.dcid_le)
  intro keys
  apply Safe.refuse (by omega)
  apply Safe.read (by omega)
  apply Safe.bind (Safe.call _)
  intro mask
  apply Safe.read (by omega)
  generalize byteAt ((p.bytes.drop 0).take 1) 0 ^^^
    (byteAt mask 0 &&& 0x0f) = first
  have hPnLen := pnLen_le first
  generalize (first &&& 0x03).toNat + 1 = pnLen at *
  apply Safe.refuse (by omega)
  apply Safe.read (by omega)
  apply Safe.subtract (by omega)
  apply Safe.refuse (by omega)
  apply Safe.read (by omega)
  unfold checkedOpen
  apply Safe.refuse (by omega)
  apply Safe.subtract (by omega)
  apply Safe.read (by omega)
  apply Safe.read (by omega)
  apply Safe.store (by omega)
  exact Safe.call _

/- A datagram that starts with the same packet. -/
theorem InitialPacket.bytes_of_take
    {other : Bytes}
    (hTake :
      other.take (p.payloadOffset + p.payload.length) =
        p.bytes.take (p.payloadOffset + p.payload.length)) :
    ∃ trailing, other = { p with trailing }.bytes := by
  have hPacket :
      p.bytes.take (p.payloadOffset + p.payload.length) =
        p.headerWith p.first ++ p.payload := by
    unfold InitialPacket.bytes
    rw [← List.append_assoc]
    apply List.take_left'
    rw [List.length_append, p.length_headerWith]
  refine ⟨other.drop (p.payloadOffset + p.payload.length), ?_⟩
  have hSplit := List.take_append_drop
    (p.payloadOffset + p.payload.length) other
  rw [hTake, hPacket, List.append_assoc] at hSplit
  exact hSplit.symm

theorem length_of_aesGcmOpen
    (hOpen : crypto.OpensSized)
    {key nonce aad ciphertext : Bytes}
    (hOk :
      aesGcmOpen crypto key nonce aad ciphertext =
        .ok plaintext) :
    plaintext.length ≤ ciphertext.length := by
  unfold aesGcmOpen at hOk
  by_cases hShort : ciphertext.length < 16
  · rw [if_pos hShort] at hOk
    cases hOk
  · rw [if_neg hShort] at hOk
    cases hOut :
        crypto.aesGcmOpen key nonce aad
          (ciphertext.take (ciphertext.length - 16))
          (ciphertext.drop (ciphertext.length - 16)) with
    | none =>
        simp only [hOut] at hOk
        cases hOk
    | some out =>
        simp only [hOut] at hOk
        cases hOk
        have hLength := hOpen _ _ _ _ _ _ hOut
        rw [List.length_take] at hLength
        omega

/- Decryption does not make a packet longer. -/
theorem InitialPacket.length_of_opened
    (hOpen : crypto.OpensSized)
    (hOpened : p.opened crypto = .ok plaintext) :
    plaintext.length ≤ p.payload.length := by
  unfold InitialPacket.opened at hOpened
  rcases except_bind_eq_ok hOpened with ⟨keys, _, hRest⟩
  rcases except_bind_eq_ok hRest with ⟨mask, _, hRest⟩
  have hLength := length_of_aesGcmOpen hOpen hRest
  rw [List.length_drop] at hLength
  omega

/-
  For an accepted datagram the checked run is the decryption
  and only a primitive stops it, the plaintext fits, and
  what follows the packet has no part in the result.
-/
theorem parser_bounds_suffice
    (crypto : Crypto)
    (packet : Bytes)
    (hSize : packet.length ≤ maxDatagramSize)
    (initial : Initial)
    (hParse : parseInitial packet = .ok initial) :
    let window :=
      initial.packetNumberOffset + initial.payloadLen
    window ≤ packet.length ∧
    ((∃ plaintext,
        checkedDecrypt crypto window packet initial =
            .ok plaintext ∧
          decryptInitial crypto packet initial =
            .ok plaintext) ∨
      ∃ status,
        checkedDecrypt crypto window packet initial =
            .error (.failed status) ∧
          decryptInitial crypto packet initial =
            .error status) ∧
    (crypto.OpensSized →
      ∀ plaintext,
        decryptInitial crypto packet initial = .ok plaintext →
          plaintext.length ≤ maxClientHelloSize) ∧
    (∀ other,
      other.length ≤ maxDatagramSize →
        other.take window = packet.take window →
          parseInitial other = .ok initial ∧
            decryptInitial crypto other initial =
              decryptInitial crypto packet initial) := by
  intro window
  rcases parseInitial_eq_ok hParse with ⟨p, hPacket, hInitial⟩
  subst hPacket
  subst hInitial
  have hLength := p.length_bytes
  refine ⟨?_, ?_, ?_, ?_⟩
  · change p.payloadOffset + p.payload.length ≤ p.bytes.length
    omega
  · exact (checkedDecrypt_matches _ _ _ _).of_safe
      (checkedDecrypt_safe hSize)
  · intro hOpen plaintext hOk
    rw [decryptInitial_bytes hSize] at hOk
    have hLe := InitialPacket.length_of_opened hOpen hOk
    have hMax : maxDatagramSize ≤ maxClientHelloSize := by
      decide
    omega
  · intro other hOther hTake
    rcases InitialPacket.bytes_of_take hTake with
      ⟨trailing, hBytes⟩
    subst hBytes
    refine ⟨parseInitial_bytes { p with trailing }, ?_⟩
    rw [decryptInitial_bytes hSize]
    exact decryptInitial_bytes hOther crypto

end Quic

namespace Deployment

open Quic

/- The fields of the recorded packet. -/
theorem connection1_bounds :
    ∃ initial,
      parseInitial connection1.packet = .ok initial ∧
        ∀ crypto : Crypto, ∀ other : Bytes,
          other.length ≤ maxDatagramSize →
            other.take
                (initial.packetNumberOffset +
                  initial.payloadLen) =
              connection1.packet.take
                (initial.packetNumberOffset +
                  initial.payloadLen) →
              decryptInitial crypto other initial =
                decryptInitial crypto connection1.packet
                  initial := by
  refine ⟨{
    version := quicV1
    dcid := connection1.dcid
    scid := [1]
    tokenOffset := 17
    tokenLen := 0
    payloadOffset := 19
    payloadLen := 77
    packetNumberOffset := 19 }, by decide +kernel, ?_⟩
  intro crypto other hOther hTake
  exact ((parser_bounds_suffice crypto _ (by decide +kernel) _
    (by decide +kernel)).2.2.2 other hOther hTake).2

end Deployment

end QuicSniRouter
