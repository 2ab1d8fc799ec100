import QuicSniRouter.Quic.Crypto

/-
  The encoded connection ids of encrypted-CID routing: a
  version byte, a seven-byte nonce, and the AES-128-CTR
  encryption of a server id followed by a magic tag.

  Main declarations:
    * `CidCodec`
    * `CidCodec.initFromHex`
    * `CidCodec.encode`
    * `CidCodec.decode`
    * `CidCodec.decode_inverts_encode`
-/

------------------------------------------------------------
-- The Codec
------------------------------------------------------------

namespace QuicSniRouter

open Octets

/- The parts of an encoded connection id. -/
abbrev cidEncodedLen : Nat := 16
abbrev cidEncodedVersion : UInt8 := 0x4f
abbrev cidKeyLen : Nat := 16
abbrev cidNonceLen : Nat := 7
abbrev cidPayloadLen : Nat := 8

/- The ASCII bytes of "qsrlrtr". -/
def cidMagic : Bytes :=
  [113, 115, 114, 108, 114, 116, 114]

/- The codec, with its key once it is enabled. -/
structure CidCodec where
  key : Bytes
  enabled : Bool
deriving DecidableEq, Repr

namespace CidCodec

/- The zeroed codec of a default configuration. -/
def disabled : CidCodec where
  key := List.replicate cidKeyLen 0
  enabled := false

/- The value of one hexadecimal digit. -/
def hexNibble
    (c : UInt8) :
    Option Nat :=
  if 0x30 ≤ c ∧ c ≤ 0x39 then some (c.toNat - 0x30)
  else if 0x61 ≤ c ∧ c ≤ 0x66 then some (c.toNat - 0x61 + 10)
  else if 0x41 ≤ c ∧ c ≤ 0x46 then some (c.toNat - 0x41 + 10)
  else none

/- Pairs of hexadecimal digits as bytes. -/
def hexBytes :
    Bytes → Option Bytes
| hi :: lo :: rest => do
    let h ← hexNibble hi
    let l ← hexNibble lo
    let tail ← hexBytes rest
    return UInt8.ofNat (h * 16 + l) :: tail
| _ => some []

/- A codec from the key of a configuration. -/
def initFromHex
    (hexKey : Bytes) :
    Except Status CidCodec :=
  if hexKey.length ≠ cidKeyLen * 2 then
    .error .invalid
  else
    match hexBytes hexKey with
    | some key => .ok { key, enabled := true }
    | none => .error .invalid

/- Version and nonce, filled up to a block. -/
def buildIv
    (nonce : Bytes) : Bytes :=
  cidEncodedVersion :: nonce ++
    List.replicate (cidKeyLen - 1 - cidNonceLen) 0

/- CTR is symmetric: this encrypts and decrypts. -/
def aes128CtrCrypt
    (crypto : Crypto)
    (key iv input : Bytes) :
    Except Status Bytes :=
  Quic.sized cidPayloadLen (crypto.aesCtr key iv input)

/- An id that names a server to holders of the key. -/
def encode
    (crypto : Crypto)
    (codec : CidCodec)
    (serverId : UInt8)
    (nonce : Bytes) :
    Except Status Bytes := do
  if !codec.enabled || serverId == 0 then
    throw .invalid
  let payload ←
    aes128CtrCrypt crypto codec.key (buildIv nonce)
      (serverId :: cidMagic)
  return cidEncodedVersion :: nonce ++ payload

/- The server that an id names, if it names one. -/
def decode
    (crypto : Crypto)
    (codec : CidCodec)
    (cid : Bytes) :
    Except Status UInt8 := do
  if !codec.enabled then
    throw .invalid
  if cid.length ≠ cidEncodedLen ∨
      byteAt cid 0 ≠ cidEncodedVersion then
    throw .invalid
  let nonce := (cid.drop 1).take cidNonceLen
  let plaintext ←
    aes128CtrCrypt crypto codec.key (buildIv nonce)
      (cid.drop (1 + cidNonceLen))
  if byteAt plaintext 0 = 0 ∨ plaintext.drop 1 ≠ cidMagic then
    throw .invalid
  return byteAt plaintext 0

end CidCodec

------------------------------------------------------------
-- Encoding And Decoding
------------------------------------------------------------

/-
  Counter mode as the codec relies on it: every payload is
  masked by a stream that the key and the IV determine.
-/
structure Crypto.CtrStream
    (crypto : Crypto)
    (stream : Bytes → Bytes → Bytes) : Prop where
  covers : ∀ key iv, cidPayloadLen ≤ (stream key iv).length
  masks :
    ∀ key iv input, input.length = cidPayloadLen →
      crypto.aesCtr key iv input =
        some (xor input (stream key iv))

namespace CidCodec

variable {crypto : Crypto} {stream : Bytes → Bytes → Bytes}
variable {codec : CidCodec} {serverId : UInt8}
variable {nonce cid : Bytes}

/- The mask that a nonce stands for. -/
def maskOf
    (stream : Bytes → Bytes → Bytes)
    (codec : CidCodec)
    (nonce : Bytes) : Bytes :=
  stream codec.key (buildIv nonce)

theorem aes128CtrCrypt_eq
    (hStream : crypto.CtrStream stream)
    {input : Bytes}
    (hLength : input.length = cidPayloadLen)
    (nonce : Bytes) :
    aes128CtrCrypt crypto codec.key (buildIv nonce) input =
      .ok (xor input (maskOf stream codec nonce)) := by
  have hOut :
      (xor input (maskOf stream codec nonce)).length =
        cidPayloadLen := by
    rw [← hLength]
    apply length_xor
    rw [hLength]
    exact hStream.covers codec.key (buildIv nonce)
  unfold aes128CtrCrypt
  rw [hStream.masks _ _ _ hLength]
  exact if_pos hOut

theorem encode_eq_ok
    (hStream : crypto.CtrStream stream)
    (hEnabled : codec.enabled = true) :
    encode crypto codec serverId nonce = .ok cid ↔
      serverId ≠ 0 ∧
        cid = cidEncodedVersion :: nonce ++
          xor (serverId :: cidMagic)
            (maskOf stream codec nonce) := by
  have hLength :
      (serverId :: cidMagic).length = cidPayloadLen :=
    rfl
  constructor
  · intro hEncode
    rcases except_guard_eq_ok hEncode with ⟨hGuard, hRest⟩
    rw [aes128CtrCrypt_eq hStream hLength] at hRest
    cases hRest
    refine ⟨?_, rfl⟩
    intro hZero
    simp [hZero] at hGuard
  · rintro ⟨hZero, hCid⟩
    rw [hCid]
    apply except_guard_ok
    · simp [hEnabled, hZero]
    · rw [aes128CtrCrypt_eq hStream hLength]
      rfl

theorem payload_length
    (hLength : cid.length = cidEncodedLen) :
    (cid.drop (1 + cidNonceLen)).length = cidPayloadLen := by
  rw [List.length_drop, hLength]
  rfl

theorem decode_eq_ok
    (hStream : crypto.CtrStream stream)
    (hEnabled : codec.enabled = true) :
    decode crypto codec cid = .ok serverId ↔
      cid.length = cidEncodedLen ∧
        byteAt cid 0 = cidEncodedVersion ∧
        serverId ≠ 0 ∧
        xor (cid.drop (1 + cidNonceLen))
            (maskOf stream codec
              ((cid.drop 1).take cidNonceLen)) =
          serverId :: cidMagic := by
  constructor
  · intro hDecode
    unfold decode at hDecode
    rcases except_guard_eq_ok hDecode with ⟨_, hRest⟩
    rcases except_guard_eq_ok hRest with ⟨hForm, hRest⟩
    rw [not_or, not_not, not_not] at hForm
    rcases except_bind_eq_ok hRest with
      ⟨plaintext, hCrypt, hRest⟩
    rw [aes128CtrCrypt_eq hStream
      (payload_length hForm.1)] at hCrypt
    cases hCrypt
    rcases except_guard_eq_ok hRest with ⟨hPlain, hRest⟩
    rw [not_or, not_not] at hPlain
    cases hRest
    refine ⟨hForm.1, hForm.2, hPlain.1, ?_⟩
    cases hText :
        xor (cid.drop (1 + cidNonceLen))
          (maskOf stream codec
            ((cid.drop 1).take cidNonceLen)) with
    | nil =>
        rw [hText] at hPlain
        exact absurd rfl hPlain.1
    | cons first rest =>
        rw [hText] at hPlain
        rw [← hPlain.2]
        rfl
  · rintro ⟨hLength, hVersion, hZero, hText⟩
    apply except_guard_ok (by simp [hEnabled])
    apply except_guard_ok (by simp [hLength, hVersion])
    apply except_bind_ok
      (aes128CtrCrypt_eq hStream (payload_length hLength) _)
    rw [hText]
    apply except_guard_ok
    · intro hBad
      rcases hBad with hBad | hBad
      · exact hZero hBad
      · exact hBad rfl
    · rfl

/- An id of the right length is made of its three fields. -/
theorem fields_of_length
    (hLength : cid.length = cidEncodedLen) :
    cid =
      byteAt cid 0 :: (cid.drop 1).take cidNonceLen ++
        cid.drop (1 + cidNonceLen) := by
  cases cid with
  | nil => cases hLength
  | cons first rest =>
      have hDrop :
          (first :: rest).drop (1 + cidNonceLen) =
            rest.drop cidNonceLen :=
        rfl
      rw [hDrop, List.cons_append]
      exact congrArg (first :: ·)
        (List.take_append_drop cidNonceLen rest).symm

theorem encode_of_decode
    (hStream : crypto.CtrStream stream)
    (hEnabled : codec.enabled = true)
    (hDecode : decode crypto codec cid = .ok serverId) :
    cid.length = cidEncodedLen ∧
      encode crypto codec serverId
        ((cid.drop 1).take cidNonceLen) = .ok cid := by
  rcases (decode_eq_ok hStream hEnabled).mp hDecode with
    ⟨hLength, hVersion, hZero, hText⟩
  refine ⟨hLength, ?_⟩
  apply (encode_eq_ok hStream hEnabled).mpr
  refine ⟨hZero, ?_⟩
  have hCovered :
      (cid.drop (1 + cidNonceLen)).length ≤
        (maskOf stream codec
          ((cid.drop 1).take cidNonceLen)).length := by
    rw [payload_length hLength]
    exact hStream.covers _ _
  rw [← hText, xor_xor hCovered, ← hVersion]
  exact fields_of_length hLength

theorem decode_of_encode
    (hStream : crypto.CtrStream stream)
    (hEnabled : codec.enabled = true)
    (hNonce : nonce.length = cidNonceLen)
    (hEncode : encode crypto codec serverId nonce = .ok cid) :
    (cid.drop 1).take cidNonceLen = nonce ∧
      decode crypto codec cid = .ok serverId := by
  rcases (encode_eq_ok hStream hEnabled).mp hEncode with
    ⟨hZero, hCid⟩
  have hCovered :
      (serverId :: cidMagic).length ≤
        (maskOf stream codec nonce).length :=
    hStream.covers _ _
  have hTake : (cid.drop 1).take cidNonceLen = nonce := by
    rw [hCid, ← hNonce]
    exact List.take_left
  have hDrop :
      cid.drop (1 + cidNonceLen) =
        xor (serverId :: cidMagic)
          (maskOf stream codec nonce) := by
    rw [hCid, ← hNonce, Nat.add_comm]
    exact List.drop_left
  refine ⟨hTake, ?_⟩
  apply (decode_eq_ok hStream hEnabled).mpr
  refine ⟨?_, ?_, hZero, ?_⟩
  · rw [hCid, List.length_append, List.length_cons,
      length_xor hCovered, hNonce]
    rfl
  · rw [hCid]
    rfl
  · rw [hTake, hDrop, xor_xor hCovered]

/-
  Decoding undoes encoding, accepts nothing else, and every
  id that it accepts is the encoding of one server id under
  one nonce.
-/
theorem decode_inverts_encode
    (hStream : crypto.CtrStream stream)
    (hEnabled : codec.enabled = true) :
    (∀ serverId nonce,
      serverId ≠ 0 → nonce.length = cidNonceLen →
        ∃ cid,
          encode crypto codec serverId nonce = .ok cid ∧
            decode crypto codec cid = .ok serverId) ∧
    (∀ cid serverId,
      decode crypto codec cid = .ok serverId ↔
        cid.length = cidEncodedLen ∧
          encode crypto codec serverId
            ((cid.drop 1).take cidNonceLen) = .ok cid) ∧
    (∀ cid,
      (∃ serverId, decode crypto codec cid = .ok serverId) ↔
        ∃! source : UInt8 × Bytes,
          source.2.length = cidNonceLen ∧
            encode crypto codec source.1 source.2 =
              .ok cid) := by
  refine ⟨?_, ?_, ?_⟩
  · intro serverId nonce hZero hNonce
    have hEncode :=
      (encode_eq_ok hStream hEnabled).mpr
        ⟨hZero, Eq.refl (cidEncodedVersion :: nonce ++ _)⟩
    exact ⟨_, hEncode,
      (decode_of_encode hStream hEnabled hNonce hEncode).2⟩
  · intro cid serverId
    constructor
    · exact encode_of_decode hStream hEnabled
    · rintro ⟨hLength, hEncode⟩
      have hNonce :
          ((cid.drop 1).take cidNonceLen).length =
            cidNonceLen := by
        rw [List.length_take, List.length_drop, hLength]
        rfl
      exact (decode_of_encode hStream hEnabled hNonce
        hEncode).2
  · intro cid
    constructor
    · rintro ⟨serverId, hDecode⟩
      rcases encode_of_decode hStream hEnabled hDecode with
        ⟨hLength, hEncode⟩
      refine ⟨(serverId, (cid.drop 1).take cidNonceLen),
        ⟨?_, hEncode⟩, ?_⟩
      · rw [List.length_take, List.length_drop, hLength]
        rfl
      · rintro ⟨other, nonce⟩ ⟨hNonce, hOther⟩
        rcases decode_of_encode hStream hEnabled hNonce
            hOther with ⟨hTake, hDecode'⟩
        rw [hDecode] at hDecode'
        cases hDecode'
        exact Prod.ext rfl hTake.symm
    · rintro ⟨⟨serverId, nonce⟩, ⟨hNonce, hEncode⟩, _⟩
      exact ⟨serverId,
        (decode_of_encode hStream hEnabled hNonce hEncode).2⟩

/-
  AES-128-CTR under the all-zero key with a zero nonce: the
  first eight bytes of its key stream.
-/
def keyStream : Bytes :=
  [0x03, 0xee, 0xdb, 0x73, 0xf7, 0x73, 0x42, 0xb7]

/- Another stream stands in for other keys and nonces. -/
def streamOf
    (key iv : Bytes) : Bytes :=
  if key = List.replicate cidKeyLen 0 ∧
      iv = buildIv (List.replicate cidNonceLen 0) then
    keyStream
  else
    iv ++ key ++ List.replicate cidPayloadLen 0

/- A library whose streams are the recorded ones. -/
def recordedStream : Crypto where
  hkdfExtract := fun _ _ => none
  hkdfExpand := fun _ _ _ => none
  aesEcb := fun _ _ => none
  aesGcmOpen := fun _ _ _ _ _ => none
  aesCtr := fun key iv input =>
    some (xor input (streamOf key iv))

theorem recordedStream_ctr :
    recordedStream.CtrStream streamOf where
  covers := by
    intro key iv
    unfold streamOf
    split
    · exact Nat.le_refl _
    · rw [List.length_append, List.length_replicate]
      exact Nat.le_add_left _ _
  masks := fun _ _ _ _ => rfl

/- The identifier of server 7 under the all-zero key. -/
theorem decode_inverts_encode_keyStream :
    let codec : CidCodec := { disabled with enabled := true }
    let nonce := List.replicate cidNonceLen 0
    let cid :=
      cidEncodedVersion :: nonce ++
        [4, 159, 168, 1, 155, 1, 54, 197]
    encode recordedStream codec 7 nonce = .ok cid ∧
      decode recordedStream codec cid = .ok 7 := by
  intro codec nonce cid
  have hCid :
      encode recordedStream codec 7 nonce = .ok cid := by
    decide
  have hEnabled : codec.enabled = true := rfl
  rcases (decode_inverts_encode recordedStream_ctr
      hEnabled).1 7 nonce (by decide) rfl with
    ⟨other, hEncode, hDecode⟩
  rw [hCid] at hEncode
  cases hEncode
  exact ⟨hCid, hDecode⟩

end CidCodec

end QuicSniRouter
