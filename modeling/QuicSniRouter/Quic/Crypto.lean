import QuicSniRouter.Quic.Initial

/-
  Deprotection of Initial packets: key derivation from the
  destination connection id, removal of header protection,
  and AES-128-GCM decryption.  The cryptographic primitives
  belong to OpenSSL and are a parameter.

  Main declarations:
    * `Crypto`
    * `initialClientKeys`
    * `decryptInitial`
-/

namespace QuicSniRouter

/-
  The primitives the router calls in OpenSSL.  `none` stands
  for a failed call; for `aesGcmOpen` also for a tag that
  does not verify.
-/
structure Crypto where
  hkdfExtract : (salt key : Bytes) → Option Bytes
  hkdfExpand : (secret info : Bytes) → Nat → Option Bytes
  aesEcb : (key block : Bytes) → Option Bytes
  aesGcmOpen :
    (key nonce aad encrypted tag : Bytes) → Option Bytes
  aesCtr : (key iv input : Bytes) → Option Bytes

namespace Quic

/- Accept an OpenSSL result of the expected length. -/
def sized
    (outLen : Nat) :
    Option Bytes → Except Status Bytes
| some out =>
    if out.length = outLen then .ok out
    else .error .invalid
| none => .error .invalid

/- Extraction of a secret. -/
def hkdfExtract
    (crypto : Crypto)
    (salt key : Bytes)
    (outLen : Nat) :
    Except Status Bytes :=
  sized outLen (crypto.hkdfExtract salt key)

/- `HkdfLabel` with an empty context. -/
def hkdfExpandLabel
    (crypto : Crypto)
    (secret label : Bytes)
    (outLen : Nat) :
    Except Status Bytes :=
  -- The ASCII bytes of "tls13 ".
  let labelPrefix : Bytes := [116, 108, 115, 49, 51, 32]
  let full := labelPrefix ++ label
  if full.length > 255 ∨ 4 + full.length > 64 ∨
      outLen > 65535 then
    .error .invalid
  else
    let info :=
      [UInt8.ofNat (outLen / 256), UInt8.ofNat outLen,
        UInt8.ofNat full.length] ++ full ++ [0]
    sized outLen (crypto.hkdfExpand secret info outLen)

/- The mask of header protection. -/
def aesEcbMask
    (crypto : Crypto)
    (key sample : Bytes) :
    Except Status Bytes :=
  sized 16 (crypto.aesEcb key sample)

/- Opening what was sealed with AES-128-GCM. -/
def aesGcmOpen
    (crypto : Crypto)
    (key nonce aad ciphertext : Bytes) :
    Except Status Bytes :=
  if ciphertext.length < 16 then
    .error .invalid
  else
    let encryptedLen := ciphertext.length - 16
    match crypto.aesGcmOpen key nonce aad
        (ciphertext.take encryptedLen)
        (ciphertext.drop encryptedLen) with
    | some out => .ok out
    | none => .error .invalid

/- The salts of the two versions. -/
def quicV1InitialSalt : Bytes :=
  [0x38, 0x76, 0x2c, 0xf7, 0xf5, 0x59, 0x34, 0xb3, 0x4d,
    0x17, 0x9a, 0xe6, 0xa4, 0xc8, 0x0c, 0xad, 0xcc, 0xbb,
    0x7f, 0x0a]

def quicV2InitialSalt : Bytes :=
  [0x0d, 0xed, 0xe3, 0xde, 0xf7, 0x00, 0xa6, 0xdb, 0x81,
    0x93, 0x81, 0xbe, 0x6e, 0x26, 0x9d, 0xcb, 0xf9, 0xbd,
    0x2e, 0xd9]

/- The salt and labels of one version, labels in ASCII. -/
structure Keying where
  salt : Bytes
  keyLabel : Bytes
  ivLabel : Bytes
  hpLabel : Bytes

/- Salt and labels of a version. -/
def keyingForVersion
    (version : Nat) :
    Except Status Keying :=
  if version = quicV1 then
    -- "quic key", "quic iv", "quic hp"
    .ok {
      salt := quicV1InitialSalt
      keyLabel := [113, 117, 105, 99, 32, 107, 101, 121]
      ivLabel := [113, 117, 105, 99, 32, 105, 118]
      hpLabel := [113, 117, 105, 99, 32, 104, 112] }
  else if version = quicV2 then
    -- "quicv2 key", "quicv2 iv", "quicv2 hp"
    .ok {
      salt := quicV2InitialSalt
      keyLabel :=
        [113, 117, 105, 99, 118, 50, 32, 107, 101, 121]
      ivLabel := [113, 117, 105, 99, 118, 50, 32, 105, 118]
      hpLabel := [113, 117, 105, 99, 118, 50, 32, 104, 112] }
  else
    .error .unsupported

/- The keys of one direction. -/
structure InitialKeys where
  key : Bytes
  iv : Bytes
  hp : Bytes

/- A failed primitive is reported as an invalid input. -/
def asInvalid
    {α : Type} :
    Except Status α → Except Status α
| .ok a => .ok a
| .error _ => .error .invalid

/- The keys that a client seals Initials with. -/
def initialClientKeys
    (crypto : Crypto)
    (version : Nat)
    (dcid : Bytes) :
    Except Status InitialKeys := do
  if dcid.length = 0 ∨ dcid.length > maxQuicCidLen then
    throw .invalid
  let keying ← keyingForVersion version
  asInvalid do
    let initialSecret ← hkdfExtract crypto keying.salt dcid 32
    -- The ASCII bytes of "client in".
    let clientSecret ←
      hkdfExpandLabel crypto initialSecret
        [99, 108, 105, 101, 110, 116, 32, 105, 110] 32
    let key ←
      hkdfExpandLabel crypto clientSecret keying.keyLabel 16
    let iv ←
      hkdfExpandLabel crypto clientSecret keying.ivLabel 12
    let hp ←
      hkdfExpandLabel crypto clientSecret keying.hpLabel 16
    return { key, iv, hp }

/- The last eight bytes of a nonce, xored into the IV. -/
def packetNonce
    (iv : Bytes)
    (packetNumber : Nat) : Bytes :=
  let number :=
    (List.range 8).map
      (fun i => UInt8.ofNat (packetNumber / 256 ^ (7 - i)))
  iv.zipWith (· ^^^ ·) (List.replicate 4 0 ++ number)

/-
  The packet-number bytes after the mask is removed.
-/
def unmaskNumber
    (packet mask : Bytes)
    (offset pnLen : Nat) : Bytes :=
  (List.range pnLen).map
    (fun i =>
      byteAt packet (offset + i) ^^^ byteAt mask (i + 1))

/- Remove the protection and open the payload. -/
def decryptInitial
    (crypto : Crypto)
    (packet : Bytes)
    (initial : Initial) :
    Except Status Bytes := do
  let pnOffset := initial.packetNumberOffset
  if initial.dcid.length = 0 ∨
      pnOffset + 4 + 16 > packet.length ∨
      initial.payloadLen < minInitialPayloadLen then
    throw .invalid
  let keys ←
    initialClientKeys crypto initial.version initial.dcid
  if packet.length > maxDatagramSize then
    throw .invalid
  let sample := (packet.drop (pnOffset + 4)).take 16
  let mask ← asInvalid (aesEcbMask crypto keys.hp sample)
  let first := byteAt packet 0 ^^^ (byteAt mask 0 &&& 0x0f)
  let pnLen := (first &&& 0x03).toNat + 1
  if pnLen > initial.payloadLen ∨
      pnOffset + pnLen > packet.length then
    throw .invalid
  let number := unmaskNumber packet mask pnOffset pnLen
  let nonce := packetNonce keys.iv (beNat number)
  let aadLen := pnOffset + pnLen
  let ciphertextLen := initial.payloadLen - pnLen
  if ciphertextLen > maxClientHelloSize ∨
      pnOffset + pnLen + ciphertextLen > packet.length then
    throw .invalid
  let aad := (packet.set 0 first).take pnOffset ++ number
  aesGcmOpen crypto keys.key nonce aad
    ((packet.drop aadLen).take ciphertextLen)

end Quic

end QuicSniRouter
