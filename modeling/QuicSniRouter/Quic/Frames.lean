import QuicSniRouter.Quic.Initial

/-
  The frame walk over the plaintext of an Initial packet,
  and the CRYPTO stream that it reassembles.

  Main declarations:
    * `CryptoStream`
    * `CryptoStream.merge`
    * `CryptoStream.contiguousLen`
    * `extractCrypto`
-/

namespace QuicSniRouter

namespace Quic

/-
  Received bytes of a ClientHello.  `data` and `received`
  are arrays of `maxClientHelloSize` cells.
-/
structure CryptoStream where
  data : Nat → UInt8
  received : Nat → Bool
  len : Nat
  firstReceived : Nat
  lastReceived : Nat

namespace CryptoStream

/- A stream without any data. -/
def init : CryptoStream where
  data := fun _ => 0
  received := fun _ => false
  len := 0
  firstReceived := maxClientHelloSize
  lastReceived := 0

/-
  Overlay `src` on `dest`, scanning only the window between
  the first and the last byte that `src` received.
-/
def merge
    (dest src : CryptoStream) : CryptoStream :=
  let start :=
    if src.firstReceived < maxClientHelloSize then
      src.firstReceived
    else 0
  let stop :=
    if src.lastReceived < maxClientHelloSize then
      src.lastReceived
    else maxClientHelloSize
  let taken := fun i =>
    decide (start ≤ i) && decide (i < stop) && src.received i
  { data := fun i =>
      if taken i then src.data i else dest.data i
    received := fun i => taken i || dest.received i
    len := max dest.len src.len
    firstReceived :=
      min dest.firstReceived src.firstReceived
    lastReceived := max dest.lastReceived src.lastReceived }

/- Count received bytes from `len` on. -/
def contiguousFrom
    (stream : CryptoStream) :
    Nat → Nat → Nat
| 0, len => len
| fuel + 1, len =>
    if len < stream.len ∧ len < maxClientHelloSize ∧
        stream.received len = true then
      contiguousFrom stream fuel (len + 1)
    else
      len

/- How much of the stream has no gap. -/
def contiguousLen
    (stream : CryptoStream) : Nat :=
  contiguousFrom stream maxClientHelloSize 0

/- Copy the payload of one CRYPTO frame into the stream. -/
def write
    (stream : CryptoStream)
    (offset : Nat)
    (payload : Bytes) : CryptoStream :=
  let stop := offset + payload.length
  let inside := fun i =>
    decide (offset ≤ i) && decide (i < stop)
  { data := fun i =>
      if inside i then byteAt payload (i - offset)
      else stream.data i
    received := fun i => inside i || stream.received i
    len := max stream.len stop
    firstReceived := min stream.firstReceived offset
    lastReceived := max stream.lastReceived stop }

end CryptoStream

/- A varint and the bytes that follow it. -/
def takeVarint
    (rest : Bytes) :
    Except Status (Nat × Bytes) := do
  let (value, consumed) ← parseVarint rest
  return (value, rest.drop consumed)

/- Skip `count` varints. -/
def skipVarints :
    Nat → Bytes → Except Status Bytes
| 0, rest => .ok rest
| count + 1, rest => do
    let (_, rest) ← takeVarint rest
    skipVarints count rest

/-
  Skip the body of an ACK frame: the largest packet number,
  the delay, the range count, the first range, the ranges
  (two varints each), and three counts if ECN is present.
-/
def skipAck
    (frameType : UInt8)
    (rest : Bytes) :
    Except Status Bytes := do
  let rest ← skipVarints 2 rest
  let (rangeCount, rest) ← takeVarint rest
  let rest ← skipVarints 1 rest
  if rangeCount > rest.length / 2 then
    throw .invalid
  let rest ← skipVarints (2 * rangeCount) rest
  if frameType = 0x03 then
    skipVarints 3 rest
  else
    return rest

/- One CRYPTO frame, after its type byte. -/
def takeCrypto
    (stream : CryptoStream)
    (rest : Bytes) :
    Except Status (CryptoStream × Bytes) := do
  let (cryptoOffset, rest) ← takeVarint rest
  let (cryptoLen, rest) ← takeVarint rest
  if cryptoOffset > maxClientHelloSize ∨
      cryptoLen > maxClientHelloSize ∨
      cryptoLen > rest.length ∨
      cryptoOffset > maxClientHelloSize - cryptoLen then
    throw .invalid
  return (stream.write cryptoOffset (rest.take cryptoLen),
    rest.drop cryptoLen)

/-
  Walk the frames of `rest`.  Every frame takes at least its
  type byte, so the length of the plaintext bounds the
  number of rounds.
-/
def extractCryptoFrom :
    Nat → Bytes → CryptoStream → Bool →
      Except Status CryptoStream
| _, [], stream, found =>
    if found then .ok stream else .error .notFound
| 0, _ :: _, _, _ => .error .invalid
| fuel + 1, frameType :: rest, stream, found =>
    if frameType = 0x00 ∨ frameType = 0x01 then
      extractCryptoFrom fuel rest stream found
    else if frameType = 0x02 ∨ frameType = 0x03 then do
      let rest ← skipAck frameType rest
      extractCryptoFrom fuel rest stream found
    else if frameType ≠ 0x06 then
      .error .unsupported
    else do
      let (stream, rest) ← takeCrypto stream rest
      extractCryptoFrom fuel rest stream true

/- Add the crypto data of a packet to a stream. -/
def extractCrypto
    (plaintext : Bytes)
    (stream : CryptoStream) :
    Except Status CryptoStream :=
  if plaintext.length > maxClientHelloSize then
    .error .invalid
  else
    extractCryptoFrom plaintext.length plaintext stream false

end Quic

end QuicSniRouter
