import QuicSniRouter.Common

/-
  Long-header packet parsing for QUIC v1 and v2.
  `parseLongHeader` reads the version and the connection ids
  of any supported long-header packet; `parseInitial` adds
  the checks and offsets that Initial packets need.

  Main declarations:
    * `parseVarint`
    * `parseLongHeader`
    * `parseInitial`
-/

namespace QuicSniRouter

namespace Quic

/-
  The value of a variable-length integer at the front of
  `data`, and the number of bytes it takes.
-/
def parseVarint
    (data : Bytes) :
    Except Status (Nat × Nat) :=
  if data.length = 0 then
    .error .invalid
  else
    let width := 2 ^ ((byteAt data 0).toNat / 64)
    if width > data.length then
      .error .truncated
    else
      let first := (byteAt data 0).toNat % 64
      let value :=
        ((data.take width).drop 1).foldl
          (fun result b => result * 256 + b.toNat) first
      .ok (value, width)

/-
  The fields every long header has.  A connection id is the
  list of its bytes, so its length is the list's.
-/
structure LongHeader where
  version : Nat
  typeBits : UInt8
  dcid : Bytes
  scid : Bytes
  remainderOffset : Nat
deriving DecidableEq, Repr

/- The long-header bit of the first byte. -/
def hasLongBit
    (data : Bytes) : Bool :=
  byteAt data 0 &&& 0x80 != 0

/- The fixed bit of the first byte. -/
def hasFixedBit
    (data : Bytes) : Bool :=
  byteAt data 0 &&& 0x40 != 0

/- The version field of a long header. -/
def versionOf
    (data : Bytes) : Nat :=
  beNat ((data.drop 1).take 4)

/- The fields that all long headers share. -/
def parseLongHeader
    (data : Bytes) :
    Except Status LongHeader := do
  if data.length < 7 then
    throw .truncated
  if !hasLongBit data || !hasFixedBit data then
    throw .invalid
  let version := versionOf data
  if version ≠ quicV1 ∧ version ≠ quicV2 then
    throw .unsupported
  let typeBits := byteAt data 0 &&& 0x30
  let dcidLen := (byteAt data 5).toNat
  if dcidLen > maxQuicCidLen ∨ dcidLen > data.length - 6 then
    throw .invalid
  let dcid := (data.drop 6).take dcidLen
  let offset := 6 + dcidLen
  if offset ≥ data.length then
    throw .truncated
  let scidLen := (byteAt data offset).toNat
  let offset := offset + 1
  if scidLen > maxQuicCidLen ∨
      scidLen > data.length - offset then
    throw .invalid
  let scid := (data.drop offset).take scidLen
  return {
    version, typeBits, dcid, scid
    remainderOffset := offset + scidLen }

/- What an accepted long header says about its packet. -/
structure LongHeader.Of
    (data : Bytes)
    (header : LongHeader) : Prop where
  length : 7 ≤ data.length
  long : hasLongBit data = true
  fixed : hasFixedBit data = true
  version : versionOf data = quicV1 ∨ versionOf data = quicV2
  dcid :
    header.dcid = (data.drop 6).take (byteAt data 5).toNat
  dcid_length : header.dcid.length = (byteAt data 5).toNat
  dcid_le : header.dcid.length ≤ maxQuicCidLen
  dcid_fits : 6 + header.dcid.length < data.length
  scid_le : header.scid.length ≤ maxQuicCidLen

theorem parseLongHeader_of
    {data : Bytes}
    {header : LongHeader}
    (hParse : parseLongHeader data = .ok header) :
    LongHeader.Of data header := by
  unfold parseLongHeader at hParse
  rcases except_guard_eq_ok hParse with ⟨hLen, hRest⟩
  rcases except_guard_eq_ok hRest with ⟨hBits, hRest⟩
  rcases except_guard_eq_ok hRest with ⟨hVersion, hRest⟩
  rcases except_guard_eq_ok hRest with ⟨hDcid, hRest⟩
  rcases except_guard_eq_ok hRest with ⟨hFits, hRest⟩
  rcases except_guard_eq_ok hRest with ⟨hScid, hRest⟩
  cases hRest
  simp only [Bool.or_eq_true, Bool.not_eq_true', not_or,
    Bool.not_eq_false] at hBits
  have hLength :
      ((data.drop 6).take (byteAt data 5).toNat).length =
        (byteAt data 5).toNat := by
    rw [List.length_take, List.length_drop]
    omega
  exact {
    length := by omega
    long := hBits.1
    fixed := hBits.2
    version := by
      by_contra hNot
      exact hVersion (not_or.mp hNot)
    dcid := rfl
    dcid_length := hLength
    dcid_le := by
      rw [hLength]
      omega
    dcid_fits := by
      rw [hLength]
      omega
    scid_le := by
      rw [List.length_take]
      omega }

/- Where the parts of an Initial are. -/
structure Initial where
  version : Nat
  dcid : Bytes
  scid : Bytes
  tokenOffset : Nat
  tokenLen : Nat
  payloadOffset : Nat
  payloadLen : Nat
  packetNumberOffset : Nat
deriving DecidableEq, Repr

/-
  The type bits of an Initial packet, which differ between
  the two versions.
-/
def expectedInitialTypeBits
    (version : Nat) : UInt8 :=
  if version = quicV1 then 0x00
  else if version = quicV2 then 0x10
  else 0xff

/- The header of an Initial. -/
def parseInitial
    (data : Bytes) :
    Except Status Initial := do
  let header ← parseLongHeader data
  if header.typeBits ≠
      expectedInitialTypeBits header.version then
    throw .invalid
  if header.dcid.length < 8 then
    throw .invalid
  let offset := header.remainderOffset
  let (tokenLen, consumed) ← parseVarint (data.drop offset)
  let offset := offset + consumed
  if tokenLen > data.length - offset then
    throw .truncated
  let tokenOffset := offset
  let offset := offset + tokenLen
  let (payloadLen, consumed) ← parseVarint (data.drop offset)
  let offset := offset + consumed
  if payloadLen > data.length - offset then
    throw .truncated
  if payloadLen < minInitialPayloadLen then
    throw .invalid
  return {
    version := header.version
    dcid := header.dcid
    scid := header.scid
    tokenOffset, tokenLen
    payloadOffset := offset
    payloadLen
    packetNumberOffset := offset }

/- What is accepted as an Initial has a long header. -/
theorem parseInitial_hasLongBit
    {packet : Bytes}
    {initial : Initial}
    (hInitial : parseInitial packet = .ok initial) :
    hasLongBit packet = true := by
  unfold parseInitial at hInitial
  rcases except_bind_eq_ok hInitial with ⟨header, hHeader, _⟩
  exact (parseLongHeader_of hHeader).long

end Quic

end QuicSniRouter
