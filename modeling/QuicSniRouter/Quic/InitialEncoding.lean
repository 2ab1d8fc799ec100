import QuicSniRouter.Quic.Varint

/-
  Initial packets as encodings.  A packet is written from
  its fields, with any of the widths for the two lengths,
  and the parser is the inverse of writing.

  Main declarations:
    * `longHeaderBytes`
    * `InitialHeader`
    * `InitialPacket`
    * `InitialPacket.bytes`
    * `initial_parser_inverts`
-/

------------------------------------------------------------
-- Packets
------------------------------------------------------------

namespace QuicSniRouter

open Octets

namespace Quic

variable {version : Nat} {scid : Bytes}

/- A long header up to the source id. -/
def longHeaderBytes
    (first : UInt8)
    (version : Nat)
    (dcid scid : Bytes) : Bytes :=
  first :: (encode 4 version ++
    (UInt8.ofNat dcid.length :: (dcid ++
      (UInt8.ofNat scid.length :: scid))))

/-
  The fields of a header.  `payloadLength` is the encoding
  of the length of what follows the header.
-/
structure InitialHeader where
  version : Nat
  known : version = quicV1 ∨ version = quicV2
  dcid : Bytes
  dcid_ge : 8 ≤ dcid.length
  dcid_le : dcid.length ≤ maxQuicCidLen
  scid : Bytes
  scid_le : scid.length ≤ maxQuicCidLen
  tokenLength : Varint
  token : Bytes
  token_sized : tokenLength.value = token.length
  payloadLength : Varint

namespace InitialHeader

/- The long-header bit, the fixed bit and the type bits. -/
def firstByte
    (h : InitialHeader)
    (lowBits : Nat) : UInt8 :=
  UInt8.ofNat
    (0xc0 + (expectedInitialTypeBits h.version).toNat +
      lowBits)

/- What stands before the payload, behind a first byte. -/
def headerWith
    (h : InitialHeader)
    (first : UInt8) : Bytes :=
  longHeaderBytes first h.version h.dcid h.scid ++
    (h.tokenLength.bytes ++
      (h.token ++ h.payloadLength.bytes))

/- The token comes after its length. -/
def tokenOffset
    (h : InitialHeader) : Nat :=
  7 + h.dcid.length + h.scid.length + h.tokenLength.width

/- The payload comes after its length. -/
def payloadOffset
    (h : InitialHeader) : Nat :=
  h.tokenOffset + h.token.length + h.payloadLength.width

end InitialHeader

/-
  An Initial packet.  `lowBits` are the bits of the first
  byte that header protection covers, and `trailing` is what
  follows the packet in its datagram.
-/
structure InitialPacket extends InitialHeader where
  lowBits : Nat
  lowBits_lt : lowBits < 16
  payload : Bytes
  payload_sized : payloadLength.value = payload.length
  payload_ge : minInitialPayloadLen ≤ payload.length
  trailing : Bytes

namespace InitialPacket

/- The first byte, as it is sent. -/
def first
    (p : InitialPacket) : UInt8 :=
  p.firstByte p.lowBits

/- The whole packet. -/
def bytes
    (p : InitialPacket) : Bytes :=
  p.headerWith p.first ++ (p.payload ++ p.trailing)

/- What the parser is to say about the packet. -/
def initial
    (p : InitialPacket) : Initial where
  version := p.version
  dcid := p.dcid
  scid := p.scid
  tokenOffset := p.tokenOffset
  tokenLen := p.token.length
  payloadOffset := p.payloadOffset
  payloadLen := p.payload.length
  packetNumberOffset := p.payloadOffset

end InitialPacket

variable {data front rest : Bytes} {n : Nat}

theorem drop_of_append
    (hData : data = front ++ rest)
    (hLength : front.length = n) :
    data.drop n = rest := by
  rw [hData, ← hLength, List.drop_left]

theorem byteAt_of_append
    {b : UInt8}
    (hData : data = front ++ b :: rest)
    (hLength : front.length = n) :
    byteAt data n = b := by
  unfold byteAt
  rw [hData, ← hLength]
  simp

theorem toNat_ofNat_length
    {id : Bytes}
    (hLe : id.length ≤ maxQuicCidLen) :
    (UInt8.ofNat id.length).toNat = id.length := by
  rw [UInt8.toNat_ofNat']
  exact Nat.mod_eq_of_lt (Nat.lt_of_le_of_lt hLe (by decide))

theorem length_longHeaderBytes
    (first : UInt8)
    (version : Nat)
    (dcid scid : Bytes) :
    (longHeaderBytes first version dcid scid).length =
      7 + dcid.length + scid.length := by
  unfold longHeaderBytes
  simp only [List.length_cons, List.length_append,
    length_encode]
  omega

/- The fields of a long header, from their offsets. -/
theorem longHeaderBytes_fields
    {first : UInt8}
    {dcid : Bytes}
    (hData :
      data = longHeaderBytes first version dcid scid ++ rest) :
    byteAt data 0 = first ∧
      (data.drop 1).take 4 = encode 4 version ∧
      byteAt data 5 = UInt8.ofNat dcid.length ∧
      (data.drop 6).take dcid.length = dcid ∧
      byteAt data (6 + dcid.length) =
        UInt8.ofNat scid.length ∧
      (data.drop (6 + dcid.length + 1)).take scid.length =
        scid := by
  unfold longHeaderBytes at hData
  simp only [List.cons_append, List.append_assoc] at hData
  have hBehindDcid :
      data =
        (first :: (encode 4 version ++
          [UInt8.ofNat dcid.length])) ++
          (dcid ++
            (UInt8.ofNat scid.length :: (scid ++ rest))) := by
    rw [hData]
    simp
  have hBehindScid :
      data =
        (first :: (encode 4 version ++
          (UInt8.ofNat dcid.length :: dcid))) ++
          (UInt8.ofNat scid.length :: (scid ++ rest)) := by
    rw [hData]
    simp
  refine ⟨?_, ?_, ?_, ?_, ?_, ?_⟩
  · rw [hData]
    rfl
  · rw [hData, List.drop_succ_cons, List.drop_zero]
    exact List.take_left' (length_encode 4 version)
  · apply @byteAt_of_append _
      (first :: encode 4 version) _ _ _ hData
    simp
  · rw [drop_of_append hBehindDcid (by simp)]
    exact List.take_left
  · apply byteAt_of_append hBehindScid
    simp
    omega
  · rw [List.append_cons] at hBehindScid
    rw [drop_of_append hBehindScid (by simp; omega)]
    exact List.take_left

theorem parseLongHeader_bytes
    {first : UInt8}
    {dcid : Bytes}
    (hLong : first &&& 0x80 ≠ 0)
    (hFixed : first &&& 0x40 ≠ 0)
    (hKnown : version = quicV1 ∨ version = quicV2)
    (hDcid : dcid.length ≤ maxQuicCidLen)
    (hScid : scid.length ≤ maxQuicCidLen)
    (rest : Bytes) :
    parseLongHeader
        (longHeaderBytes first version dcid scid ++ rest) =
      .ok {
        version
        typeBits := first &&& 0x30
        dcid, scid
        remainderOffset :=
          7 + dcid.length + scid.length } := by
  have hLength :=
    length_longHeaderBytes first version dcid scid
  generalize hData :
    longHeaderBytes first version dcid scid ++ rest = data
  have hAll :
      data.length =
        7 + dcid.length + scid.length + rest.length := by
    rw [← hData, List.length_append, hLength]
  rcases longHeaderBytes_fields hData.symm with
    ⟨hFirst, hVersion, hDcidLen, hDcidIs, hScidLen, hScidIs⟩
  have hVersionOf : versionOf data = version := by
    unfold versionOf
    rw [hVersion]
    apply beNat_encode
    rcases hKnown with hKnown | hKnown
    · rw [hKnown]
      decide
    · rw [hKnown]
      decide
  have hDcidNat := toNat_ofNat_length hDcid
  have hScidNat := toNat_ofNat_length hScid
  unfold parseLongHeader hasLongBit hasFixedBit
  dsimp only
  rw [hFirst, hVersionOf, hDcidLen, hDcidNat, hScidLen,
    hScidNat, hDcidIs, hScidIs]
  apply except_guard_ok (by omega)
  apply except_guard_ok
  · simp [hLong, hFixed]
  apply except_guard_ok
  · rintro ⟨hNotV1, hNotV2⟩
    rcases hKnown with hKnown | hKnown
    · exact hNotV1 hKnown
    · exact hNotV2 hKnown
  apply except_guard_ok (by omega)
  apply except_guard_ok (by omega)
  apply except_guard_ok (by omega)
  rw [show 6 + dcid.length + 1 + scid.length =
    7 + dcid.length + scid.length by omega]
  rfl

theorem drop_byteAt
    (hLt : n < data.length) :
    data.drop n = byteAt data n :: data.drop (n + 1) := by
  rw [List.drop_eq_getElem_cons hLt]
  simp [byteAt, hLt]

theorem drop_take
    (data : Bytes)
    (n m : Nat) :
    data.drop n = (data.drop n).take m ++ data.drop (n + m) := by
  rw [← List.drop_drop, List.take_append_drop]

/- What the parser accepts starts with a long header. -/
theorem parseLongHeader_eq_ok
    {header : LongHeader}
    (hParse : parseLongHeader data = .ok header) :
    data =
        longHeaderBytes (byteAt data 0) header.version
            header.dcid header.scid ++
          data.drop header.remainderOffset ∧
      header.typeBits = byteAt data 0 &&& 0x30 ∧
      (header.version = quicV1 ∨ header.version = quicV2) ∧
      header.remainderOffset =
        7 + header.dcid.length + header.scid.length ∧
      header.remainderOffset ≤ data.length := by
  have hOf := parseLongHeader_of hParse
  unfold parseLongHeader at hParse
  rcases except_guard_eq_ok hParse with ⟨hLen, hRest⟩
  rcases except_guard_eq_ok hRest with ⟨_, hRest⟩
  rcases except_guard_eq_ok hRest with ⟨_, hRest⟩
  rcases except_guard_eq_ok hRest with ⟨hDcid, hRest⟩
  rcases except_guard_eq_ok hRest with ⟨hFits, hRest⟩
  rcases except_guard_eq_ok hRest with ⟨hScid, hRest⟩
  cases hRest
  have hDcidLength :
      ((data.drop 6).take (byteAt data 5).toNat).length =
        (byteAt data 5).toNat :=
    hOf.dcid_length
  generalize hD : (byteAt data 5).toNat = d at *
  generalize hS : (byteAt data (6 + d)).toNat = k at *
  have hScidLength :
      ((data.drop (6 + d + 1)).take k).length = k := by
    rw [List.length_take, List.length_drop]
    omega
  have hVersion :
      encode 4 (versionOf data) = (data.drop 1).take 4 := by
    have hFour : ((data.drop 1).take 4).length = 4 := by
      rw [List.length_take, List.length_drop]
      omega
    have hEncode := encode_value 0 ((data.drop 1).take 4)
    rw [hFour] at hEncode
    exact hEncode
  refine ⟨?_, rfl, hOf.version, ?_, by dsimp only; omega⟩
  · unfold longHeaderBytes
    rw [hVersion, hDcidLength, hScidLength, ← hD,
      UInt8.ofNat_toNat, hD, ← hS, UInt8.ofNat_toNat, hS]
    simp only [List.cons_append, List.append_assoc]
    rw [← drop_take, ← drop_byteAt (by omega), ← drop_take,
      ← drop_byteAt (by omega), ← drop_take data 1 4,
      ← drop_byteAt (by omega), List.drop_zero]
  · dsimp only
    rw [hDcidLength, hScidLength]
    omega

------------------------------------------------------------
-- Initial Packets
------------------------------------------------------------

variable {data : Bytes}

theorem expectedInitialTypeBits_known
    (hKnown : version = quicV1 ∨ version = quicV2) :
    expectedInitialTypeBits version = 0x00 ∨
      expectedInitialTypeBits version = 0x10 := by
  rcases hKnown with hKnown | hKnown
  · rw [hKnown]
    exact Or.inl rfl
  · rw [hKnown]
    exact Or.inr rfl

/- The bits above the low four, and the low four. -/
theorem firstByte_eq_iff
    {b t : UInt8}
    (hType : t = 0x00 ∨ t = 0x10) :
    (b &&& 0x80 ≠ 0 ∧ b &&& 0x40 ≠ 0 ∧ b &&& 0x30 = t) ↔
      ∃ low < 16, b = UInt8.ofNat (0xc0 + t.toNat + low) := by
  have hSplit :
      ∀ n < 256, UInt8.ofNat n &&& 0x80 ≠ 0 →
        UInt8.ofNat n &&& 0x40 ≠ 0 →
          UInt8.ofNat n =
            UInt8.ofNat
              (0xc0 + (UInt8.ofNat n &&& 0x30).toNat +
                n % 16) := by
    decide +kernel
  have hJoin :
      ∀ s ∈ ([0x00, 0x10] : Bytes), ∀ low < 16,
        UInt8.ofNat (0xc0 + s.toNat + low) &&& 0x80 ≠ 0 ∧
          UInt8.ofNat (0xc0 + s.toNat + low) &&& 0x40 ≠ 0 ∧
          UInt8.ofNat (0xc0 + s.toNat + low) &&& 0x30 =
            s := by
    decide +kernel
  constructor
  · rintro ⟨hLong, hFixed, hBits⟩
    have hByte := hSplit b.toNat b.toNat_lt
    rw [UInt8.ofNat_toNat, hBits] at hByte
    exact ⟨b.toNat % 16, Nat.mod_lt _ (by decide),
      hByte hLong hFixed⟩
  · rintro ⟨low, hLow, rfl⟩
    exact hJoin t (by simpa using hType) low hLow

theorem InitialHeader.length_headerWith
    (h : InitialHeader)
    (first : UInt8) :
    (h.headerWith first).length = h.payloadOffset := by
  unfold headerWith payloadOffset tokenOffset
  simp only [List.length_append, length_longHeaderBytes,
    Varint.length_bytes]
  omega

namespace InitialPacket

variable (p : InitialPacket)

theorem first_bits :
    p.first &&& 0x80 ≠ 0 ∧ p.first &&& 0x40 ≠ 0 ∧
      p.first &&& 0x30 = expectedInitialTypeBits p.version :=
  (firstByte_eq_iff
    (expectedInitialTypeBits_known p.known)).mpr
    ⟨p.lowBits, p.lowBits_lt, rfl⟩

theorem bytes_eq :
    p.bytes =
      longHeaderBytes p.first p.version p.dcid p.scid ++
        (p.tokenLength.bytes ++
          (p.token ++ (p.payloadLength.bytes ++
            (p.payload ++ p.trailing)))) := by
  unfold bytes InitialHeader.headerWith
  simp

theorem drop_tokenOffset :
    p.bytes.drop p.tokenOffset =
      p.token ++ (p.payloadLength.bytes ++
        (p.payload ++ p.trailing)) := by
  have hBytes := p.bytes_eq
  rw [← List.append_assoc] at hBytes
  apply drop_of_append hBytes
  rw [List.length_append, length_longHeaderBytes,
    Varint.length_bytes]
  rfl

theorem drop_payloadOffset :
    p.bytes.drop p.payloadOffset = p.payload ++ p.trailing :=
  drop_of_append rfl (p.length_headerWith p.first)

theorem length_bytes :
    p.bytes.length =
      p.payloadOffset + p.payload.length +
        p.trailing.length := by
  unfold bytes
  rw [List.length_append, p.length_headerWith,
    List.length_append]
  omega

end InitialPacket

theorem parseInitial_bytes
    (p : InitialPacket) :
    parseInitial p.bytes = .ok p.initial := by
  have hToken := p.drop_tokenOffset
  have hLength := p.length_bytes
  have hRemainder :=
    drop_of_append p.bytes_eq
      (length_longHeaderBytes p.first p.version p.dcid p.scid)
  have hLengthField :
      p.bytes.drop (p.tokenOffset + p.token.length) =
        p.payloadLength.bytes ++ (p.payload ++ p.trailing) := by
    rw [← List.drop_drop, hToken, List.drop_left]
  have hHeader :=
    parseLongHeader_bytes p.first_bits.1 p.first_bits.2.1
      p.known p.dcid_le p.scid_le
      (p.tokenLength.bytes ++
        (p.token ++ (p.payloadLength.bytes ++
          (p.payload ++ p.trailing))))
  rw [← p.bytes_eq] at hHeader
  have hOffset : p.tokenOffset + p.token.length +
      p.payloadLength.width = p.payloadOffset :=
    rfl
  unfold parseInitial
  apply except_bind_ok hHeader
  apply except_guard_ok (not_not.mpr p.first_bits.2.2)
  apply except_guard_ok (Nat.not_lt.mpr p.dcid_ge)
  dsimp only
  rw [hRemainder]
  apply except_bind_ok (parseVarint_bytes p.tokenLength _)
  dsimp only
  rw [p.token_sized]
  change (if p.token.length > p.bytes.length - p.tokenOffset
    then _ else _) = _
  apply except_guard_ok (by omega)
  change (parseVarint
    (p.bytes.drop (p.tokenOffset + p.token.length)) >>= _) = _
  rw [hLengthField]
  apply except_bind_ok (parseVarint_bytes p.payloadLength _)
  dsimp only
  rw [p.payload_sized]
  change (if p.payload.length >
      p.bytes.length - p.payloadOffset
    then _ else _) = _
  apply except_guard_ok (by omega)
  apply except_guard_ok (Nat.not_lt.mpr p.payload_ge)
  rfl

theorem LongHeader.Of.exists_lowBits
    {header : LongHeader}
    (hOf : LongHeader.Of data header)
    (hKnown : version = quicV1 ∨ version = quicV2)
    (hType :
      byteAt data 0 &&& 0x30 =
        expectedInitialTypeBits version) :
    ∃ low < 16,
      byteAt data 0 =
        UInt8.ofNat
          (0xc0 + (expectedInitialTypeBits version).toNat +
            low) := by
  have hLong := hOf.long
  have hFixed := hOf.fixed
  unfold hasLongBit at hLong
  unfold hasFixedBit at hFixed
  rw [bne_iff_ne] at hLong hFixed
  exact (firstByte_eq_iff
    (expectedInitialTypeBits_known hKnown)).mp
    ⟨hLong, hFixed, hType⟩

/- A length field that was read, and what it measures. -/
theorem sized_of_parseVarint
    {value width offset : Nat}
    (hParse :
      parseVarint (data.drop offset) = .ok (value, width))
    (hFits : ¬ value > data.length - (offset + width)) :
    ∃ (v : Varint) (content : Bytes),
      v.value = value ∧ v.width = width ∧
        content.length = value ∧
        data.drop offset =
          v.bytes ++
            (content ++ data.drop (offset + width + value)) := by
  rcases parseVarint_eq_ok hParse with
    ⟨v, rest, hDrop, hValue, hWidth⟩
  have hRest : data.drop (offset + width) = rest := by
    rw [← List.drop_drop]
    apply drop_of_append hDrop
    rw [Varint.length_bytes, hWidth]
  refine ⟨v, rest.take value, hValue, hWidth, ?_, ?_⟩
  · rw [← hRest, List.length_take, List.length_drop]
    omega
  · rw [← hRest, ← drop_take, hRest, hDrop]

/- What the parser accepts is an Initial packet. -/
theorem parseInitial_eq_ok
    {initial : Initial}
    (hParse : parseInitial data = .ok initial) :
    ∃ p : InitialPacket,
      data = p.bytes ∧ initial = p.initial := by
  unfold parseInitial at hParse
  rcases except_bind_eq_ok hParse with
    ⟨header, hHeader, hRest⟩
  rcases except_guard_eq_ok hRest with ⟨hType, hRest⟩
  rcases except_guard_eq_ok hRest with ⟨hDcid, hRest⟩
  rcases except_bind_eq_ok hRest with
    ⟨⟨tokenLen, tokenWidth⟩, hTokenLen, hRest⟩
  rcases except_guard_eq_ok hRest with ⟨hToken, hRest⟩
  rcases except_bind_eq_ok hRest with
    ⟨⟨payloadLen, payloadWidth⟩, hPayloadLen, hRest⟩
  rcases except_guard_eq_ok hRest with ⟨hPayload, hRest⟩
  rcases except_guard_eq_ok hRest with ⟨hMin, hRest⟩
  cases hRest
  have hOf := parseLongHeader_of hHeader
  rcases parseLongHeader_eq_ok hHeader with
    ⟨hData, hBits, hKnown, hOffset, _⟩
  rcases sized_of_parseVarint hTokenLen hToken with
    ⟨tokenLength, token, hTokenValue, hTokenWidth, hTokenIs,
      hTokenDrop⟩
  rcases sized_of_parseVarint hPayloadLen hPayload with
    ⟨payloadLength, payload, hPayloadValue, hPayloadWidth,
      hPayloadIs, hPayloadDrop⟩
  rw [not_not, hBits] at hType
  rcases hOf.exists_lowBits hKnown hType with
    ⟨low, hLow, hFirst⟩
  refine ⟨{
    version := header.version
    known := hKnown
    lowBits := low
    lowBits_lt := hLow
    dcid := header.dcid
    dcid_ge := Nat.le_of_not_lt hDcid
    dcid_le := hOf.dcid_le
    scid := header.scid
    scid_le := hOf.scid_le
    tokenLength, token
    token_sized := by rw [hTokenValue, hTokenIs]
    payloadLength, payload
    payload_sized := by rw [hPayloadValue, hPayloadIs]
    payload_ge := by
      rw [hPayloadIs]
      exact Nat.le_of_not_lt hMin
    trailing := data.drop
      (header.remainderOffset + tokenWidth + tokenLen +
        payloadWidth + payloadLen) }, ?_, ?_⟩
  · rw [InitialPacket.bytes_eq]
    unfold InitialPacket.first InitialHeader.firstByte
    dsimp only
    rw [← hFirst, ← hPayloadDrop, ← hTokenDrop]
    exact hData
  · unfold InitialPacket.initial InitialHeader.payloadOffset
      InitialHeader.tokenOffset
    dsimp only
    rw [← hOffset, hTokenWidth, hPayloadWidth, hTokenIs,
      hPayloadIs]

/-
  Every packet is parsed to its fields, with the token and
  the payload at their offsets, and everything that is
  accepted is a packet.
-/
theorem initial_parser_inverts :
    (∀ p : InitialPacket,
      parseInitial p.bytes = .ok p.initial ∧
        (p.bytes.drop p.initial.tokenOffset).take
          p.initial.tokenLen = p.token ∧
        (p.bytes.drop p.initial.packetNumberOffset).take
          p.initial.payloadLen = p.payload) ∧
    (∀ data initial,
      parseInitial data = .ok initial →
        (∃ p : InitialPacket,
          data = p.bytes ∧ initial = p.initial) ∧
        initial.tokenOffset + initial.tokenLen ≤ data.length ∧
        initial.packetNumberOffset + initial.payloadLen ≤
          data.length) := by
  constructor
  · intro p
    refine ⟨parseInitial_bytes p, ?_, ?_⟩
    · have hToken := p.drop_tokenOffset
      unfold InitialPacket.initial
      dsimp only
      rw [hToken, List.take_left]
    · have hPayload := p.drop_payloadOffset
      unfold InitialPacket.initial
      dsimp only
      rw [hPayload, List.take_left]
  · intro data initial hParse
    rcases parseInitial_eq_ok hParse with ⟨p, hData, hInitial⟩
    have hLength := p.length_bytes
    have hOffset : p.payloadOffset =
        p.tokenOffset + p.token.length +
          p.payloadLength.width :=
      rfl
    refine ⟨⟨p, hData, hInitial⟩, ?_, ?_⟩
    · rw [hData, hInitial]
      unfold InitialPacket.initial
      dsimp only
      omega
    · rw [hData, hInitial]
      unfold InitialPacket.initial
      dsimp only
      omega

end Quic

end QuicSniRouter
