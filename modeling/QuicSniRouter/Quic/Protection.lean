import QuicSniRouter.Quic.Deprotection

/-
  Protection of Initial packets, as RFC 9001 section 5 has
  it, and that decryption undoes it.  The primitives are
  functions here; `Crypto.Computes` says that OpenSSL
  computes them.

  Main declarations:
    * `Primitives`
    * `Crypto.Computes`
    * `PlainInitial`
    * `PlainInitial.protect`
    * `decrypt_inverts_protect`
    * `recorded` and `recordedLibrary_computes`
-/

------------------------------------------------------------
-- Primitives
------------------------------------------------------------

namespace QuicSniRouter

open Octets

/- HKDF, the AES block and AES-GCM with its 16-byte tag. -/
structure Primitives where
  extract : (salt key : Bytes) → Bytes
  extract_length :
    ∀ salt key, (extract salt key).length = 32
  expand : (secret info : Bytes) → Nat → Bytes
  expand_length :
    ∀ secret info n, (expand secret info n).length = n
  ecb : (key block : Bytes) → Bytes
  ecb_length : ∀ key block, (ecb key block).length = 16
  gcmSeal : (key nonce aad plaintext : Bytes) → Bytes
  gcmSeal_length :
    ∀ key nonce aad plaintext,
      (gcmSeal key nonce aad plaintext).length =
        plaintext.length + 16

/-
  Calls with inputs of the right sizes succeed with the
  values of the functions, and what was sealed is opened
  under the same key, nonce and additional data.
-/
structure Crypto.Computes
    (crypto : Crypto)
    (P : Primitives) : Prop where
  extract :
    ∀ salt key, 0 < key.length →
      crypto.hkdfExtract salt key = some (P.extract salt key)
  expand :
    ∀ secret info n, n ≤ 32 →
      crypto.hkdfExpand secret info n =
        some (P.expand secret info n)
  ecb :
    ∀ key block, key.length = 16 → block.length = 16 →
      crypto.aesEcb key block = some (P.ecb key block)
  opens :
    ∀ key nonce aad plaintext,
      key.length = 16 → nonce.length = 12 →
        crypto.aesGcmOpen key nonce aad
            ((P.gcmSeal key nonce aad plaintext).take
              plaintext.length)
            ((P.gcmSeal key nonce aad plaintext).drop
              plaintext.length) =
          some plaintext

/- A label as it stands in the protocol's text. -/
def ascii
    (text : String) : Bytes :=
  text.toList.map (fun c => UInt8.ofNat c.toNat)

namespace Primitives

/-
  HKDF-Expand-Label with an empty context: the length in two
  bytes, then label and context behind a byte with their
  length.
-/
def expandLabel
    (P : Primitives)
    (secret : Bytes)
    (label : String)
    (n : Nat) : Bytes :=
  let full := ascii "tls13 " ++ ascii label
  P.expand secret
    (encode 2 n ++ (encode 1 full.length ++ full) ++
      encode 1 0) n

/- The client's keys of a version with its salt and labels. -/
def keysFrom
    (P : Primitives)
    (salt dcid : Bytes)
    (keyLabel ivLabel hpLabel : String) :
    Quic.InitialKeys :=
  let secret :=
    P.expandLabel (P.extract salt dcid) "client in" 32
  { key := P.expandLabel secret keyLabel 16
    iv := P.expandLabel secret ivLabel 12
    hp := P.expandLabel secret hpLabel 16 }

/- The keys that the version gives a client. -/
def clientKeys
    (P : Primitives)
    (version : Nat)
    (dcid : Bytes) : Quic.InitialKeys :=
  if version = quicV1 then
    P.keysFrom Quic.quicV1InitialSalt dcid
      "quic key" "quic iv" "quic hp"
  else
    P.keysFrom Quic.quicV2InitialSalt dcid
      "quicv2 key" "quicv2 iv" "quicv2 hp"

end Primitives

namespace Quic

variable {crypto : Crypto} {P : Primitives} {n version : Nat}
variable {dcid : Bytes}

theorem sized_ok
    {out : Bytes}
    (hLength : out.length = n) :
    sized n (some out) = .ok out :=
  if_pos hLength

theorem hkdfExpandLabel_eq
    (hComputes : crypto.Computes P)
    (secret : Bytes)
    {label : String}
    (hLabel : (ascii label).length ≤ 54)
    (hLe : n ≤ 32) :
    hkdfExpandLabel crypto secret (ascii label) n =
      .ok (P.expandLabel secret label n) := by
  have hText : ascii "tls13 " = [116, 108, 115, 49, 51, 32] := by
    decide
  have hShort :
      ([116, 108, 115, 49, 51, 32] ++ ascii label).length ≤
        60 := by
    rw [List.length_append]
    exact Nat.add_le_add_left hLabel 6
  unfold hkdfExpandLabel
  dsimp only
  rw [if_neg (by omega)]
  have hExpand :=
    hComputes.expand secret
      ([UInt8.ofNat (n / 256), UInt8.ofNat n,
        UInt8.ofNat
          ([116, 108, 115, 49, 51, 32] ++
            ascii label).length] ++
        ([116, 108, 115, 49, 51, 32] ++ ascii label) ++ [0])
      n hLe
  rw [hExpand]
  rw [sized_ok (P.expand_length _ _ _)]
  unfold Primitives.expandLabel
  rw [hText]
  simp [encode]

theorem asInvalid_ok
    {α : Type}
    {result : Except Status α}
    {a : α}
    (hOk : result = .ok a) :
    asInvalid result = .ok a := by
  rw [hOk]
  rfl

/- The keys of a version, from its labels as texts. -/
theorem initialClientKeys_of_keying
    (hComputes : crypto.Computes P)
    {salt : Bytes}
    {keyLabel ivLabel hpLabel : String}
    (hKeying :
      keyingForVersion version =
        .ok ⟨salt, ascii keyLabel, ascii ivLabel,
          ascii hpLabel⟩)
    (hKey : (ascii keyLabel).length ≤ 54)
    (hIv : (ascii ivLabel).length ≤ 54)
    (hHp : (ascii hpLabel).length ≤ 54)
    (hPos : 0 < dcid.length)
    (hLe : dcid.length ≤ maxQuicCidLen) :
    initialClientKeys crypto version dcid =
      .ok (P.keysFrom salt dcid keyLabel ivLabel
        hpLabel) := by
  have hExtract :
      hkdfExtract crypto salt dcid 32 =
        .ok (P.extract salt dcid) := by
    unfold hkdfExtract
    rw [hComputes.extract salt dcid hPos]
    exact sized_ok (P.extract_length _ _)
  have hClient : (ascii "client in").length ≤ 54 := by
    decide
  unfold initialClientKeys
  apply except_guard_ok (by omega)
  apply except_bind_ok hKeying
  apply asInvalid_ok
  apply except_bind_ok hExtract
  apply except_bind_ok
    (hkdfExpandLabel_eq hComputes _ hClient (Nat.le_refl 32))
  apply except_bind_ok
    (hkdfExpandLabel_eq hComputes _ hKey (by decide))
  apply except_bind_ok
    (hkdfExpandLabel_eq hComputes _ hIv (by decide))
  apply except_bind_ok
    (hkdfExpandLabel_eq hComputes _ hHp (by decide))
  rfl

/- The code derives the keys of the version. -/
theorem initialClientKeys_eq
    (hComputes : crypto.Computes P)
    (hKnown : version = quicV1 ∨ version = quicV2)
    (hPos : 0 < dcid.length)
    (hLe : dcid.length ≤ maxQuicCidLen) :
    initialClientKeys crypto version dcid =
      .ok (P.clientKeys version dcid) := by
  rcases hKnown with hKnown | hKnown
  · subst hKnown
    exact initialClientKeys_of_keying hComputes rfl
      (by decide) (by decide) (by decide) hPos hLe
  · subst hKnown
    exact initialClientKeys_of_keying hComputes rfl
      (by decide) (by decide) (by decide) hPos hLe

/-
  A packet before its protection.  The low bits of the first
  byte are two reserved bits and the length of the packet
  number less one.
-/
structure PlainInitial extends InitialHeader where
  reserved : Nat
  reserved_lt : reserved < 4
  numberLength : Nat
  numberLength_pos : 1 ≤ numberLength
  numberLength_le : numberLength ≤ 4
  number : Nat
  number_lt : number < 256 ^ numberLength
  plaintext : Bytes
  payload_sized :
    payloadLength.value =
      numberLength + (plaintext.length + 16)
  payload_ge :
    minInitialPayloadLen ≤
      numberLength + (plaintext.length + 16)
  trailing : Bytes

/- The number is padded to the size of the IV. -/
def initialNonce
    (iv : Bytes)
    (number : Nat) : Bytes :=
  xor iv (encode iv.length number)

namespace PlainInitial

/- The first byte before its protection. -/
def first
    (u : PlainInitial) : UInt8 :=
  u.firstByte (u.reserved * 4 + (u.numberLength - 1))

/- The packet number as it is written. -/
def numberBytes
    (u : PlainInitial) : Bytes :=
  encode u.numberLength u.number

/- The header with its number, the additional data. -/
def aad
    (u : PlainInitial) : Bytes :=
  u.headerWith u.first ++ u.numberBytes

/- The payload, sealed. -/
def sealed
    (u : PlainInitial)
    (P : Primitives) : Bytes :=
  let keys := P.clientKeys u.version u.dcid
  P.gcmSeal keys.key (initialNonce keys.iv u.number) u.aad
    u.plaintext

/- The mask of the sample, four bytes behind the offset. -/
def mask
    (u : PlainInitial)
    (P : Primitives) : Bytes :=
  P.ecb (P.clientKeys u.version u.dcid).hp
    (((u.aad ++ u.sealed P).drop (u.payloadOffset + 4)).take
      16)

/- The datagram with the protected packet. -/
def protect
    (u : PlainInitial)
    (P : Primitives) : Bytes :=
  u.headerWith (u.first ^^^ (byteAt (u.mask P) 0 &&& 0x0f)) ++
    (xor u.numberBytes ((u.mask P).drop 1) ++
      (u.sealed P ++ u.trailing))

end PlainInitial

------------------------------------------------------------
-- Decryption Of Protected Packets
------------------------------------------------------------

theorem packetNonce_eq
    {iv : Bytes}
    (hIv : iv.length = 12)
    {number : Nat}
    (hLt : number < 256 ^ 8) :
    packetNonce iv number = initialNonce iv number := by
  have hZero
      {n : Nat}
      (hLe : 8 ≤ n) :
      number / 256 ^ n = 0 :=
    Nat.div_eq_of_lt (Nat.lt_of_lt_of_le hLt
      (Nat.pow_le_pow_right (by decide) hLe))
  have hEight :
      encode 8 number =
        (List.range 8).map (fun i =>
          UInt8.ofNat (number / 256 ^ (7 - i))) :=
    rfl
  have hTwelve :
      encode 12 number =
        UInt8.ofNat (number / 256 ^ 11) ::
          UInt8.ofNat (number / 256 ^ 10) ::
          UInt8.ofNat (number / 256 ^ 9) ::
          UInt8.ofNat (number / 256 ^ 8) ::
          encode 8 number :=
    rfl
  unfold packetNonce initialNonce
  rw [hIv, hTwelve, hZero (by decide), hZero (by decide),
    hZero (by decide), hZero (by decide), hEight]
  rfl

/- Masking the low four bits keeps the others. -/
theorem and_masked
    (b m : UInt8)
    {k : UInt8}
    (hLow : 0x0f &&& k = 0) :
    (b ^^^ (m &&& 0x0f)) &&& k = b &&& k := by
  apply UInt8.toBitVec_inj.mp
  apply BitVec.eq_of_getLsbD_eq
  intro i _
  have hBit :=
    congrArg (fun b : UInt8 => b.toBitVec.getLsbD i) hLow
  simp only [UInt8.toBitVec_and, UInt8.toBitVec_xor,
    BitVec.getLsbD_and, BitVec.getLsbD_xor] at hBit ⊢
  cases hK : k.toBitVec.getLsbD i with
  | false => simp
  | true =>
      rw [hK, Bool.and_true] at hBit
      rw [hBit]
      simp

namespace PlainInitial

variable (u : PlainInitial)

theorem length_numberBytes :
    u.numberBytes.length = u.numberLength :=
  length_encode _ _

theorem length_sealed :
    (u.sealed P).length = u.plaintext.length + 16 :=
  P.gcmSeal_length _ _ _ _

theorem length_mask :
    (u.mask P).length = 16 :=
  P.ecb_length _ _

theorem length_masked :
    (xor u.numberBytes ((u.mask P).drop 1)).length =
      u.numberLength := by
  have hLe := u.numberLength_le
  rw [length_xor, length_numberBytes]
  rw [length_numberBytes, List.length_drop, length_mask]
  omega

/- The length of the number stands in the low two bits. -/
theorem first_numberLength :
    (u.first &&& 0x03).toNat + 1 = u.numberLength := by
  have hAll :
      ∀ t ∈ ([0x00, 0x10] : Bytes), ∀ r < 4, ∀ n < 4,
        (UInt8.ofNat (0xc0 + t.toNat + (r * 4 + n)) &&&
          0x03).toNat = n := by
    decide +kernel
  have hPos := u.numberLength_pos
  have hLe := u.numberLength_le
  have hLow :=
    hAll (expectedInitialTypeBits u.version)
      (by simpa using expectedInitialTypeBits_known u.known)
      u.reserved u.reserved_lt (u.numberLength - 1) (by omega)
  unfold first InitialHeader.firstByte
  rw [hLow]
  omega

/- The datagram is an Initial packet. -/
theorem exists_packet
    (P : Primitives) :
    ∃ p : InitialPacket,
      p.toInitialHeader = u.toInitialHeader ∧
        p.first = u.first ^^^ (byteAt (u.mask P) 0 &&& 0x0f) ∧
        p.payload =
          xor u.numberBytes ((u.mask P).drop 1) ++
            u.sealed P ∧
        p.trailing = u.trailing := by
  have hReserved := u.reserved_lt
  have hLe := u.numberLength_le
  have hType := expectedInitialTypeBits_known u.known
  have hPayload :
      (xor u.numberBytes ((u.mask P).drop 1) ++
        u.sealed P).length =
        u.numberLength + (u.plaintext.length + 16) := by
    rw [List.length_append, length_masked, length_sealed]
  rcases (firstByte_eq_iff hType).mpr
      ⟨u.reserved * 4 + (u.numberLength - 1), by omega,
        rfl⟩ with
    ⟨hLong, hFixed, hBits⟩
  rw [← and_masked _ (byteAt (u.mask P) 0) (by decide)]
    at hLong hFixed hBits
  rcases (firstByte_eq_iff hType).mp
      ⟨hLong, hFixed, hBits⟩ with
    ⟨low, hLow, hFirst⟩
  exact ⟨{
    toInitialHeader := u.toInitialHeader
    lowBits := low
    lowBits_lt := hLow
    payload :=
      xor u.numberBytes ((u.mask P).drop 1) ++ u.sealed P
    payload_sized := by rw [hPayload, u.payload_sized]
    payload_ge := by
      rw [hPayload]
      exact u.payload_ge
    trailing := u.trailing }, rfl, hFirst.symm, rfl, rfl⟩

/- The sample, from what is behind the header. -/
theorem sample_eq
    (P : Primitives)
    {number : Bytes}
    (hNumber : number.length = u.numberLength) :
    ((number ++ u.sealed P).drop 4).take 16 =
      ((u.aad ++ u.sealed P).drop (u.payloadOffset + 4)).take
        16 := by
  have hLe := u.numberLength_le
  have hDrop
      {front : Bytes}
      (hFront : front.length = u.numberLength) :
      (front ++ u.sealed P).drop 4 =
        (u.sealed P).drop (4 - u.numberLength) := by
    rw [List.drop_append, hFront,
      List.drop_eq_nil_of_le (by omega), List.nil_append]
  unfold aad
  rw [← List.drop_drop, List.append_assoc,
    List.drop_left' (u.length_headerWith _), hDrop hNumber,
    hDrop u.length_numberBytes]

end PlainInitial

/- What was sealed is opened. -/
theorem aesGcmOpen_sealed
    (hComputes : crypto.Computes P)
    {key nonce : Bytes}
    (hKey : key.length = 16)
    (hNonce : nonce.length = 12)
    (aad plaintext : Bytes) :
    aesGcmOpen crypto key nonce aad
        (P.gcmSeal key nonce aad plaintext) =
      .ok plaintext := by
  have hLength := P.gcmSeal_length key nonce aad plaintext
  unfold aesGcmOpen
  rw [if_neg (by omega), hLength, Nat.add_sub_cancel]
  dsimp only
  rw [hComputes.opens key nonce aad plaintext hKey hNonce]

theorem clientKeys_lengths
    (P : Primitives)
    (version : Nat)
    (dcid : Bytes) :
    (P.clientKeys version dcid).key.length = 16 ∧
      (P.clientKeys version dcid).iv.length = 12 ∧
      (P.clientKeys version dcid).hp.length = 16 := by
  have hFrom
      (salt : Bytes)
      (keyLabel ivLabel hpLabel : String) :
      (P.keysFrom salt dcid keyLabel ivLabel
          hpLabel).key.length = 16 ∧
        (P.keysFrom salt dcid keyLabel ivLabel
          hpLabel).iv.length = 12 ∧
        (P.keysFrom salt dcid keyLabel ivLabel
          hpLabel).hp.length = 16 :=
    ⟨P.expand_length _ _ _, P.expand_length _ _ _,
      P.expand_length _ _ _⟩
  unfold Primitives.clientKeys
  by_cases hVersion : version = quicV1
  · rw [if_pos hVersion]
    exact hFrom _ _ _ _
  · rw [if_neg hVersion]
    exact hFrom _ _ _ _

namespace PlainInitial

variable (u : PlainInitial)

/- The decryptor finds the nonce of the sealing. -/
theorem packetNonce_numberBytes
    (P : Primitives) :
    packetNonce (P.clientKeys u.version u.dcid).iv
        (beNat u.numberBytes) =
      initialNonce (P.clientKeys u.version u.dcid).iv
        u.number := by
  have hLe := u.numberLength_le
  unfold numberBytes
  rw [beNat_encode u.number_lt]
  apply packetNonce_eq (clientKeys_lengths P _ _).2.1
  exact Nat.lt_of_lt_of_le u.number_lt
    (Nat.pow_le_pow_right (by decide) (by omega))

theorem length_initialNonce
    (P : Primitives) :
    (initialNonce (P.clientKeys u.version u.dcid).iv
      u.number).length = 12 := by
  unfold initialNonce
  rw [length_xor (by simp), (clientKeys_lengths P _ _).2.1]

/- It also finds the mask and takes it off the number. -/
theorem aesEcbMask_sample
    (hComputes : crypto.Computes P)
    {number : Bytes}
    (hNumber : number.length = u.numberLength) :
    aesEcbMask crypto (P.clientKeys u.version u.dcid).hp
        (((number ++ u.sealed P).drop 4).take 16) =
      .ok (u.mask P) := by
  have hMin := u.payload_ge
  have hBlock :
      (((number ++ u.sealed P).drop 4).take 16).length =
        16 := by
    rw [List.length_take, List.length_drop,
      List.length_append, hNumber, u.length_sealed]
    exact Nat.min_eq_left (Nat.le_sub_of_add_le
      (Nat.le_trans (by decide) hMin))
  unfold aesEcbMask
  rw [hComputes.ecb _ _ (clientKeys_lengths P _ _).2.2 hBlock,
    sized_ok (P.ecb_length _ _), u.sample_eq P hNumber]
  rfl

theorem xor_masked :
    xor (xor u.numberBytes ((u.mask P).drop 1))
        ((u.mask P).drop 1) =
      u.numberBytes := by
  have hLe := u.numberLength_le
  apply xor_xor
  rw [u.length_numberBytes, List.length_drop, u.length_mask]
  omega

end PlainInitial

/- The protection is taken off. -/
theorem opened_protected
    (hComputes : crypto.Computes P)
    (u : PlainInitial)
    {p : InitialPacket}
    (hHeader : p.toInitialHeader = u.toInitialHeader)
    (hFirst :
      p.first = u.first ^^^ (byteAt (u.mask P) 0 &&& 0x0f))
    (hPayload :
      p.payload =
        xor u.numberBytes ((u.mask P).drop 1) ++ u.sealed P) :
    p.opened crypto = .ok u.plaintext := by
  have hMasked := @PlainInitial.length_masked P u
  have hKeys :=
    initialClientKeys_eq hComputes u.known
      (Nat.lt_of_lt_of_le (by decide) u.dcid_ge) u.dcid_le
  have hFirstIs :
      p.first ^^^ (byteAt (u.mask P) 0 &&& 0x0f) =
        u.first := by
    rw [hFirst, UInt8.xor_assoc, UInt8.xor_self,
      UInt8.xor_zero]
  unfold InitialPacket.opened
  rw [hHeader, hPayload]
  apply except_bind_ok hKeys
  apply except_bind_ok (u.aesEcbMask_sample hComputes hMasked)
  dsimp only
  rw [hFirstIs, u.first_numberLength,
    List.take_left' hMasked, u.xor_masked,
    u.packetNonce_numberBytes, List.drop_left' hMasked]
  exact aesGcmOpen_sealed hComputes
    (clientKeys_lengths P _ _).1 (u.length_initialNonce P)
    _ _

/-
  A datagram that carries a protected packet is parsed, and
  decrypted to what was protected.
-/
theorem decrypt_inverts_protect
    (crypto : Crypto)
    (P : Primitives)
    (hComputes : crypto.Computes P)
    (u : PlainInitial)
    (hSize : (u.protect P).length ≤ maxDatagramSize) :
    ∃ initial,
      parseInitial (u.protect P) = .ok initial ∧
        decryptInitial crypto (u.protect P) initial =
          .ok u.plaintext := by
  rcases u.exists_packet P with
    ⟨p, hHeader, hFirst, hPayload, hTrailing⟩
  have hBytes : u.protect P = p.bytes := by
    unfold PlainInitial.protect InitialPacket.bytes
    rw [hHeader, hFirst, hPayload, hTrailing,
      List.append_assoc]
  rw [hBytes] at hSize ⊢
  refine ⟨p.initial, parseInitial_bytes p, ?_⟩
  rw [decryptInitial_bytes hSize]
  exact opened_protected hComputes u hHeader hFirst hPayload

end Quic

------------------------------------------------------------
-- A Recorded Connection
------------------------------------------------------------

namespace Deployment

open Quic

/-
  The Initial of a connection to a server: the values of
  HKDF-SHA256, AES-128 and AES-128-GCM along its protection.
-/
structure Connection where
  server : UInt8
  secret : Bytes
  clientSecret : Bytes
  key : Bytes
  iv : Bytes
  hp : Bytes
  mask : Bytes
  ciphertext : Bytes
  tag : Bytes

namespace Connection

/- The id that the client has chosen. -/
def dcid
    (connection : Connection) : Bytes :=
  List.replicate 8 connection.server

/- The header up to the packet number, unprotected. -/
def header
    (connection : Connection) : Bytes :=
  [0xc0, 0, 0, 0, 1, 8] ++ connection.dcid ++
    [1, connection.server, 0, 0x40, 77]

/- A ClientHello with the server's name in it. -/
def clientHello
    (connection : Connection) : Bytes :=
  [1, 0, 0, 53, 3, 3] ++ List.replicate 32 0 ++
    [0, 0, 2, 0x13, 1, 1, 0, 0, 10, 0, 0, 0, 6, 0, 4, 0, 0,
      1, 97 + connection.server]

/- One CRYPTO frame. -/
def plaintext
    (connection : Connection) : Bytes :=
  [6, 0, 57] ++ connection.clientHello

/- The header protection sample. -/
def sample
    (connection : Connection) : Bytes :=
  (connection.ciphertext.drop 3).take 16

/- The protected Initial, padded to 1200 bytes. -/
def packet
    (connection : Connection) : Bytes :=
  connection.header.set 0
      (0xc0 ^^^ (byteAt connection.mask 0 &&& 0x0f)) ++
    [byteAt connection.mask 1] ++ connection.ciphertext ++
    connection.tag ++ List.replicate 1104 0

/- `HkdfLabel` after "tls13 ", without a context. -/
def expandInfo
    (label : Bytes)
    (outLen : UInt8) : Bytes :=
  [0, outLen, UInt8.ofNat (6 + label.length), 116, 108, 115,
    49, 51, 32] ++ label ++ [0]

/- The expansions that the key schedule makes. -/
def expand
    (connection : Connection)
    (secret info : Bytes) : Option Bytes :=
  if secret = connection.secret ∧
      -- "client in"
      info = expandInfo
        [99, 108, 105, 101, 110, 116, 32, 105, 110] 32 then
    some connection.clientSecret
  else if secret ≠ connection.clientSecret then
    none
  -- "quic key"
  else if info = expandInfo
      [113, 117, 105, 99, 32, 107, 101, 121] 16 then
    some connection.key
  -- "quic iv"
  else if info = expandInfo
      [113, 117, 105, 99, 32, 105, 118] 12 then
    some connection.iv
  -- "quic hp"
  else if info = expandInfo
      [113, 117, 105, 99, 32, 104, 112] 16 then
    some connection.hp
  else
    none

end Connection

/- The connection to server 1. -/
def connection1 : Connection where
  server := 1
  secret :=
    [243, 197, 138, 223, 24, 183, 246, 240, 30, 237, 0, 34,
     221, 218, 125, 128, 88, 160, 28, 31, 157, 50, 197, 26,
     54, 150, 30, 210, 251, 184, 126, 2]
  clientSecret :=
    [151, 207, 54, 96, 122, 124, 18, 90, 174, 147, 251, 107,
     229, 20, 73, 115, 221, 141, 182, 128, 110, 179, 178,
     169, 63, 90, 216, 10, 253, 5, 19, 167]
  key :=
    [251, 57, 161, 216, 97, 225, 233, 25, 229, 76, 0, 180,
     242, 138, 245, 70]
  iv :=
    [115, 187, 70, 190, 138, 102, 143, 147, 175, 252, 109, 69]
  hp :=
    [4, 160, 45, 184, 149, 252, 181, 93, 181, 207, 76, 172,
     104, 160, 78, 3]
  mask :=
    [46, 163, 93, 144, 118, 88, 6, 225, 101, 29, 136, 239,
     94, 104, 111, 218]
  ciphertext :=
    [150, 217, 13, 152, 53, 250, 35, 247, 159, 105, 170, 63,
     97, 57, 17, 119, 234, 212, 115, 184, 178, 187, 100, 3,
     58, 63, 114, 174, 195, 159, 193, 45, 192, 228, 193, 29,
     218, 209, 200, 201, 171, 187, 238, 49, 34, 85, 80, 204,
     215, 85, 108, 129, 232, 242, 1, 245, 207, 112, 250, 1]
  tag :=
    [116, 220, 36, 87, 141, 180, 146, 12, 47, 233, 88, 91,
     251, 232, 233, 157]

/-
  A packet of this connection and its protection.  The
  number takes one byte.
-/
structure Recorded where
  nonce : Bytes
  aad : Bytes
  plaintext : Bytes
  ciphertext : Bytes
  sized : ciphertext.length = plaintext.length
  tag : Bytes
  tag_sized : tag.length = 16
  mask : Bytes
  mask_sized : mask.length = 16

namespace Recorded

/- The header protection sample. -/
def sample
    (packet : Recorded) : Bytes :=
  (packet.ciphertext.drop 3).take 16

/- The inputs of its encryption. -/
def seals
    (key nonce aad plaintext : Bytes)
    (packet : Recorded) : Bool :=
  key == connection1.key && nonce == packet.nonce &&
    aad == packet.aad && plaintext == packet.plaintext

/- The inputs of its decryption. -/
def opens
    (key nonce aad encrypted tag : Bytes)
    (packet : Recorded) : Bool :=
  key == connection1.key && nonce == packet.nonce &&
    aad == packet.aad && encrypted == packet.ciphertext &&
    tag == packet.tag

end Recorded

/- The tag away from the recorded inputs. -/
def otherTag
    (key nonce aad : Bytes) : Bytes :=
  encode 16 (beNat (key ++ (nonce ++ aad)))

variable {packets : List Recorded}

/-
  HKDF-SHA256, AES-128 and AES-128-GCM on the inputs of
  these packets, and functions that can be evaluated on all
  other inputs.
-/
def recorded
    (packets : List Recorded) : Primitives where
  extract := fun salt key =>
    if salt = quicV1InitialSalt ∧ key = connection1.dcid then
      connection1.secret
    else
      encode 32 (beNat (salt ++ key))
  extract_length := by
    intro salt key
    split
    · rfl
    · exact length_encode _ _
  expand := fun secret info n =>
    ((connection1.expand secret info).filter
      (fun out => out.length == n)).getD
        (encode n (beNat secret + beNat info))
  expand_length := by
    intro secret info n
    cases hOut :
        (connection1.expand secret info).filter
          (fun out => out.length == n) with
    | none => exact length_encode _ _
    | some out =>
        exact eq_of_beq (Option.filter_eq_some_iff.mp hOut).2
  ecb := fun key block =>
    ((packets.find?
      (fun packet =>
        key == connection1.hp &&
          block == packet.sample)).map Recorded.mask).getD
        (encode 16 (beNat key + beNat block))
  ecb_length := by
    intro key block
    cases packets.find?
        (fun packet =>
          key == connection1.hp &&
            block == packet.sample) with
    | none => exact length_encode _ _
    | some packet => exact packet.mask_sized
  gcmSeal := fun key nonce aad plaintext =>
    ((packets.find?
      (Recorded.seals key nonce aad plaintext)).map
        (fun packet => packet.ciphertext ++ packet.tag)).getD
      (plaintext.map (· ^^^ 0x55) ++ otherTag key nonce aad)
  gcmSeal_length := by
    intro key nonce aad plaintext
    cases hFind :
        packets.find?
          (Recorded.seals key nonce aad plaintext) with
    | none => simp [otherTag]
    | some packet =>
        have hSeals := List.find?_some hFind
        simp only [Recorded.seals, Bool.and_eq_true,
          beq_iff_eq] at hSeals
        simp [hSeals.2, packet.sized, packet.tag_sized]

/- A library that computes them. -/
def recordedLibrary
    (packets : List Recorded) : Crypto where
  hkdfExtract := fun salt key =>
    some ((recorded packets).extract salt key)
  hkdfExpand := fun secret info n =>
    some ((recorded packets).expand secret info n)
  aesEcb := fun key block =>
    some ((recorded packets).ecb key block)
  aesGcmOpen := fun key nonce aad encrypted tag =>
    match packets.find?
        (Recorded.opens key nonce aad encrypted tag) with
    | some packet => some packet.plaintext
    | none =>
        if tag = otherTag key nonce aad then
          some (encrypted.map (· ^^^ 0x55))
        else
          none
  aesCtr := fun _ _ _ => none

/-
  No nonce is used for two plaintexts, and no recorded tag
  is the other one.
-/
def Recorded.Apart
    (packets : List Recorded) : Prop :=
  (∀ a ∈ packets, ∀ b ∈ packets,
    a.nonce = b.nonce → a.plaintext = b.plaintext) ∧
    ∀ a ∈ packets,
      a.tag ≠ otherTag connection1.key a.nonce a.aad

instance :
    Decidable (Recorded.Apart packets) := by
  unfold Recorded.Apart
  infer_instance

theorem recordedLibrary_opens
    {key nonce aad plaintext : Bytes}
    {packet : Recorded}
    (hApart : Recorded.Apart packets)
    (hMem : packet ∈ packets)
    (hSeals : packet.seals key nonce aad plaintext = true) :
    (recordedLibrary packets).aesGcmOpen key nonce aad
        packet.ciphertext packet.tag =
      some plaintext := by
  simp only [Recorded.seals, Bool.and_eq_true,
    beq_iff_eq] at hSeals
  rcases hSeals with ⟨⟨⟨hKey, hNonce⟩, hAad⟩, hPlain⟩
  unfold recordedLibrary
  dsimp only
  cases hFind :
      packets.find?
        (Recorded.opens key nonce aad packet.ciphertext
          packet.tag) with
  | none =>
      have hNot := List.find?_eq_none.mp hFind packet hMem
      simp [Recorded.opens, hKey, hNonce, hAad] at hNot
  | some other =>
      have hOther := List.find?_some hFind
      simp only [Recorded.opens, Bool.and_eq_true,
        beq_iff_eq] at hOther
      have hSame : other.nonce = packet.nonce :=
        hOther.1.1.1.2.symm.trans hNonce
      rw [hPlain]
      exact congrArg some
        (hApart.1 other (List.mem_of_find?_eq_some hFind)
          packet hMem hSame)

/- Elsewhere the stand-ins undo each other. -/
theorem recordedLibrary_opens_other
    (hApart : Recorded.Apart packets)
    (key nonce aad plaintext : Bytes) :
    (recordedLibrary packets).aesGcmOpen key nonce aad
        (plaintext.map (· ^^^ 0x55))
        (otherTag key nonce aad) =
      some plaintext := by
  have hUndo :
      ((fun b : UInt8 => b ^^^ 0x55) ∘ (· ^^^ 0x55)) =
        id := by
    funext b
    change b ^^^ 0x55 ^^^ 0x55 = b
    rw [UInt8.xor_assoc, UInt8.xor_self, UInt8.xor_zero]
  unfold recordedLibrary
  dsimp only
  cases hFind :
      packets.find?
        (Recorded.opens key nonce aad
          (plaintext.map (· ^^^ 0x55))
          (otherTag key nonce aad)) with
  | none => simp [hUndo]
  | some other =>
      have hOther := List.find?_some hFind
      simp only [Recorded.opens, Bool.and_eq_true,
        beq_iff_eq] at hOther
      rcases hOther with ⟨⟨⟨⟨hKey, hNonce⟩, hAad⟩, _⟩, hTag⟩
      rw [hKey, hNonce, hAad] at hTag
      exact absurd hTag.symm
        (hApart.2 other (List.mem_of_find?_eq_some hFind))

/- The recorded values are those of the library. -/
theorem recordedLibrary_computes
    (hApart : Recorded.Apart packets) :
    (recordedLibrary packets).Computes (recorded packets) where
  extract := fun _ _ _ => rfl
  expand := fun _ _ _ _ => rfl
  ecb := fun _ _ _ _ => rfl
  opens := by
    intro key nonce aad plaintext _ _
    cases hFind :
        packets.find?
          (Recorded.seals key nonce aad plaintext) with
    | none =>
        have hSealed :
            (recorded packets).gcmSeal key nonce aad
                plaintext =
              plaintext.map (· ^^^ 0x55) ++
                otherTag key nonce aad := by
          simp [recorded, hFind]
        rw [hSealed, List.take_left' (List.length_map _),
          List.drop_left' (List.length_map _)]
        exact recordedLibrary_opens_other hApart _ _ _ _
    | some packet =>
        have hSeals := List.find?_some hFind
        have hPlain : plaintext = packet.plaintext := by
          simp only [Recorded.seals, Bool.and_eq_true,
            beq_iff_eq] at hSeals
          exact hSeals.2
        have hSize :
            packet.ciphertext.length = plaintext.length := by
          rw [hPlain, packet.sized]
        have hSealed :
            (recorded packets).gcmSeal key nonce aad
                plaintext =
              packet.ciphertext ++ packet.tag := by
          simp [recorded, hFind]
        rw [hSealed, List.take_left' hSize,
          List.drop_left' hSize]
        exact recordedLibrary_opens hApart
          (List.mem_of_find?_eq_some hFind) hSeals

/- The packet of the connection, before its protection. -/
def connection1Plain : PlainInitial where
  version := quicV1
  known := Or.inl rfl
  dcid := connection1.dcid
  dcid_ge := by decide
  dcid_le := by decide
  scid := [1]
  scid_le := by decide
  tokenLength := zeroVarint
  token := []
  token_sized := rfl
  payloadLength := ⟨77, 1, by decide, by decide⟩
  reserved := 0
  reserved_lt := by decide
  numberLength := 1
  numberLength_pos := by decide
  numberLength_le := by decide
  number := 0
  number_lt := by decide
  plaintext := connection1.plaintext
  payload_sized := rfl
  payload_ge := by decide
  trailing := List.replicate 1104 0

/- The one packet of the connection. -/
def connection1Recorded : Recorded where
  nonce := connection1.iv
  aad := connection1.header ++ [0]
  plaintext := connection1.plaintext
  ciphertext := connection1.ciphertext
  sized := rfl
  tag := connection1.tag
  tag_sized := rfl
  mask := connection1.mask
  mask_sized := rfl

/- The recorded packet is opened. -/
theorem decrypt_inverts_protect_connection1 :
    ∃ initial,
      parseInitial connection1.packet = .ok initial ∧
        decryptInitial (recordedLibrary [connection1Recorded])
            connection1.packet initial =
          .ok connection1.plaintext := by
  have hPacket :
      connection1Plain.protect
          (recorded [connection1Recorded]) =
        connection1.packet := by
    decide +kernel
  have hInverts :=
    decrypt_inverts_protect
      (recordedLibrary [connection1Recorded])
      (recorded [connection1Recorded])
      (recordedLibrary_computes (by decide +kernel))
      connection1Plain (by rw [hPacket]; decide +kernel)
  rw [hPacket] at hInverts
  exact hInverts

end Deployment

end QuicSniRouter
