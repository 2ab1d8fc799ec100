import QuicSniRouter.Tls.Prefix

/-
  The byte strings in which the parser finds a server name.
  The reader over memory is first replaced by a parser of
  byte strings that takes the same decisions, which also
  shows that nothing outside of the input matters; the
  strings that this parser accepts are then those of a
  grammar.

  Main declarations:
    * `Wire.clientHelloSni`
    * `clientHelloSni_wire`
    * `Grammar.Input`
    * `client_hello_grammar`
-/

------------------------------------------------------------
-- Parsing Byte Strings
------------------------------------------------------------

namespace QuicSniRouter

namespace Tls

variable {len : Nat}

namespace Wire

/- A big-endian number of `n` bytes, and what follows. -/
def uint
    (n : Nat)
    (bytes : Bytes) :
    Except Status (Nat × Bytes) :=
  if n ≤ bytes.length then
    .ok (beNat (bytes.take n), bytes.drop n)
  else
    .error .truncated

/- What is left after so many bytes. -/
def skip
    (n : Nat)
    (bytes : Bytes) :
    Except Status Bytes :=
  if n ≤ bytes.length then
    .ok (bytes.drop n)
  else
    .error .truncated

/- The next `n` bytes, and what follows. -/
def field
    (n : Nat)
    (bytes : Bytes) :
    Except Status (Bytes × Bytes) :=
  if n ≤ bytes.length then
    .ok (bytes.take n, bytes.drop n)
  else
    .error .truncated

/- At most `n` bytes; the flag says that some are missing. -/
def fieldAvailable
    (n : Nat)
    (bytes : Bytes) :
    Except Status (Bytes × Bool) :=
  if min n bytes.length = 0 ∧ n > 0 then
    .error .truncated
  else
    .ok (bytes.take n, decide (min n bytes.length < n))

/- The first host name of a list. -/
def sniFromList :
    Nat → Bytes → Except Status Bytes
| 0, _ => .error .notFound
| fuel + 1, list =>
    if list.length < 3 then
      .error .notFound
    else do
      let (nameType, list) ← uint 1 list
      let (nameLen, list) ← uint 2 list
      let (name, list) ← field nameLen list
      if nameType = 0 then
        if !validHostname name then
          throw .invalid
        return name
      else
        sniFromList fuel list

/- The name in a server name extension. -/
def parseSniExtension
    (bytes : Bytes) :
    Except Status Bytes := do
  let (listLen, bytes) ← uint 2 bytes
  let (list, _) ← field listLen bytes
  sniFromList (list.length + 1) list

/- The server name extension among extensions. -/
def sniFromExtensions
    (truncated : Bool) :
    Nat → Bytes → Except Status Bytes
| 0, _ => .error .notFound
| fuel + 1, extensions =>
    if extensions.length < 4 then
      if truncated then .error .truncated
      else .error .notFound
    else do
      let (extType, extensions) ← uint 2 extensions
      let (extLen, extensions) ← uint 2 extensions
      let (extBody, extensions) ← field extLen extensions
      if extType = 0 then
        parseSniExtension extBody
      else
        sniFromExtensions truncated fuel extensions

/- The name in a hello, after its fixed fields. -/
def sniFromHello
    (helloTruncated : Bool)
    (hello : Bytes) :
    Except Status Bytes := do
  let hello ← skip (2 + 32) hello
  let (sessionIdLen, hello) ← uint 1 hello
  let hello ← skip sessionIdLen hello
  let (cipherSuitesLen, hello) ← uint 2 hello
  if cipherSuitesLen % 2 ≠ 0 then
    throw .invalid
  let hello ← skip cipherSuitesLen hello
  let (compressionMethodsLen, hello) ← uint 1 hello
  let hello ← skip compressionMethodsLen hello
  if hello.length = 0 then
    throw .notFound
  let (extensionsLen, hello) ← uint 2 hello
  let (extensions, extensionsTruncated) ←
    fieldAvailable extensionsLen hello
  sniFromExtensions (helloTruncated || extensionsTruncated)
    (extensions.length + 1) extensions

/- The name in a handshake message. -/
def sniFromMessage
    (message : Bytes) :
    Except Status Bytes := do
  if message.length < 1 then
    throw .invalid
  let (msgType, message) ← uint 1 message
  if msgType ≠ 1 then
    throw .invalid
  let (helloLen, message) ← uint 3 message
  let (hello, helloTruncated) ←
    fieldAvailable helloLen message
  sniFromHello helloTruncated hello

/- What a record holds, if there is one. -/
def stripRecord
    (input : Bytes) :
    Except Status Bytes :=
  if 5 ≤ input.length ∧ byteAt input 0 = 0x16 then do
    let input ← skip 3 input
    let (recordLen, input) ← uint 2 input
    let (record, _) ← field recordLen input
    return record
  else
    .ok input

/- The parser over byte strings. -/
def clientHelloSni
    (input : Bytes) :
    Except Status Bytes :=
  if input.length > maxClientHelloSize then
    .error .invalid
  else
    stripRecord input >>= sniFromMessage

end Wire

namespace Reader

/- The reader is not beyond its end. -/
def Within
    (r : Reader) : Prop :=
  r.offset ≤ r.stop

/- What is left to read. -/
def rest
    (r : Reader) : Bytes :=
  (List.range r.remaining).map
    (fun i => r.data (r.offset + i))

variable {r : Reader} {n : Nat}

/- The bytes ahead are those that remain. -/
theorem rest_length
    (r : Reader) :
    r.rest.length = r.remaining := by
  simp [rest]

/- Enough bytes are there when enough are ahead. -/
theorem has_iff
    (hWithin : r.Within) :
    r.has n = true ↔ n ≤ r.rest.length := by
  unfold Within at hWithin
  rw [rest_length]
  unfold has remaining
  rw [decide_eq_true_eq]
  omega

/- A read returns the bytes ahead. -/
theorem map_ahead
    (hLe : n ≤ r.rest.length) :
    (List.range n).map (fun i => r.data (r.offset + i)) =
      r.rest.take n := by
  rw [rest_length] at hLe
  unfold rest
  rw [← List.map_take, List.take_range, Nat.min_eq_left hLe]

/- Moving on drops what was read. -/
theorem rest_advance
    (r : Reader)
    (n : Nat) :
    ({ r with offset := r.offset + n } : Reader).rest =
      r.rest.drop n := by
  apply List.ext_getElem
  · simp [rest, remaining]
    omega
  · intro i hLeft hRight
    simp [rest, Nat.add_assoc]

/- A part of the reader is a part of the bytes. -/
theorem rest_child
    (hLe : n ≤ r.rest.length) :
    (r.child n).rest = r.rest.take n := by
  rw [← map_ahead hLe]
  simp [rest, child, remaining]

/- Moving on stays within the bytes. -/
theorem within_advance
    (hWithin : r.Within)
    (hLe : n ≤ r.rest.length) :
    ({ r with offset := r.offset + n } : Reader).Within := by
  rw [rest_length] at hLe
  unfold Within remaining at *
  dsimp only
  omega

/- A part starts within its bytes. -/
theorem within_child
    (r : Reader)
    (n : Nat) :
    (r.child n).Within :=
  Nat.zero_le n

variable {β : Type} {r : Reader} {n : Nat}

/-
  A computation that goes on from a reader is one that goes
  on from the bytes ahead, if this is so after each read.
-/
theorem uint_bind
    {f : Nat × Reader → Except Status β}
    {g : Nat × Bytes → Except Status β}
    (hWithin : r.Within)
    (hNext :
      ∀ value (r' : Reader), r'.Within →
        f (value, r') = g (value, r'.rest)) :
    r.uint n >>= f = Wire.uint n r.rest >>= g := by
  unfold uint Wire.uint
  by_cases hHas : r.has n = true
  · have hLe := (has_iff hWithin).mp hHas
    rw [if_pos hHas, if_pos hLe]
    dsimp only
    rw [map_ahead hLe, ← rest_advance]
    exact hNext _ _ (within_advance hWithin hLe)
  · have hLe := fun h => hHas ((has_iff hWithin).mpr h)
    rw [if_neg hHas, if_neg hLe]
    rfl

/- Skipping, and what comes after it. -/
theorem skip_bind
    {f : Reader → Except Status β}
    {g : Bytes → Except Status β}
    (hWithin : r.Within)
    (hNext : ∀ r' : Reader, r'.Within → f r' = g r'.rest) :
    r.skip n >>= f = Wire.skip n r.rest >>= g := by
  unfold skip Wire.skip
  by_cases hHas : r.has n = true
  · have hLe := (has_iff hWithin).mp hHas
    rw [if_pos hHas, if_pos hLe, ← rest_advance]
    exact hNext _ (within_advance hWithin hLe)
  · have hLe := fun h => hHas ((has_iff hWithin).mpr h)
    rw [if_neg hHas, if_neg hLe]
    rfl

/- Reading a field, and what comes after it. -/
theorem subreader_bind
    {f : Reader × Reader → Except Status β}
    {g : Bytes × Bytes → Except Status β}
    (hWithin : r.Within)
    (hNext :
      ∀ field r' : Reader, field.Within → r'.Within →
        field.offset = 0 →
          f (field, r') = g (field.rest, r'.rest)) :
    r.subreader n >>= f = Wire.field n r.rest >>= g := by
  unfold subreader Wire.field
  by_cases hHas : r.has n = true
  · have hLe := (has_iff hWithin).mp hHas
    rw [if_pos hHas, if_pos hLe, ← rest_advance,
      ← rest_child hLe]
    exact hNext _ _ (within_child r n)
      (within_advance hWithin hLe) rfl
  · have hLe := fun h => hHas ((has_iff hWithin).mpr h)
    rw [if_neg hHas, if_neg hLe]
    rfl

/- Reading what is there of a field, likewise. -/
theorem subreaderAvailable_bind
    {f : Reader × Bool → Except Status β}
    {g : Bytes × Bool → Except Status β}
    (hNext :
      ∀ (field : Reader) (missing : Bool), field.Within →
        field.offset = 0 →
          f (field, missing) = g (field.rest, missing)) :
    r.subreaderAvailable n >>= f =
      Wire.fieldAvailable n r.rest >>= g := by
  unfold subreaderAvailable Wire.fieldAvailable
  rw [rest_length]
  dsimp only
  by_cases hNone : min n r.remaining = 0 ∧ n > 0
  · rw [if_pos hNone, if_pos hNone]
    rfl
  · have hChild :
        (r.child (min n r.remaining)).rest =
          r.rest.take n := by
      rw [rest_child (by rw [rest_length]; omega),
        ← rest_length, ← List.take_eq_take_min]
    rw [if_neg hNone, if_neg hNone, ← hChild]
    exact hNext _ _ (within_child r _) rfl

/- At its start a reader has all of its bytes ahead. -/
theorem stop_of_start
    (hStart : r.offset = 0) :
    r.stop = r.rest.length := by
  rw [rest_length]
  unfold remaining
  rw [hStart]
  rfl

end Reader

------------------------------------------------------------
-- The Parser On Byte Strings
------------------------------------------------------------

open Reader

variable {r : Reader}

/- The parsers of a list of names agree. -/
theorem sniFromList_wire
    (fuel : Nat)
    (hWithin : r.Within) :
    sniFromList fuel r = Wire.sniFromList fuel r.rest := by
  induction fuel generalizing r with
  | zero => rfl
  | succ fuel ih =>
      unfold sniFromList Wire.sniFromList
      rw [rest_length]
      by_cases hShort : r.remaining < 3
      · rw [if_pos hShort, if_pos hShort]
      · rw [if_neg hShort, if_neg hShort]
        apply uint_bind hWithin
        intro nameType a hA
        apply uint_bind hA
        intro nameLen b hB
        dsimp only
        unfold Wire.field
        by_cases hHas : b.has nameLen = true
        · have hLe := (has_iff hB).mp hHas
          rw [hHas, if_pos hLe, map_ahead hLe]
          by_cases hHost : nameType = 0
          · simp [hHost, bind, Except.bind]
          · have hNext := ih (within_advance hB hLe)
            rw [rest_advance] at hNext
            unfold Reader.skip
            simp [hHost, hHas, bind, Except.bind, hNext]
        · have hLe := fun h => hHas ((has_iff hB).mpr h)
          rw [if_neg hLe]
          simp [hHas]
          rfl

/- The parsers of a server name extension agree. -/
theorem parseSniExtension_wire
    (hWithin : r.Within) :
    parseSniExtension r = Wire.parseSniExtension r.rest := by
  unfold parseSniExtension Wire.parseSniExtension
  apply uint_bind hWithin
  intro listLen a hA
  apply subreader_bind hA
  intro list b hList hB hStart
  dsimp only
  rw [stop_of_start hStart]
  exact sniFromList_wire _ hList

/- The parsers of extensions agree. -/
theorem sniFromExtensions_wire
    (truncated : Bool)
    (fuel : Nat)
    (hWithin : r.Within) :
    sniFromExtensions truncated fuel r =
      Wire.sniFromExtensions truncated fuel r.rest := by
  induction fuel generalizing r with
  | zero => rfl
  | succ fuel ih =>
      unfold sniFromExtensions Wire.sniFromExtensions
      rw [rest_length]
      by_cases hShort : r.remaining < 4
      · rw [if_pos hShort, if_pos hShort]
      · rw [if_neg hShort, if_neg hShort]
        apply uint_bind hWithin
        intro extType a hA
        apply uint_bind hA
        intro extLen b hB
        apply subreader_bind hB
        intro extBody c hBody hC hStart
        dsimp only
        rw [parseSniExtension_wire hBody, ih hC]

/- The parsers of a hello agree. -/
theorem sniFromHello_wire
    (truncated : Bool)
    (hWithin : r.Within) :
    sniFromHello truncated r =
      Wire.sniFromHello truncated r.rest := by
  unfold sniFromHello Wire.sniFromHello
  apply skip_bind hWithin
  intro a hA
  apply uint_bind hA
  intro sessionIdLen b hB
  apply skip_bind hB
  intro c hC
  apply uint_bind hC
  intro cipherSuitesLen d hD
  dsimp only
  by_cases hOdd : cipherSuitesLen % 2 ≠ 0
  · rw [if_pos hOdd, if_pos hOdd]
    rfl
  · rw [if_neg hOdd, if_neg hOdd]
    apply skip_bind hD
    intro e hE
    apply uint_bind hE
    intro compressionMethodsLen f hF
    apply skip_bind hF
    intro g hG
    rw [rest_length]
    by_cases hNone : g.remaining = 0
    · rw [if_pos hNone, if_pos hNone]
      rfl
    · rw [if_neg hNone, if_neg hNone]
      apply uint_bind hG
      intro extensionsLen h hH
      apply subreaderAvailable_bind
      intro extensions missing hExt hStart
      dsimp only
      rw [stop_of_start hStart]
      exact sniFromExtensions_wire _ _ hExt

/- The parsers of a message agree. -/
theorem sniFromMessage_wire
    (hWithin : r.Within) :
    sniFromMessage r = Wire.sniFromMessage r.rest := by
  unfold sniFromMessage Wire.sniFromMessage
  by_cases hHas : r.has 1 = true
  · have hSome := (has_iff hWithin).mp hHas
    rw [if_neg (by simp [hHas]), if_neg (by omega)]
    apply uint_bind hWithin
    intro msgType a hA
    dsimp only
    by_cases hOther : msgType ≠ 1
    · rw [if_pos hOther, if_pos hOther]
      rfl
    · rw [if_neg hOther, if_neg hOther]
      apply uint_bind hA
      intro helloLen b hB
      apply subreaderAvailable_bind
      intro hello missing hHello hStart
      exact sniFromHello_wire missing hHello
  · have hNone : ¬ 1 ≤ r.rest.length :=
      fun h => hHas ((has_iff hWithin).mpr h)
    rw [if_pos (by simp [hHas]), if_pos (by omega)]
    rfl

/- The bytes that a caller passes by pointer and length. -/
def inputBytes
    (memory : Nat → UInt8)
    (len : Nat) : Bytes :=
  (List.range len).map memory

variable (memory : Nat → UInt8)

/- At first all of the input is ahead. -/
theorem rest_init
    (len : Nat) :
    (Reader.init memory len).rest =
      inputBytes memory len := by
  simp [Reader.rest, Reader.init, Reader.remaining,
    inputBytes]

/- The input is as long as it is said to be. -/
theorem inputBytes_length
    (len : Nat) :
    (inputBytes memory len).length = len := by
  simp [inputBytes]

/- Its bytes are those in memory. -/
theorem byteAt_inputBytes
    {i : Nat}
    (memory : Nat → UInt8)
    (hi : i < len) :
    byteAt (inputBytes memory len) i = memory i := by
  simp [byteAt, inputBytes, hi]

/- Each byte string is the input of some memory. -/
theorem inputBytes_byteAt
    (input : Bytes) :
    inputBytes (byteAt input) input.length = input := by
  unfold inputBytes byteAt
  apply List.ext_getElem
  · simp
  · intro i hLeft hRight
    simp [hRight]

/- With a record or without one. -/
theorem stripRecord_wire
    (len : Nat) :
    stripRecord memory (Reader.init memory len) >>=
        sniFromMessage =
      Wire.stripRecord (inputBytes memory len) >>=
        Wire.sniFromMessage := by
  have hInit : (Reader.init memory len).Within :=
    Nat.zero_le len
  have hLen := inputBytes_length memory len
  unfold stripRecord Wire.stripRecord
  by_cases hRecord :
      5 ≤ (inputBytes memory len).length ∧
        byteAt (inputBytes memory len) 0 = 0x16
  · have hFirst := byteAt_inputBytes memory
      (show 0 < len by omega)
    have hCond :
        ((Reader.init memory len).has 5 &&
          memory 0 == 0x16) = true := by
      rw [(has_iff hInit).mpr
        (by rw [rest_init]; exact hRecord.1), ← hFirst,
        hRecord.2]
      rfl
    rw [if_pos hCond, if_pos hRecord, ← rest_init]
    simp only [bind_assoc]
    apply skip_bind hInit
    intro a hA
    apply uint_bind hA
    intro recordLen b hB
    apply subreader_bind hB
    intro record c hBody hC hStart
    exact sniFromMessage_wire hBody
  · have hCond :
        ¬ ((Reader.init memory len).has 5 &&
          memory 0 == 0x16) = true := by
      intro hBoth
      rcases Bool.and_eq_true_iff.mp hBoth with ⟨hHas, hType⟩
      have hLong := (has_iff hInit).mp hHas
      rw [rest_init] at hLong
      refine hRecord ⟨hLong, ?_⟩
      rw [byteAt_inputBytes memory (by omega)]
      exact beq_iff_eq.mp hType
    rw [if_neg hCond, if_neg hRecord, ← rest_init]
    exact sniFromMessage_wire hInit

/- The parser of the code is the one over bytes. -/
theorem clientHelloSni_wire
    (len : Nat) :
    clientHelloSni memory len =
      Wire.clientHelloSni (inputBytes memory len) := by
  rw [clientHelloSni_eq]
  unfold Wire.clientHelloSni
  rw [inputBytes_length, stripRecord_wire]

namespace Grammar

/-
  A field with an `n`-byte length in front of it, at the
  start of a byte string.
-/
def Prefixed
    (n : Nat)
    (content bytes rest : Bytes) : Prop :=
  ∃ len : Bytes,
    len.length = n ∧ beNat len = content.length ∧
      bytes = len ++ (content ++ rest)

/-
  A server name list: entries of other types, then the host
  name.  Nothing is asked of what comes behind it.
-/
inductive NameList
    (name : Bytes) : Bytes → Prop
  | host
      {entry rest : Bytes} :
      Prefixed 2 name entry rest →
      NameList name (0 :: entry)
  | other
      {nameType : UInt8}
      {content entry rest : Bytes} :
      nameType ≠ 0 →
      Prefixed 2 content entry rest →
      NameList name rest →
      NameList name (nameType :: entry)

/- An extension with the name. -/
def ServerName
    (name data : Bytes) : Prop :=
  ∃ list rest : Bytes,
    Prefixed 2 list data rest ∧ NameList name list

/- Extensions of other types, then `server_name`. -/
inductive Extensions
    (name : Bytes) : Bytes → Prop
  | serverName
      {extType data body rest : Bytes} :
      extType.length = 2 →
      beNat extType = 0 →
      Prefixed 2 data body rest →
      ServerName name data →
      Extensions name (extType ++ body)
  | other
      {extType data body rest : Bytes} :
      extType.length = 2 →
      beNat extType ≠ 0 →
      Prefixed 2 data body rest →
      Extensions name rest →
      Extensions name (extType ++ body)

/-
  A ClientHello body up to its server name.  The extension
  area is cut off where the bytes at hand end.
-/
def Hello
    (name body : Bytes) : Prop :=
  ∃ head a sessionId b suites c methods d extLen e : Bytes,
    body = head ++ a ∧ head.length = 34 ∧
    Prefixed 1 sessionId a b ∧
    Prefixed 2 suites b c ∧ suites.length % 2 = 0 ∧
    Prefixed 1 methods c d ∧
    d = extLen ++ e ∧ extLen.length = 2 ∧
    Extensions name (e.take (beNat extLen))

/- A handshake message; its body may be cut off as well. -/
def Message
    (name message : Bytes) : Prop :=
  ∃ len body : Bytes,
    message = 1 :: (len ++ body) ∧ len.length = 3 ∧
      Hello name (body.take (beNat len))

/- A complete TLS record at the start of the input. -/
def Record
    (payload input : Bytes) : Prop :=
  ∃ version body rest : Bytes,
    input = 0x16 :: (version ++ body) ∧
      version.length = 2 ∧ Prefixed 2 payload body rest

/- A message, or a record that holds one. -/
def Input
    (name input : Bytes) : Prop :=
  if 5 ≤ input.length ∧ byteAt input 0 = 0x16 then
    ∃ payload, Record payload input ∧ Message name payload
  else
    Message name input

end Grammar

open Grammar

namespace Wire

variable {n value : Nat} {bytes content rest : Bytes}

/- What a number was read from. -/
theorem uint_ok
    (hRead : uint n bytes = .ok (value, rest)) :
    ∃ front : Bytes,
      bytes = front ++ rest ∧ front.length = n ∧
        beNat front = value := by
  unfold uint at hRead
  by_cases hLe : n ≤ bytes.length
  · rw [if_pos hLe] at hRead
    cases hRead
    exact ⟨bytes.take n, (List.take_append_drop n bytes).symm,
      List.length_take_of_le hLe, rfl⟩
  · rw [if_neg hLe] at hRead
    cases hRead

/- A number is read back. -/
theorem uint_append
    {front : Bytes}
    (rest : Bytes)
    (hLength : front.length = n) :
    uint n (front ++ rest) = .ok (beNat front, rest) := by
  subst hLength
  unfold uint
  rw [if_pos (by simp), List.take_left, List.drop_left]

/- What a byte was read from. -/
theorem byte_ok
    (hRead : uint 1 bytes = .ok (value, rest)) :
    ∃ byte : UInt8,
      bytes = byte :: rest ∧ byte.toNat = value := by
  rcases uint_ok hRead with ⟨front, rfl, hOne, rfl⟩
  rcases List.length_eq_one_iff.mp hOne with ⟨byte, rfl⟩
  exact ⟨byte, rfl, by simp [beNat]⟩

/- A byte is read back. -/
theorem byte_cons
    (byte : UInt8)
    (rest : Bytes) :
    uint 1 (byte :: rest) = .ok (byte.toNat, rest) := by
  have hRead := @uint_append 1 [byte] rest rfl
  simpa [beNat] using hRead

/- What a field was read from. -/
theorem field_ok
    (hRead : field n bytes = .ok (content, rest)) :
    bytes = content ++ rest ∧ content.length = n := by
  unfold field at hRead
  by_cases hLe : n ≤ bytes.length
  · rw [if_pos hLe] at hRead
    cases hRead
    exact ⟨(List.take_append_drop n bytes).symm,
      List.length_take_of_le hLe⟩
  · rw [if_neg hLe] at hRead
    cases hRead

/- A field is read back. -/
theorem field_append
    (content rest : Bytes) :
    field content.length (content ++ rest) =
      .ok (content, rest) := by
  unfold field
  rw [if_pos (by simp), List.take_left, List.drop_left]

/- To skip is to read a field and to drop it. -/
theorem skip_eq
    (n : Nat)
    (bytes : Bytes) :
    skip n bytes = Prod.snd <$> field n bytes := by
  unfold skip field
  by_cases hLe : n ≤ bytes.length
  · rw [if_pos hLe, if_pos hLe]
    rfl
  · rw [if_neg hLe, if_neg hLe]
    rfl

/- What was skipped. -/
theorem skip_ok
    (hSkip : skip n bytes = .ok rest) :
    ∃ content : Bytes,
      bytes = content ++ rest ∧ content.length = n := by
  rw [skip_eq] at hSkip
  cases hRead : field n bytes with
  | error status =>
      rw [hRead] at hSkip
      cases hSkip
  | ok read =>
      rw [hRead] at hSkip
      cases hSkip
      exact ⟨read.1, field_ok hRead⟩

/- A content of that length is skipped. -/
theorem skip_append
    (content rest : Bytes) :
    skip content.length (content ++ rest) = .ok rest := by
  rw [skip_eq, field_append]
  rfl

/- What is there of a field is a front of the bytes. -/
theorem fieldAvailable_ok
    {missing : Bool}
    (hRead :
      fieldAvailable n bytes = .ok (content, missing)) :
    content = bytes.take n := by
  unfold fieldAvailable at hRead
  by_cases hNone : min n bytes.length = 0 ∧ n > 0
  · rw [if_pos hNone] at hRead
    cases hRead
  · rw [if_neg hNone] at hRead
    cases hRead
    rfl

/- Unless nothing of it is there. -/
theorem fieldAvailable_take
    (hSome : bytes.take n ≠ []) :
    ∃ missing,
      fieldAvailable n bytes =
        .ok (bytes.take n, missing) := by
  have hLength := List.length_pos_iff.mpr hSome
  rw [List.length_take] at hLength
  unfold fieldAvailable
  rw [if_neg (by omega)]
  exact ⟨_, rfl⟩

end Wire

namespace Grammar.Prefixed

variable {n value : Nat} {bytes content rest a : Bytes}

/- The lengths of length, content and rest add up. -/
theorem length
    (hPrefixed : Prefixed n content bytes rest) :
    bytes.length = n + (content.length + rest.length) := by
  rcases hPrefixed with ⟨len, rfl, _, rfl⟩
  simp

/- The length is read before the content. -/
theorem uint
    (hPrefixed : Prefixed n content bytes rest) :
    Wire.uint n bytes =
      .ok (content.length, content ++ rest) := by
  rcases hPrefixed with ⟨len, hLength, hSize, rfl⟩
  rw [Wire.uint_append _ hLength, hSize]

/- A length and a field make a prefixed content. -/
theorem of_field
    (hLen : Wire.uint n bytes = .ok (value, a))
    (hField : Wire.field value a = .ok (content, rest)) :
    Prefixed n content bytes rest := by
  rcases Wire.uint_ok hLen with ⟨len, rfl, hLength, rfl⟩
  rcases Wire.field_ok hField with ⟨rfl, hSize⟩
  exact ⟨len, hLength, hSize.symm, rfl⟩

/- So do a length and what is skipped for it. -/
theorem of_skip
    (hLen : Wire.uint n bytes = .ok (value, a))
    (hSkip : Wire.skip value a = .ok rest) :
    ∃ content : Bytes,
      content.length = value ∧
        Prefixed n content bytes rest := by
  rcases Wire.uint_ok hLen with ⟨len, rfl, hLength, rfl⟩
  rcases Wire.skip_ok hSkip with ⟨content, rfl, hSize⟩
  exact ⟨content, hSize, len, hLength, hSize.symm, rfl⟩

end Grammar.Prefixed

------------------------------------------------------------
-- What The Parser Accepts
------------------------------------------------------------

namespace Wire

variable {name : Bytes} {fuel : Nat}
variable {list data area body input : Bytes}
variable {truncated : Bool}

/- An accepted list has the name. -/
theorem nameList_of_sniFromList
    (hName : sniFromList fuel list = .ok name) :
    NameList name list ∧ validHostname name = true := by
  induction fuel generalizing list with
  | zero => cases hName
  | succ fuel ih =>
      unfold sniFromList at hName
      by_cases hShort : list.length < 3
      · rw [if_pos hShort] at hName
        cases hName
      · rw [if_neg hShort] at hName
        rcases except_bind_eq_ok hName with
          ⟨⟨nameType, a⟩, hType, hName⟩
        rcases byte_ok hType with ⟨type, rfl, rfl⟩
        rcases except_bind_eq_ok hName with
          ⟨⟨nameLen, b⟩, hLen, hName⟩
        rcases except_bind_eq_ok hName with
          ⟨⟨content, c⟩, hContent, hName⟩
        have hEntry := Prefixed.of_field hLen hContent
        dsimp only at hName
        by_cases hHost : type.toNat = 0
        · rw [if_pos hHost] at hName
          rcases except_guard_eq_ok hName with ⟨hValid, hName⟩
          cases hName
          have hZero : type = 0 := UInt8.toNat_inj.mp hHost
          subst hZero
          exact ⟨.host hEntry, by simpa using hValid⟩
        · rw [if_neg hHost] at hName
          rcases ih hName with ⟨hRest, hValid⟩
          refine ⟨.other ?_ hEntry hRest, hValid⟩
          intro hZero
          exact hHost (by rw [hZero]; rfl)

/- Every entry is shorter than the list it starts. -/
theorem sniFromList_of_nameList
    (hFuel : list.length < fuel)
    (hList : NameList name list)
    (hValid : validHostname name = true) :
    sniFromList fuel list = .ok name := by
  induction hList generalizing fuel with
  | @host entry rest hEntry =>
      have hLength := hEntry.length
      cases fuel with
      | zero => omega
      | succ fuel =>
          unfold sniFromList
          rw [if_neg (by rw [List.length_cons]; omega)]
          simp [bind, Except.bind, byte_cons, hEntry.uint,
            field_append, hValid, pure, Except.pure]
  | @other nameType content entry rest hType hEntry _ ih =>
      have hLength := hEntry.length
      rw [List.length_cons] at hFuel
      cases fuel with
      | zero => omega
      | succ fuel =>
          have hOther : nameType.toNat ≠ 0 :=
            fun hZero => hType (UInt8.toNat_inj.mp hZero)
          unfold sniFromList
          rw [if_neg (by rw [List.length_cons]; omega)]
          simp only [bind, Except.bind, byte_cons,
            hEntry.uint, field_append, if_neg hOther]
          exact ih (by omega)

/- An accepted extension has the name. -/
theorem serverName_of_parseSniExtension
    (hName : parseSniExtension data = .ok name) :
    ServerName name data ∧ validHostname name = true := by
  unfold parseSniExtension at hName
  rcases except_bind_eq_ok hName with
    ⟨⟨listLen, a⟩, hLen, hName⟩
  rcases except_bind_eq_ok hName with
    ⟨⟨list, b⟩, hList, hName⟩
  rcases nameList_of_sniFromList hName with ⟨hNames, hValid⟩
  exact ⟨⟨list, b, Prefixed.of_field hLen hList, hNames⟩,
    hValid⟩

/- An extension with a valid name is accepted. -/
theorem parseSniExtension_of_serverName
    (hData : ServerName name data)
    (hValid : validHostname name = true) :
    parseSniExtension data = .ok name := by
  rcases hData with ⟨list, rest, hPrefixed, hNames⟩
  unfold parseSniExtension
  simp only [bind, Except.bind, hPrefixed.uint, field_append]
  exact sniFromList_of_nameList (by omega) hNames hValid

/- Accepted extensions have one with the name. -/
theorem extensions_of_sniFromExtensions
    (hName :
      sniFromExtensions truncated fuel area = .ok name) :
    Extensions name area ∧ validHostname name = true := by
  induction fuel generalizing area with
  | zero => cases hName
  | succ fuel ih =>
      unfold sniFromExtensions at hName
      by_cases hShort : area.length < 4
      · rw [if_pos hShort] at hName
        cases truncated with
        | true => cases hName
        | false => cases hName
      · rw [if_neg hShort] at hName
        rcases except_bind_eq_ok hName with
          ⟨⟨extType, a⟩, hType, hName⟩
        rcases uint_ok hType with ⟨type, rfl, hTwo, rfl⟩
        rcases except_bind_eq_ok hName with
          ⟨⟨extLen, b⟩, hLen, hName⟩
        rcases except_bind_eq_ok hName with
          ⟨⟨extBody, c⟩, hBody, hName⟩
        have hExt := Prefixed.of_field hLen hBody
        dsimp only at hName
        by_cases hSni : beNat type = 0
        · rw [if_pos hSni] at hName
          rcases serverName_of_parseSniExtension hName with
            ⟨hData, hValid⟩
          exact ⟨.serverName hTwo hSni hExt hData, hValid⟩
        · rw [if_neg hSni] at hName
          rcases ih hName with ⟨hRest, hValid⟩
          exact ⟨.other hTwo hSni hExt hRest, hValid⟩

/- Extensions with a valid name are accepted. -/
theorem sniFromExtensions_of_extensions
    (hFuel : area.length < fuel)
    (hArea : Extensions name area)
    (hValid : validHostname name = true) :
    sniFromExtensions truncated fuel area = .ok name := by
  induction hArea generalizing fuel with
  | @serverName extType data body rest hTwo hSni hExt hData =>
      have hLength := hExt.length
      cases fuel with
      | zero => omega
      | succ fuel =>
          unfold sniFromExtensions
          rw [if_neg (by rw [List.length_append]; omega)]
          simp only [bind, Except.bind,
            uint_append _ hTwo, hExt.uint, field_append,
            if_pos hSni]
          exact parseSniExtension_of_serverName hData hValid
  | @other extType data body rest hTwo hSni hExt _ ih =>
      have hLength := hExt.length
      rw [List.length_append] at hFuel
      cases fuel with
      | zero => omega
      | succ fuel =>
          unfold sniFromExtensions
          rw [if_neg (by rw [List.length_append]; omega)]
          simp only [bind, Except.bind,
            uint_append _ hTwo, hExt.uint, field_append,
            if_neg hSni]
          exact ih (by omega)

/- The parser gets as far as a type only in some bytes. -/
theorem extensions_ne_nil
    (hArea : Extensions name area) :
    area ≠ [] := by
  intro hNil
  cases hArea with
  | serverName hTwo hSni hExt hData =>
      rw [List.append_eq_nil_iff] at hNil
      rw [hNil.1] at hTwo
      cases hTwo
  | other hTwo hSni hExt hRest =>
      rw [List.append_eq_nil_iff] at hNil
      rw [hNil.1] at hTwo
      cases hTwo

/- An accepted hello has the name. -/
theorem hello_of_sniFromHello
    (hName : sniFromHello truncated body = .ok name) :
    Hello name body ∧ validHostname name = true := by
  unfold sniFromHello at hName
  rcases except_bind_eq_ok hName with ⟨a, hHead, hName⟩
  rcases skip_ok hHead with ⟨head, hBody, hSize⟩
  rcases except_bind_eq_ok hName with
    ⟨⟨sessionIdLen, a'⟩, hIdLen, hName⟩
  rcases except_bind_eq_ok hName with ⟨b, hId, hName⟩
  rcases Prefixed.of_skip hIdLen hId with
    ⟨sessionId, _, hSession⟩
  rcases except_bind_eq_ok hName with
    ⟨⟨cipherSuitesLen, b'⟩, hSuitesLen, hName⟩
  rcases except_guard_eq_ok hName with ⟨hEven, hName⟩
  rcases except_bind_eq_ok hName with ⟨c, hSkip, hName⟩
  rcases Prefixed.of_skip hSuitesLen hSkip with
    ⟨suites, hCount, hSuites⟩
  rcases except_bind_eq_ok hName with
    ⟨⟨compressionMethodsLen, c'⟩, hMethodsLen, hName⟩
  rcases except_bind_eq_ok hName with ⟨d, hSkip', hName⟩
  rcases Prefixed.of_skip hMethodsLen hSkip' with
    ⟨methods, _, hMethods⟩
  rcases except_guard_eq_ok hName with ⟨_, hName⟩
  rcases except_bind_eq_ok hName with
    ⟨⟨extensionsLen, e⟩, hExtLen, hName⟩
  rcases uint_ok hExtLen with ⟨extLen, hSplit, hTwo, rfl⟩
  rcases except_bind_eq_ok hName with
    ⟨⟨extensions, missing⟩, hExt, hName⟩
  rcases extensions_of_sniFromExtensions hName with
    ⟨hArea, hValid⟩
  rw [fieldAvailable_ok hExt] at hArea
  rw [← hCount] at hEven
  exact ⟨⟨head, a, sessionId, b, suites, c, methods, d,
    extLen, e, hBody, hSize, hSession, hSuites, by omega,
    hMethods, hSplit, hTwo, hArea⟩, hValid⟩

/- A hello with a valid name is accepted. -/
theorem sniFromHello_of_hello
    (hBody : Hello name body)
    (hValid : validHostname name = true) :
    sniFromHello truncated body = .ok name := by
  rcases hBody with
    ⟨head, a, sessionId, b, suites, c, methods, d, extLen,
      e, rfl, hSize, hSession, hSuites, hEven, hMethods,
      rfl, hTwo, hArea⟩
  have hHead := skip_append head a
  rw [hSize] at hHead
  have hMore : (extLen ++ e).length ≠ 0 := by
    rw [List.length_append]
    omega
  rcases fieldAvailable_take (extensions_ne_nil hArea) with
    ⟨missing, hExt⟩
  unfold sniFromHello
  simp only [bind, Except.bind, hHead, hSession.uint,
    skip_append, hSuites.uint, hMethods.uint,
    if_neg (not_not.mpr hEven), if_neg hMore,
    uint_append e hTwo, hExt]
  exact sniFromExtensions_of_extensions (by omega) hArea
    hValid

/- A hello is not empty. -/
theorem hello_ne_nil
    (hBody : Hello name body) :
    body ≠ [] := by
  rcases hBody with
    ⟨head, a, _, _, _, _, _, _, _, _, rfl, hSize, _⟩
  intro hNil
  rw [List.append_eq_nil_iff] at hNil
  rw [hNil.1] at hSize
  cases hSize

/- The messages that are accepted. -/
theorem sniFromMessage_iff
    (message : Bytes) :
    sniFromMessage message = .ok name ↔
      Message name message ∧ validHostname name = true := by
  unfold sniFromMessage
  constructor
  · intro hName
    rcases except_guard_eq_ok hName with ⟨_, hName⟩
    rcases except_bind_eq_ok hName with
      ⟨⟨msgType, a⟩, hType, hName⟩
    rcases byte_ok hType with ⟨type, rfl, rfl⟩
    rcases except_guard_eq_ok hName with ⟨hOne, hName⟩
    rcases except_bind_eq_ok hName with
      ⟨⟨helloLen, b⟩, hLen, hName⟩
    rcases uint_ok hLen with ⟨len, hSplit, hThree, rfl⟩
    rcases except_bind_eq_ok hName with
      ⟨⟨hello, missing⟩, hBody, hName⟩
    rcases hello_of_sniFromHello hName with ⟨hHello, hValid⟩
    rw [fieldAvailable_ok hBody] at hHello
    have hType : type = 1 :=
      UInt8.toNat_inj.mp (not_not.mp hOne)
    exact ⟨⟨len, b, by rw [hType, hSplit], hThree, hHello⟩,
      hValid⟩
  · rintro ⟨⟨len, body, rfl, hThree, hHello⟩, hValid⟩
    rcases fieldAvailable_take (hello_ne_nil hHello) with
      ⟨missing, hBody⟩
    rw [if_neg (by simp)]
    simp only [bind, Except.bind, byte_cons,
      uint_append body hThree, hBody]
    exact sniFromHello_of_hello hHello hValid

/- A record is removed, if the input starts as one. -/
theorem stripRecord_record
    {payload : Bytes}
    (hFirst : byteAt input 0 = 0x16)
    (hLong : 5 ≤ input.length) :
    stripRecord input = .ok payload ↔
      Record payload input := by
  unfold stripRecord
  rw [if_pos ⟨hLong, hFirst⟩]
  constructor
  · intro hStrip
    rcases except_bind_eq_ok hStrip with ⟨a, hSkip, hStrip⟩
    rcases skip_ok hSkip with ⟨head, hInput, hThree⟩
    rcases except_bind_eq_ok hStrip with
      ⟨⟨recordLen, b⟩, hLen, hStrip⟩
    rcases except_bind_eq_ok hStrip with
      ⟨⟨record, c⟩, hRecord, hStrip⟩
    cases hStrip
    cases head with
    | nil => cases hThree
    | cons type version =>
        rw [hInput] at hFirst
        have hType : type = 0x16 := hFirst
        rw [hType] at hInput
        exact ⟨version, a, c, hInput,
          by simpa using hThree,
          Prefixed.of_field hLen hRecord⟩
  · rintro ⟨version, body, rest, rfl, hTwo, hRecord⟩
    have hSkip := skip_append ((0x16 : UInt8) :: version) body
    rw [List.length_cons, hTwo, List.cons_append] at hSkip
    simp only [bind, Except.bind, hSkip, hRecord.uint,
      field_append, pure, Except.pure]

/- Longer inputs are not accepted. -/
theorem length_of_clientHelloSni
    (hName : clientHelloSni input = .ok name) :
    input.length ≤ maxClientHelloSize := by
  unfold clientHelloSni at hName
  by_contra hLong
  rw [if_pos (Nat.lt_of_not_le hLong)] at hName
  cases hName

/- The inputs that are accepted. -/
theorem clientHelloSni_iff
    (hBound : input.length ≤ maxClientHelloSize) :
    clientHelloSni input = .ok name ↔
      Input name input ∧ validHostname name = true := by
  unfold clientHelloSni Input
  rw [if_neg (by omega)]
  by_cases hRecord : 5 ≤ input.length ∧ byteAt input 0 = 0x16
  · rw [if_pos hRecord]
    constructor
    · intro hName
      rcases except_bind_eq_ok hName with
        ⟨payload, hPayload, hName⟩
      rcases (sniFromMessage_iff payload).mp hName with
        ⟨hMessage, hValid⟩
      exact ⟨⟨payload,
        (stripRecord_record hRecord.2 hRecord.1).mp hPayload,
        hMessage⟩, hValid⟩
    · rintro ⟨⟨payload, hPayload, hMessage⟩, hValid⟩
      rw [(stripRecord_record hRecord.2 hRecord.1).mpr
        hPayload]
      exact (sniFromMessage_iff payload).mpr
        ⟨hMessage, hValid⟩
  · rw [if_neg hRecord]
    unfold stripRecord
    rw [if_neg hRecord]
    exact sniFromMessage_iff input

end Wire

/- Only the bytes below the length matter. -/
theorem inputBytes_congr
    {memory memory' : Nat → UInt8}
    (hAgree : ∀ i < len, memory' i = memory i) :
    inputBytes memory' len = inputBytes memory len := by
  unfold inputBytes
  apply List.map_congr_left
  intro i hi
  exact hAgree i (List.mem_range.mp hi)

/-
  A name is returned for the inputs of the grammar and for
  no others; what lies in memory behind the input has no
  part in the result, be it a name or an error.
-/
theorem client_hello_grammar
    (memory : Nat → UInt8)
    (len : Nat)
    (hBound : len ≤ maxClientHelloSize) :
    (∀ name,
      clientHelloSni memory len = .ok name ↔
        Input name (inputBytes memory len) ∧
          validHostname name = true) ∧
    ∀ memory' : Nat → UInt8,
      (∀ i < len, memory' i = memory i) →
      clientHelloSni memory' len =
        clientHelloSni memory len := by
  constructor
  · intro name
    rw [clientHelloSni_wire]
    apply Wire.clientHelloSni_iff
    rw [inputBytes_length]
    exact hBound
  · intro memory' hAgree
    rw [clientHelloSni_wire, clientHelloSni_wire,
      inputBytes_congr hAgree]

/- A hello that is still incomplete is an input. -/
theorem partialHello_accepted :
    partialHello.length ≤ maxClientHelloSize ∧
      Input [0x61, 0x2e, 0x62]
        (inputBytes (byteAt partialHello)
          partialHello.length) := by
  have hBound :
      partialHello.length ≤ maxClientHelloSize := by
    decide
  have hName :
      clientHelloSni (byteAt partialHello)
        partialHello.length = .ok [0x61, 0x2e, 0x62] := by
    decide +kernel
  exact ⟨hBound, (((client_hello_grammar
    (byteAt partialHello) partialHello.length hBound).1
      [0x61, 0x2e, 0x62]).mp hName).1⟩

end Tls

end QuicSniRouter
