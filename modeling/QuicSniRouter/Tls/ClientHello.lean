import QuicSniRouter.Common

/-
  The server name of a TLS ClientHello, read by a small
  forward-only reader.  Nested length-prefixed fields get a
  child reader that ends where the field ends.

  Main declarations:
    * `Reader`
    * `validHostname`
    * `parseSniExtension`
    * `clientHelloSni`
-/

namespace QuicSniRouter

namespace Tls

/-
  A reader over the bytes at a pointer: `data i` is the byte
  `i` places behind it.  `stop` is exclusive.
-/
structure Reader where
  data : Nat → UInt8
  stop : Nat
  offset : Nat

namespace Reader

/- A reader of all the bytes. -/
def init
    (data : Nat → UInt8)
    (len : Nat) : Reader where
  data := data
  stop := len
  offset := 0

/- So many bytes are left. -/
def has
    (r : Reader)
    (n : Nat) : Bool :=
  r.offset + n ≤ r.stop

/- How many bytes are left. -/
def remaining
    (r : Reader) : Nat :=
  r.stop - r.offset

/- The next `n` bytes as a big-endian number. -/
def uint
    (r : Reader)
    (n : Nat) :
    Except Status (Nat × Reader) :=
  if r.has n then
    let value :=
      beNat ((List.range n).map
        (fun i => r.data (r.offset + i)))
    .ok (value, { r with offset := r.offset + n })
  else
    .error .truncated

/- A number of one byte. -/
def u8
    (r : Reader) :
    Except Status (Nat × Reader) :=
  r.uint 1

/- A number of two bytes. -/
def u16
    (r : Reader) :
    Except Status (Nat × Reader) :=
  r.uint 2

/- A number of three bytes. -/
def u24
    (r : Reader) :
    Except Status (Nat × Reader) :=
  r.uint 3

/- Go on without reading. -/
def skip
    (r : Reader)
    (n : Nat) :
    Except Status Reader :=
  if r.has n then
    .ok { r with offset := r.offset + n }
  else
    .error .truncated

/- A reader over the next `n` bytes of its parent. -/
def child
    (r : Reader)
    (n : Nat) : Reader where
  data := fun i => r.data (r.offset + i)
  stop := n
  offset := 0

/- Borrow the next `n` bytes: the child and the parent. -/
def subreader
    (r : Reader)
    (n : Nat) :
    Except Status (Reader × Reader) :=
  if r.has n then
    .ok (r.child n, { r with offset := r.offset + n })
  else
    .error .truncated

/-
  Borrow as many of the declared bytes as are there; the
  flag says that some are missing.
-/
def subreaderAvailable
    (r : Reader)
    (declaredLen : Nat) :
    Except Status (Reader × Bool) :=
  let childLen := min declaredLen r.remaining
  if childLen = 0 ∧ declaredLen > 0 then
    .error .truncated
  else
    .ok (r.child childLen, decide (childLen < declaredLen))

end Reader

/- `isalnum` in the C locale. -/
def isAlnum
    (c : UInt8) : Bool :=
  (0x30 ≤ c && c ≤ 0x39) || (0x41 ≤ c && c ≤ 0x5a) ||
    (0x61 ≤ c && c ≤ 0x7a)

/-
  The label loop over a hostname.  `previous` is the byte
  before the current one.
-/
def validLabels :
    Bytes → (labelLen : Nat) → (previous : UInt8) → Bool
| [], labelLen, previous =>
    decide (labelLen > 0) && decide (labelLen ≤ 63) &&
      previous != 0x2d
| c :: rest, labelLen, previous =>
    if c = 0x2e then
      if labelLen = 0 ∨ labelLen > 63 ∨ previous = 0x2d then
        false
      else
        validLabels rest 0 c
    else if !(isAlnum c || c == 0x2d) then
      false
    else if labelLen = 0 ∧ c = 0x2d then
      false
    else
      validLabels rest (labelLen + 1) c

/- A server name that may be looked up. -/
def validHostname
    (name : Bytes) : Bool :=
  if name.length = 0 ∨ name.length > maxHostnameLen ∨
      byteAt name 0 = 0x2e ∨
      byteAt name (name.length - 1) = 0x2e then
    false
  else
    validLabels name 0 0

/-
  Walk the server name list up to the first host name.  An
  entry takes at least three bytes, so `fuel` is bounded by
  the length of the list.
-/
def sniFromList :
    Nat → Reader → Except Status Bytes
| 0, _ => .error .notFound
| fuel + 1, list =>
    if list.remaining < 3 then
      .error .notFound
    else do
      let (nameType, list) ← list.u8
      let (nameLen, list) ← list.u16
      if !list.has nameLen then
        throw .truncated
      if nameType = 0 then
        let name :=
          (List.range nameLen).map
            (fun i => list.data (list.offset + i))
        if !validHostname name then
          throw .invalid
        return name
      else
        let list ← list.skip nameLen
        sniFromList fuel list

/- The name in a server name extension. -/
def parseSniExtension
    (r : Reader) :
    Except Status Bytes := do
  let (listLen, r) ← r.u16
  let (list, _) ← r.subreader listLen
  sniFromList (list.stop + 1) list

/-
  Walk the extensions up to `server_name`.  `truncated` says
  that the message goes on behind the bytes at hand.
-/
def sniFromExtensions
    (truncated : Bool) :
    Nat → Reader → Except Status Bytes
| 0, _ => .error .notFound
| fuel + 1, extensions =>
    if extensions.remaining < 4 then
      if truncated then .error .truncated
      else .error .notFound
    else do
      let (extType, extensions) ← extensions.u16
      let (extLen, extensions) ← extensions.u16
      let (extBody, extensions) ← extensions.subreader extLen
      if extType = 0 then
        parseSniExtension extBody
      else
        sniFromExtensions truncated fuel extensions

/- The optional TLS record around the handshake message. -/
def stripRecord
    (data : Nat → UInt8)
    (r : Reader) :
    Except Status Reader :=
  if r.has 5 && data 0 == 0x16 then do
    let r ← r.skip 3
    let (recordLen, r) ← r.u16
    let (record, _) ← r.subreader recordLen
    return record
  else
    .ok r

/- The ClientHello body, from the legacy version on. -/
def sniFromHello
    (helloTruncated : Bool)
    (hello : Reader) :
    Except Status Bytes := do
  let hello ← hello.skip (2 + 32)
  let (sessionIdLen, hello) ← hello.u8
  let hello ← hello.skip sessionIdLen
  let (cipherSuitesLen, hello) ← hello.u16
  if cipherSuitesLen % 2 ≠ 0 then
    throw .invalid
  let hello ← hello.skip cipherSuitesLen
  let (compressionMethodsLen, hello) ← hello.u8
  let hello ← hello.skip compressionMethodsLen
  if hello.remaining = 0 then
    throw .notFound
  let (extensionsLen, hello) ← hello.u16
  let (extensions, extensionsTruncated) ←
    hello.subreaderAvailable extensionsLen
  sniFromExtensions (helloTruncated || extensionsTruncated)
    (extensions.stop + 1) extensions

/- The server name of a hello. -/
def clientHelloSni
    (data : Nat → UInt8)
    (len : Nat) :
    Except Status Bytes := do
  if len > maxClientHelloSize then
    throw .invalid
  let r ← stripRecord data (Reader.init data len)
  if !r.has 1 then
    throw .invalid
  let (msgType, r) ← r.u8
  if msgType ≠ 1 then
    throw .invalid
  let (helloLen, r) ← r.u24
  let (hello, helloTruncated) ← r.subreaderAvailable helloLen
  sniFromHello helloTruncated hello

end Tls

end QuicSniRouter
