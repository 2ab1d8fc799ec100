import QuicSniRouter.Octets

/-
  Shared types, limits and status codes of the router, and
  the socket addresses that its tables store.

  Main declarations:
    * `Status`
    * `SockaddrStorage` and `Sockaddr`
    * `Sockaddr.equals`
    * `Sockaddr.valid`
-/

namespace QuicSniRouter

variable {α β : Type} {first : Except Status α}
variable {rest onFail : α → Except Status β} {b : β}
variable {condition : Prop} {status : Status}

/- A byte string, such as a datagram or a connection id. -/
abbrev Bytes := List UInt8

/- Comparing byte strings is comparing them as lists. -/
instance : LawfulBEq Bytes :=
  inferInstance

/- The limits of the router. -/
abbrev maxDatagramSize : Nat := 1500
abbrev maxClientHelloSize : Nat := 8192
abbrev maxRoutes : Nat := 1024
abbrev routeBuckets : Nat := 2048
abbrev maxSessionsDefault : Nat := 100000
abbrev maxHostnameLen : Nat := 255
abbrev maxAddrLen : Nat := 255
abbrev maxListenAddrLen : Nat := 64
abbrev maxQuicCidLen : Nat := 20
abbrev minLearnedCidLen : Nat := 8

/- Versions, and the least sizes of an Initial. -/
abbrev quicV1 : Nat := 0x00000001
abbrev quicV2 : Nat := 0x6b3343cf
abbrev minInitialDatagramSize : Nat := 1200
abbrev minInitialPayloadLen : Nat := 36

/- What the functions of the router return. -/
inductive Status
  | ok
  | invalid
  | truncated
  | unsupported
  | notFound
  | full
deriving DecidableEq, Repr

/- A successful sequence of steps has a successful first. -/
theorem except_bind_eq_ok
    (hBind : first >>= rest = .ok b) :
    ∃ a, first = .ok a ∧ rest a = .ok b := by
  cases first with
  | error status => cases hBind
  | ok a => exact ⟨a, rfl, hBind⟩

/- A check that was passed did not apply. -/
theorem except_guard_eq_ok
    [Decidable condition]
    {rest : Except Status β}
    (hGuard :
      (if condition then
        (throw status : Except Status α) >>= onFail
      else
        rest) = .ok b) :
    ¬ condition ∧ rest = .ok b := by
  by_cases hFails : condition
  · rw [if_pos hFails] at hGuard
    cases hGuard
  · rw [if_neg hFails] at hGuard
    exact ⟨hFails, hGuard⟩

/- Successful steps, one after the other. -/
theorem except_bind_ok
    {a : α}
    (hFirst : first = .ok a)
    (hRest : rest a = .ok b) :
    first >>= rest = .ok b := by
  rw [hFirst]
  exact hRest

/- A check that does not apply is passed. -/
theorem except_guard_ok
    [Decidable condition]
    {rest : Except Status β}
    (hNot : ¬ condition)
    (hRest : rest = .ok b) :
    (if condition then
      (throw status : Except Status α) >>= onFail
    else
      rest) = .ok b := by
  rw [if_neg hNot]
  exact hRest

/- Byte `i` of a buffer; callers stay within its bounds. -/
def byteAt
    (data : Bytes)
    (i : Nat) : UInt8 :=
  data.getD i 0

/- A big-endian number. -/
def beNat
    (data : Bytes) : Nat :=
  data.foldl (fun acc b => acc * 256 + b.toNat) 0

theorem beNat_encode
    {n v : Nat}
    (hFits : v < 256 ^ n) :
    beNat (Octets.encode n v) = v := by
  have hValue := Octets.value_encode 0 n v
  rw [Nat.zero_mul, Nat.zero_add,
    Nat.mod_eq_of_lt hFits] at hValue
  exact hValue

/- The families of an address. -/
abbrev afInet : Nat := 2
abbrev afInet6 : Nat := 10

/- The 128 bytes of a `struct sockaddr_storage`. -/
structure SockaddrStorage where
  bytes : Bytes
  size : bytes.length = 128
deriving DecidableEq

namespace SockaddrStorage

/- What `memset` leaves behind. -/
def zero : SockaddrStorage where
  bytes := List.replicate 128 0
  size := by simp

/- A zeroed storage with `bytes` copied to its front. -/
def ofBytes
    (bytes : Bytes) : SockaddrStorage where
  bytes := (bytes ++ List.replicate 128 0).take 128
  size := by simp

/- The address family, the first two bytes on Linux. -/
def ssFamily
    (addr : SockaddrStorage) : Nat :=
  (byteAt addr.bytes 0).toNat +
    256 * (byteAt addr.bytes 1).toNat

end SockaddrStorage

/- A storage together with its `socklen_t`. -/
structure Sockaddr where
  storage : SockaddrStorage
  len : Nat
deriving DecidableEq

namespace Sockaddr

variable {a b : Sockaddr}

/- A zero-filled address, as a cleared slot holds it. -/
def zero : Sockaddr where
  storage := SockaddrStorage.zero
  len := 0

/- The bytes that `memcmp` and the hashes read. -/
def bytes
    (addr : Sockaddr) : Bytes :=
  addr.storage.bytes.take addr.len

/- Equal lengths, and equal bytes up to that length. -/
def equals
    (a b : Sockaddr) : Bool :=
  a.len == b.len && a.bytes == b.bytes

/- A stored IPv4 or IPv6 address of plausible length. -/
def valid
    (addr : Sockaddr) : Bool :=
  addr.len != 0 && addr.len ≤ 128 &&
    (addr.storage.ssFamily == afInet ||
      addr.storage.ssFamily == afInet6)

theorem equals_iff :
    a.equals b = true ↔
      a.len = b.len ∧ a.bytes = b.bytes := by
  simp [equals]

@[simp] theorem equals_refl
    (a : Sockaddr) :
    a.equals a = true :=
  equals_iff.mpr ⟨rfl, rfl⟩

theorem equals_symm
    (h : a.equals b = true) :
    b.equals a = true := by
  rcases equals_iff.mp h with ⟨hLen, hBytes⟩
  exact equals_iff.mpr ⟨hLen.symm, hBytes.symm⟩

theorem equals_trans
    {c : Sockaddr}
    (hab : a.equals b = true)
    (hbc : b.equals c = true) :
    a.equals c = true := by
  rcases equals_iff.mp hab with ⟨hLen, hBytes⟩
  rcases equals_iff.mp hbc with ⟨hLen', hBytes'⟩
  exact equals_iff.mpr
    ⟨hLen.trans hLen', hBytes.trans hBytes'⟩

end Sockaddr

end QuicSniRouter
