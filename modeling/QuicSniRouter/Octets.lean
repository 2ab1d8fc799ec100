import Mathlib.Tactic.Common
import Mathlib.Tactic.Ring

/-
  Byte strings as numbers, as masks and as fields: the
  big-endian encoding of a number in a given number of
  bytes, the exclusive or of two strings, and strings that
  stand behind a byte that counts them.

  Main declarations:
    * `Octets.value`
    * `Octets.encode`
    * `Octets.xor`
    * `Octets.counted`
-/

namespace Octets

variable {a b : List UInt8}

/- The number that `bytes` continue behind `start`. -/
def value
    (start : Nat)
    (bytes : List UInt8) : Nat :=
  bytes.foldl (fun acc b => acc * 256 + b.toNat) start

/- The last `n` bytes of a number, most significant first. -/
def encode :
    Nat → Nat → List UInt8
| 0, _ => []
| n + 1, v => UInt8.ofNat (v / 256 ^ n) :: encode n v

@[simp] theorem length_encode
    (n v : Nat) :
    (encode n v).length = n := by
  induction n with
  | zero => rfl
  | succ n ih => simp [encode, ih]

/- The start stands in front of all of the bytes. -/
theorem value_start
    (start : Nat)
    (bytes : List UInt8) :
    value start bytes =
      start * 256 ^ bytes.length + value 0 bytes := by
  induction bytes generalizing start with
  | nil => simp [value]
  | cons b bytes ih =>
      have hStep (s : Nat) :
          value s (b :: bytes) =
            value (s * 256 + b.toNat) bytes :=
        rfl
      rw [hStep, hStep, ih, ih (0 * 256 + b.toNat),
        List.length_cons, Nat.pow_succ]
      ring

theorem value_lt
    (bytes : List UInt8) :
    value 0 bytes < 256 ^ bytes.length := by
  induction bytes with
  | nil => decide
  | cons b bytes ih =>
      have hByte := b.toNat_lt
      have hStep :
          value 0 (b :: bytes) = value b.toNat bytes := by
        unfold value
        rw [List.foldl_cons, Nat.zero_mul, Nat.zero_add]
      rw [hStep, value_start, List.length_cons, Nat.pow_succ]
      have hMul :
          (b.toNat + 1) * 256 ^ bytes.length ≤
            256 * 256 ^ bytes.length :=
        Nat.mul_le_mul_right _ (by omega)
      rw [Nat.succ_mul] at hMul
      omega

theorem value_encode
    (start n v : Nat) :
    value start (encode n v) =
      start * 256 ^ n + v % 256 ^ n := by
  induction n generalizing start with
  | zero => simp [encode, value, Nat.mod_one]
  | succ n ih =>
      have hStep :
          value start (encode (n + 1) v) =
            value (start * 256 + v / 256 ^ n % 256)
              (encode n v) := by
        simp [value, encode]
      rw [hStep, ih, Nat.pow_succ, Nat.mod_mul]
      ring

theorem encode_congr
    {n v w : Nat}
    (hMod : v % 256 ^ n = w % 256 ^ n) :
    encode n v = encode n w := by
  induction n with
  | zero => rfl
  | succ n ih =>
      have hDigit :
          v / 256 ^ n % 256 = w / 256 ^ n % 256 := by
        rw [Nat.pow_succ] at hMod
        rw [← Nat.mod_mul_right_div_self,
          ← Nat.mod_mul_right_div_self, hMod]
      have hRest : v % 256 ^ n = w % 256 ^ n := by
        have hDvd : 256 ^ n ∣ 256 ^ (n + 1) :=
          Nat.pow_dvd_pow 256 (Nat.le_succ n)
        rw [← Nat.mod_mod_of_dvd v hDvd, hMod,
          Nat.mod_mod_of_dvd w hDvd]
      have hByte :
          UInt8.ofNat (v / 256 ^ n) =
            UInt8.ofNat (w / 256 ^ n) := by
        apply UInt8.toNat_inj.mp
        simpa using hDigit
      unfold encode
      rw [hByte, ih hRest]

/- Bytes are the encoding of the number they spell. -/
theorem encode_value
    (start : Nat)
    (bytes : List UInt8) :
    encode bytes.length (value start bytes) = bytes := by
  induction bytes generalizing start with
  | nil => rfl
  | cons b bytes ih =>
      have hStep :
          value start (b :: bytes) =
            value (start * 256 + b.toNat) bytes :=
        rfl
      have hFirst :
          value (start * 256 + b.toNat) bytes /
              256 ^ bytes.length =
            start * 256 + b.toNat := by
        rw [value_start, Nat.add_comm,
          Nat.add_mul_div_right _ _ (Nat.pow_pos (by decide)),
          Nat.div_eq_of_lt (value_lt bytes), Nat.zero_add]
      have hByte :
          UInt8.ofNat (start * 256 + b.toNat) = b := by
        apply UInt8.toNat_inj.mp
        have hLt := b.toNat_lt
        rw [UInt8.toNat_ofNat']
        omega
      rw [hStep, List.length_cons]
      unfold encode
      rw [hFirst, hByte, ih]

/- Bytes under a mask; the shorter string counts. -/
def xor
    (a b : List UInt8) : List UInt8 :=
  List.zipWith (· ^^^ ·) a b

theorem length_xor
    (hLe : a.length ≤ b.length) :
    (xor a b).length = a.length := by
  simp [xor, hLe]

/- A mask that is applied twice is removed. -/
theorem xor_xor
    (hLe : a.length ≤ b.length) :
    xor (xor a b) b = a := by
  induction a generalizing b with
  | nil => rfl
  | cons x a ih =>
      cases b with
      | nil => simp at hLe
      | cons y b =>
          have hTail : xor (xor a b) b = a :=
            ih (Nat.le_of_succ_le_succ hLe)
          have hHead : x ^^^ y ^^^ y = x := by
            rw [UInt8.xor_assoc, UInt8.xor_self,
              UInt8.xor_zero]
          have hCons :
              xor (xor (x :: a) (y :: b)) (y :: b) =
                (x ^^^ y ^^^ y) :: xor (xor a b) b :=
            rfl
          rw [hCons, hHead, hTail]

/- A string behind one byte with its length. -/
def counted
    (bytes : List UInt8) : List UInt8 :=
  UInt8.ofNat bytes.length :: bytes

@[simp] theorem length_counted
    (bytes : List UInt8) :
    (counted bytes).length = bytes.length + 1 :=
  rfl

/- A counted string ends where its first byte says. -/
theorem counted_append_inj
    {restA restB : List UInt8}
    (hA : a.length < 256)
    (hB : b.length < 256)
    (hEq : counted a ++ restA = counted b ++ restB) :
    a = b ∧ restA = restB := by
  rcases List.cons.inj hEq with ⟨hCount, hRest⟩
  have hLength : a.length = b.length := by
    have hNat := congrArg UInt8.toNat hCount
    rw [UInt8.toNat_ofNat', UInt8.toNat_ofNat',
      Nat.mod_eq_of_lt hA, Nat.mod_eq_of_lt hB] at hNat
    exact hNat
  exact List.append_inj hRest hLength

end Octets
