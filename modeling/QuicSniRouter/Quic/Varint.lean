import QuicSniRouter.Quic.Frames

/-
  Variable-length integers as encodings.  A value can be
  written in each of the four widths that it fits; the
  parser reads the encodings, and nothing else.

  Main declarations:
    * `Varint`
    * `Varint.bytes`
    * `parseVarint_bytes`
    * `parseVarint_eq_ok`
-/

namespace QuicSniRouter

open Octets

namespace Quic

/- A number together with a width that holds it. -/
structure Varint where
  value : Nat
  log : Nat
  log_le : log ≤ 3
  fits : value < 2 ^ (8 * 2 ^ log - 2)

/- A varint of one byte. -/
def shortVarint
    (value : Nat)
    (hFits : value < 64) : Varint where
  value := value
  log := 0
  log_le := Nat.zero_le 3
  fits := hFits

/- Zero, in one byte. -/
def zeroVarint : Varint :=
  shortVarint 0 (by decide)

namespace Varint

/- How many bytes there are. -/
def width
    (v : Varint) : Nat :=
  2 ^ v.log

/- The width stands in the two most significant bits. -/
def bytes
    (v : Varint) : Bytes :=
  encode v.width (v.log * 2 ^ (8 * v.width - 2) + v.value)

theorem width_pos
    (v : Varint) :
    0 < v.width :=
  Nat.two_pow_pos v.log

@[simp] theorem length_bytes
    (v : Varint) :
    v.bytes.length = v.width :=
  length_encode _ _

end Varint

/- All but two bits of `n + 1` bytes. -/
theorem two_pow_bits
    (n : Nat) :
    2 ^ (8 * (n + 1) - 2) = 64 * 256 ^ n := by
  rw [show 8 * (n + 1) - 2 = 6 + 8 * n by omega,
    Nat.pow_add, Nat.pow_mul]

variable {data : Bytes}

/- What the parser reads behind the first byte. -/
theorem parseVarint_cons
    {first : UInt8}
    {tail : Bytes}
    {n : Nat}
    (hWidth : 2 ^ (first.toNat / 64) = n + 1)
    (hTail : tail.length = n)
    (rest : Bytes) :
    parseVarint (first :: (tail ++ rest)) =
      .ok (value (first.toNat % 64) tail, n + 1) := by
  have hFirst :
      byteAt (first :: (tail ++ rest)) 0 = first :=
    rfl
  unfold parseVarint
  rw [if_neg (by simp), hFirst]
  dsimp only
  rw [hWidth, if_neg (by simp [hTail]), List.take_succ_cons,
    List.drop_succ_cons, List.drop_zero,
    List.take_append_of_le_length (by omega),
    List.take_of_length_le (by omega)]
  rfl

/- The first byte has the width and the leading bits. -/
theorem Varint.bytes_eq
    (v : Varint) :
    ∃ n high low,
      v.width = n + 1 ∧ high < 64 ∧ low < 256 ^ n ∧
        v.value = high * 256 ^ n + low ∧
        v.bytes =
          UInt8.ofNat (v.log * 64 + high) ::
            encode n low := by
  rcases Nat.exists_eq_add_one.mpr v.width_pos with
    ⟨n, hWidth⟩
  have hFits := v.fits
  have hPos : 0 < 256 ^ n := Nat.pow_pos (by decide)
  have hSplit := Nat.div_add_mod' v.value (256 ^ n)
  have hLow := Nat.mod_lt v.value hPos
  unfold Varint.width at hWidth
  rw [hWidth, two_pow_bits] at hFits
  have hHigh : v.value / 256 ^ n < 64 :=
    Nat.div_lt_of_lt_mul (by rw [Nat.mul_comm]; exact hFits)
  have hNumber :
      v.log * (64 * 256 ^ n) + v.value =
        v.value % 256 ^ n +
          (v.log * 64 + v.value / 256 ^ n) * 256 ^ n := by
    nth_rewrite 1 [← hSplit]
    ring
  refine ⟨n, v.value / 256 ^ n, v.value % 256 ^ n, hWidth,
    hHigh, hLow, hSplit.symm, ?_⟩
  have hFirst :
      (v.log * (64 * 256 ^ n) + v.value) / 256 ^ n =
        v.log * 64 + v.value / 256 ^ n := by
    rw [hNumber, Nat.add_mul_div_right _ _ hPos,
      Nat.div_eq_of_lt hLow, Nat.zero_add]
  have hRest :
      (v.log * (64 * 256 ^ n) + v.value) % 256 ^ n =
        v.value % 256 ^ n % 256 ^ n := by
    rw [hNumber, Nat.add_mul_mod_self_right]
  unfold Varint.bytes Varint.width
  rw [hWidth, two_pow_bits, ← hFirst, ← encode_congr hRest]
  rfl

theorem parseVarint_bytes
    (v : Varint)
    (rest : Bytes) :
    parseVarint (v.bytes ++ rest) =
      .ok (v.value, v.width) := by
  have hLog := v.log_le
  rcases v.bytes_eq with
    ⟨n, high, low, hWidth, hHigh, hLow, hValue, hBytes⟩
  have hFirst :
      (UInt8.ofNat (v.log * 64 + high)).toNat =
        v.log * 64 + high := by
    rw [UInt8.toNat_ofNat']
    omega
  have hTop : (v.log * 64 + high) / 64 = v.log := by
    omega
  have hBits : (v.log * 64 + high) % 64 = high := by
    omega
  have hRead :=
    @parseVarint_cons (UInt8.ofNat (v.log * 64 + high))
      (encode n low) n
      (by rw [hFirst, hTop]; exact hWidth)
      (length_encode _ _) rest
  rw [hFirst, hBits, value_encode,
    Nat.mod_eq_of_lt hLow, ← hValue, ← hWidth] at hRead
  rw [hBytes]
  exact hRead

/- What the parser accepts starts with an encoding. -/
theorem parseVarint_eq_ok
    {value width : Nat}
    (hParse : parseVarint data = .ok (value, width)) :
    ∃ (v : Varint) (rest : Bytes),
      data = v.bytes ++ rest ∧ v.value = value ∧
        v.width = width := by
  cases data with
  | nil => cases hParse
  | cons first tail =>
      have hByte := first.toNat_lt
      have hFirst : byteAt (first :: tail) 0 = first := rfl
      rcases Nat.exists_eq_add_one.mpr
          (Nat.two_pow_pos (first.toNat / 64)) with
        ⟨n, hWidth⟩
      unfold parseVarint at hParse
      rw [if_neg (by simp), hFirst] at hParse
      dsimp only at hParse
      rw [hWidth] at hParse
      split at hParse
      · cases hParse
      · rename_i hLength
        rw [List.length_cons] at hLength
        have hBody : (tail.take n).length = n := by
          rw [List.length_take]
          omega
        have hValue := value_start
          (first.toNat % 64) (tail.take n)
        have hLt := value_lt (tail.take n)
        rw [hBody] at hValue hLt
        cases hParse
        refine ⟨⟨value (first.toNat % 64)
          (tail.take n), first.toNat / 64, by omega, ?_⟩,
          tail.drop n, ?_, rfl, hWidth⟩
        · rw [hWidth, two_pow_bits, hValue]
          have hBits :=
            Nat.mul_le_mul_right (256 ^ n)
              (show first.toNat % 64 + 1 ≤ 64 by omega)
          rw [Nat.succ_mul] at hBits
          omega
        · have hNumber :
              first.toNat / 64 * (64 * 256 ^ n) +
                  value (first.toNat % 64) (tail.take n) =
                value 0 (first :: tail.take n) := by
            have hAll :
                value 0 (first :: tail.take n) =
                  value (0 * 256 + first.toNat)
                    (tail.take n) :=
              rfl
            rw [hAll, hValue, Nat.zero_mul, Nat.zero_add,
              value_start first.toNat, hBody]
            nth_rewrite 3 [← Nat.div_add_mod' first.toNat 64]
            ring
          have hEncode :=
            encode_value 0 (first :: tail.take n)
          rw [List.length_cons, hBody] at hEncode
          unfold Varint.bytes Varint.width
          dsimp only
          rw [hWidth, two_pow_bits, hNumber, hEncode,
            List.cons_append, List.take_append_drop]

end Quic

end QuicSniRouter
