import Mathlib.Tactic.Common

/-
  Positions on a ring of `n` cells, as linear probing walks
  them: one step forward with wrap-around, and the number of
  forward steps from one position to another.

  Main declarations:
    * `next`
    * `dist`
    * `dist_next_left`
    * `dist_lt_of_crossing`
    * `dist_lt_of_cut`
    * `dist_lt_of_line`
-/

namespace LinearProbing

variable {n i a b c h q p l : Nat}

/- The position that follows `i` on a ring of `n` cells. -/
def next
    (n i : Nat) : Nat :=
  (i + 1) % n

/- The number of forward steps from `a` to `b`. -/
def dist
    (n a b : Nat) : Nat :=
  if a ≤ b then b - a else b + n - a

theorem next_lt
    (hPos : 0 < n)
    (i : Nat) :
    next n i < n :=
  Nat.mod_lt _ hPos

theorem next_eq
    (hi : i < n) :
    next n i = if i + 1 = n then 0 else i + 1 := by
  unfold next
  by_cases hEnd : i + 1 = n
  · rw [if_pos hEnd, hEnd, Nat.mod_self]
  · rw [if_neg hEnd]
    exact Nat.mod_eq_of_lt (by omega)

@[simp] theorem dist_self
    (n a : Nat) :
    dist n a a = 0 := by
  simp [dist]

theorem dist_lt
    (ha : a < n)
    (hb : b < n) :
    dist n a b < n := by
  unfold dist
  by_cases hLe : a ≤ b
  · rw [if_pos hLe]
    omega
  · rw [if_neg hLe]
    omega

theorem dist_inj
    (ha : a < n)
    (hb : b < n)
    (hc : c < n)
    (hEq : dist n a b = dist n a c) :
    b = c := by
  unfold dist at hEq
  by_cases hab : a ≤ b
  · by_cases hac : a ≤ c
    · rw [if_pos hab, if_pos hac] at hEq
      omega
    · rw [if_pos hab, if_neg hac] at hEq
      omega
  · by_cases hac : a ≤ c
    · rw [if_neg hab, if_pos hac] at hEq
      omega
    · rw [if_neg hab, if_neg hac] at hEq
      omega

/- A step toward another position shortens the way by one. -/
theorem dist_next_left
    (ha : a < n)
    (hb : b < n)
    (hNe : a ≠ b) :
    dist n (next n a) b + 1 = dist n a b := by
  rw [next_eq ha]
  unfold dist
  by_cases hEnd : a + 1 = n
  · rw [if_pos hEnd, if_pos (Nat.zero_le b),
      if_neg (by omega)]
    omega
  · rw [if_neg hEnd]
    by_cases hLt : a + 1 ≤ b
    · rw [if_pos hLt, if_pos (by omega)]
      omega
    · rw [if_neg hLt, if_neg (by omega)]
      omega

/- The way back to the position just left is the longest. -/
theorem dist_next_self
    (ha : a < n) :
    dist n (next n a) a + 1 = n := by
  rw [next_eq ha]
  unfold dist
  by_cases hEnd : a + 1 = n
  · rw [if_pos hEnd, if_pos (Nat.zero_le a)]
    omega
  · rw [if_neg hEnd, if_neg (by omega)]
    omega

/- Every other position is reached before the one just left. -/
theorem dist_next_lt_self
    (ha : a < n)
    (hb : b < n)
    (hNe : a ≠ b) :
    dist n (next n a) b < dist n (next n a) a := by
  have hSelf := dist_next_self ha
  have hStep := dist_next_left ha hb hNe
  have hBound := dist_lt ha hb
  omega

/-
  If the way from `h` to `p` passes `q`, but `c` meets `p`
  before `q`, then the way from `h` to `p` passes `c` too
  (or `c` is `p`).
-/
theorem dist_lt_of_crossing
    (hh : h < n)
    (hq : q < n)
    (hp : p < n)
    (hc : c < n)
    (hPath : dist n h q < dist n h p)
    (hOrder : dist n c p < dist n c q)
    (hNe : c ≠ p) :
    dist n h c < dist n h p := by
  unfold dist at *
  split_ifs at * <;> omega

/-
  Distances counted from just behind `z` grow along a way
  from `h` to `p` that does not pass `z`.
-/
theorem dist_lt_of_cut
    {z : Nat}
    (hh : h < n)
    (hq : q < n)
    (hz : z < n)
    (hCut : ¬ dist n h z < dist n h p)
    (hPath : dist n h q < dist n h p) :
    dist n (next n z) q < dist n (next n z) p := by
  rw [next_eq hz]
  unfold dist at *
  split_ifs at * <;> omega

/- Distances do not depend on where the ring is cut open. -/
theorem dist_shift
    (hl : l < n)
    (ha : a < n)
    (hb : b < n) :
    dist n a b = dist n (dist n l a) (dist n l b) := by
  unfold dist
  split_ifs <;> omega

/-
  On the line that begins at `l`, who starts at `c` and has
  not come to `i` yet meets `q` first, if they meet any `p`
  between `i` and `q`.
-/
theorem dist_lt_of_line
    (hc : c < n)
    (hl : l < n)
    (hi : i < n)
    (hp : p < n)
    (hq : q < n)
    (hLate : dist n l i ≤ dist n l p)
    (hLt : dist n l p < dist n l q)
    (hBefore : dist n c p < dist n c i) :
    dist n c q < dist n c i := by
  have hBound := dist_lt hl hq
  rw [dist_shift hl hc hp, dist_shift hl hc hi] at hBefore
  rw [dist_shift hl hc hq, dist_shift hl hc hi]
  generalize dist n l c = c' at *
  generalize dist n l i = i' at *
  generalize dist n l p = p' at *
  generalize dist n l q = q' at *
  unfold dist at *
  split_ifs at * <;> omega

/- After `k` steps from `c` one is `k` steps from `c`. -/
theorem dist_add_mod
    {k : Nat}
    (hc : c < n)
    (hk : k < n) :
    dist n c ((c + k) % n) = k := by
  unfold dist
  by_cases hWrap : c + k < n
  · rw [Nat.mod_eq_of_lt hWrap, if_pos (by omega)]
    omega
  · rw [Nat.mod_eq_sub_mod (by omega),
      Nat.mod_eq_of_lt (by omega), if_neg (by omega)]
    omega

/- Between two steps from `c` lies their difference. -/
theorem dist_between
    (c : Nat)
    (hab : a ≤ b)
    (hb : b < n) :
    dist n ((c + a) % n) ((c + b) % n) = b - a := by
  have hStep :
      (c + b) % n = ((c + a) % n + (b - a)) % n := by
    rw [Nat.mod_add_mod]
    congr 1
    omega
  rw [hStep]
  exact dist_add_mod (Nat.mod_lt _ (by omega)) (by omega)

end LinearProbing
