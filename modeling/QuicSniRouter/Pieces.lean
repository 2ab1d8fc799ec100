import Mathlib.Tactic.Common

/-
  Cutting a list into pieces of one size, of which only the
  last may be shorter.  Such pieces are recovered from their
  concatenation.

  Main declarations:
    * `Pieces.Uniform`
    * `Pieces.cut`
    * `Pieces.cut_eq_iff`
-/

namespace Pieces

variable {α : Type} {pieces : List (List α)} {xs : List α}
variable {rounds : Nat}

/- Nonempty pieces, all but the last of the given size. -/
inductive Uniform
    (size : Nat) :
    List (List α) → Prop
  | last
      (piece : List α)
      (hPos : 0 < piece.length)
      (hLe : piece.length ≤ size) :
      Uniform size [piece]
  | more
      {pieces : List (List α)}
      (piece : List α)
      (hPos : 0 < piece.length)
      (hSize : piece.length = size)
      (hRest : Uniform size pieces) :
      Uniform size (piece :: pieces)

theorem Uniform.bounds
    {size : Nat}
    (hUniform : Uniform size pieces) :
    ∀ piece ∈ pieces,
      0 < piece.length ∧ piece.length ≤ size := by
  induction hUniform with
  | last piece hPos hLe =>
      intro other hOther
      rw [List.mem_singleton.mp hOther]
      exact ⟨hPos, hLe⟩
  | more piece hPos hSize _ ih =>
      intro other hOther
      rcases List.mem_cons.mp hOther with hEq | hIn
      · rw [hEq]
        exact ⟨hPos, Nat.le_of_eq hSize⟩
      · exact ih other hIn

theorem Uniform.ne_nil
    {size : Nat}
    (hUniform : Uniform size pieces) :
    pieces ≠ [] := by
  cases hUniform with
  | last => exact List.cons_ne_nil _ _
  | more => exact List.cons_ne_nil _ _

variable {size : Nat}

/- The pieces of a list, in at most so many rounds. -/
def cut
    (size : Nat) :
    Nat → List α → List (List α)
| 0, _ => []
| _ + 1, [] => []
| rounds + 1, x :: xs =>
    (x :: xs).take size ::
      cut size rounds ((x :: xs).drop size)

@[simp] theorem cut_nil
    (rounds : Nat) :
    cut size rounds ([] : List α) = [] := by
  cases rounds with
  | zero => rfl
  | succ rounds => rfl

theorem cut_of_ne_nil
    (rounds : Nat)
    (hNe : xs ≠ []) :
    cut size (rounds + 1) xs =
      xs.take size :: cut size rounds (xs.drop size) := by
  cases xs with
  | nil => exact absurd rfl hNe
  | cons x xs => rfl

theorem flatten_cut
    (hSize : 0 < size)
    (hRounds : xs.length ≤ rounds) :
    (cut size rounds xs).flatten = xs := by
  induction rounds generalizing xs with
  | zero =>
      rw [List.length_eq_zero_iff.mp (Nat.le_zero.mp hRounds)]
      rfl
  | succ rounds ih =>
      cases xs with
      | nil => rfl
      | cons x xs =>
          have hRest :
              ((x :: xs).drop size).length ≤ rounds := by
            rw [List.length_drop]
            omega
          rw [cut, List.flatten_cons, ih hRest,
            List.take_append_drop]

theorem cut_uniform
    (hSize : 0 < size)
    (hNe : xs ≠ [])
    (hRounds : xs.length ≤ rounds) :
    Uniform size (cut size rounds xs) := by
  have hLength := List.length_pos_iff.mpr hNe
  induction rounds generalizing xs with
  | zero => omega
  | succ rounds ih =>
      rw [cut_of_ne_nil rounds hNe]
      have hPos : 0 < (xs.take size).length := by
        rw [List.length_take]
        omega
      by_cases hLast : xs.length ≤ size
      · -- Nothing is left behind the first piece.
        rw [List.drop_of_length_le hLast, cut_nil]
        refine Uniform.last _ hPos ?_
        rw [List.length_take]
        omega
      · have hDrop : 0 < (xs.drop size).length := by
          rw [List.length_drop]
          omega
        refine Uniform.more _ hPos ?_
          (ih (List.ne_nil_of_length_pos hDrop) ?_ hDrop)
        · rw [List.length_take]
          omega
        · rw [List.length_drop]
          omega

theorem Uniform.cut_flatten
    (hUniform : Uniform size pieces)
    (hRounds : pieces.flatten.length ≤ rounds) :
    cut size rounds pieces.flatten = pieces := by
  induction hUniform generalizing rounds with
  | last piece hPos hLe =>
      rw [List.flatten_singleton] at hRounds ⊢
      cases rounds with
      | zero => omega
      | succ rounds =>
          rw [cut_of_ne_nil rounds
              (List.ne_nil_of_length_pos hPos),
            List.take_of_length_le hLe,
            List.drop_of_length_le hLe, cut_nil]
  | more piece hPos hSize _ ih =>
      rw [List.flatten_cons, List.length_append] at hRounds
      rw [List.flatten_cons]
      cases rounds with
      | zero => omega
      | succ rounds =>
          have hNe :=
            List.append_ne_nil_of_left_ne_nil
              (List.ne_nil_of_length_pos hPos)
          rw [cut_of_ne_nil rounds (hNe _),
            List.take_left' hSize, List.drop_left' hSize,
            ih (by omega)]

/- Cutting is the inverse of concatenation. -/
theorem cut_eq_iff
    (hSize : 0 < size)
    (hNe : xs ≠ [])
    (hRounds : xs.length ≤ rounds) :
    cut size rounds xs = pieces ↔
      Uniform size pieces ∧ pieces.flatten = xs := by
  constructor
  · intro hCut
    rw [← hCut]
    exact ⟨cut_uniform hSize hNe hRounds,
      flatten_cut hSize hRounds⟩
  · rintro ⟨hUniform, hFlatten⟩
    rw [← hFlatten] at hRounds ⊢
    exact hUniform.cut_flatten hRounds

end Pieces
