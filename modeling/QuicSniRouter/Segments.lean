import Mathlib.Data.List.Perm.Basic

/-
  Segments of a sequence that arrive in any order, may
  overlap and may come twice.  Which positions they cover,
  and how far they cover it without a gap, depends on the
  segments but not on their order, and only grows.

  Main declarations:
    * `Segment`
    * `Segment.Of`
    * `covered`
    * `leading`
-/

namespace Segments

/- Consecutive items and the position of the first. -/
structure Segment
    (α : Type) where
  offset : Nat
  items : List α
deriving DecidableEq

namespace Segment

variable {α : Type} {segment : Segment α} {i : Nat}

/- The segment has an item for the place. -/
def covers
    (segment : Segment α)
    (i : Nat) : Bool :=
  decide (segment.offset ≤ i) &&
    decide (i < segment.offset + segment.items.length)

/- The items stand in the sequence where they say. -/
def Of
    (whole : List α)
    (segment : Segment α) : Prop :=
  ∀ k < segment.items.length,
    whole[segment.offset + k]? = segment.items[k]?

instance
    [DecidableEq α]
    (whole : List α)
    (segment : Segment α) :
    Decidable (Of whole segment) := by
  unfold Of
  infer_instance

theorem covers_iff :
    segment.covers i = true ↔
      segment.offset ≤ i ∧
        i < segment.offset + segment.items.length := by
  unfold covers
  rw [Bool.and_eq_true, decide_eq_true_eq, decide_eq_true_eq]

/- A covered position has the item of the sequence. -/
theorem Of.getD
    {whole : List α}
    (hOf : Of whole segment)
    (hCovers : segment.covers i = true)
    (default : α) :
    segment.items.getD (i - segment.offset) default =
      whole.getD i default := by
  rcases covers_iff.mp hCovers with ⟨hFrom, hTo⟩
  have hItem := hOf (i - segment.offset) (by omega)
  rw [Nat.add_sub_cancel' hFrom] at hItem
  rw [List.getD_eq_getElem?_getD,
    List.getD_eq_getElem?_getD, hItem]

end Segment

variable {α : Type}

/- Some segment covers the position. -/
def covered
    (segments : List (Segment α))
    (i : Nat) : Bool :=
  segments.any (fun segment => segment.covers i)

theorem covered_append
    (first second : List (Segment α))
    (i : Nat) :
    covered (first ++ second) i =
      (covered first i || covered second i) :=
  List.any_append

theorem covered_perm
    {first second : List (Segment α)}
    (hPerm : first.Perm second) :
    covered first = covered second := by
  funext i
  exact hPerm.any_eq

variable {p q : Nat → Bool}

/- Walk on from `n` while the test holds. -/
def leading
    (p : Nat → Bool) :
    Nat → Nat → Nat
| 0, n => n
| fuel + 1, n =>
    if p n then leading p fuel (n + 1) else n

theorem leading_le
    (p : Nat → Bool)
    (fuel n : Nat) :
    leading p fuel n ≤ n + fuel := by
  induction fuel generalizing n with
  | zero => exact Nat.le_refl n
  | succ fuel ih =>
      unfold leading
      split
      · have hRest := ih (n + 1)
        omega
      · omega

/- Everything that was walked over passes the test. -/
theorem of_lt_leading
    {fuel n i : Nat}
    (hFrom : n ≤ i)
    (hTo : i < leading p fuel n) :
    p i = true := by
  induction fuel generalizing n with
  | zero =>
      unfold leading at hTo
      omega
  | succ fuel ih =>
      unfold leading at hTo
      split at hTo
      · rename_i hHere
        by_cases hStart : i = n
        · rw [hStart]
          exact hHere
        · exact ih (by omega) hTo
      · omega

theorem le_leading
    (p : Nat → Bool)
    (fuel n : Nat) :
    n ≤ leading p fuel n := by
  induction fuel generalizing n with
  | zero => exact Nat.le_refl n
  | succ fuel ih =>
      have hRest := ih (n + 1)
      unfold leading
      split
      · omega
      · exact Nat.le_refl n

/- The walk gets past everything that passes the test. -/
theorem leading_max
    {m : Nat}
    (fuel n : Nat)
    (hAll : ∀ i, n ≤ i → i < m → p i = true)
    (hFuel : m ≤ n + fuel) :
    m ≤ leading p fuel n := by
  induction fuel generalizing n with
  | zero => exact hFuel
  | succ fuel ih =>
      by_cases hDone : m ≤ n
      · exact Nat.le_trans hDone (le_leading p _ n)
      · have hHere := hAll n (Nat.le_refl n) (by omega)
        unfold leading
        rw [if_pos hHere]
        apply ih (n + 1)
        · intro i hFrom hTo
          exact hAll i (by omega) hTo
        · omega

/- A weaker test walks at least as far. -/
theorem leading_mono
    (hImplies : ∀ i, p i = true → q i = true)
    (fuel n : Nat) :
    leading p fuel n ≤ leading q fuel n := by
  induction fuel generalizing n with
  | zero => exact Nat.le_refl n
  | succ fuel ih =>
      by_cases hHere : p n = true
      · unfold leading
        rw [if_pos hHere, if_pos (hImplies n hHere)]
        exact ih (n + 1)
      · have hStop : leading p (fuel + 1) n = n := by
          unfold leading
          rw [if_neg hHere]
        rw [hStop]
        exact le_leading q (fuel + 1) n

end Segments
