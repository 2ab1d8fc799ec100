import QuicSniRouter.LinearProbing.Probe

/-
  A weight summed over the cells of a table: what filling
  and vacating a cell does to the sum, and that a table with
  fewer entries weighs no more.

  Main declarations:
    * `total`
    * `total_fill` and `total_vacate`
    * `total_le`
-/

namespace LinearProbing

variable {E : Type} {n i : Nat}

/- The weight of all entries. -/
def total
    (n : Nat)
    (cells : Nat → Option E)
    (weight : E → Nat) : Nat :=
  ∑ i ∈ Finset.range n, (cells i).elim 0 weight

/- The new entry takes the place of what the cell held. -/
theorem total_fill
    (cells : Nat → Option E)
    (weight : E → Nat)
    (e : E)
    (hi : i < n) :
    total n (fill cells i e) weight +
        (cells i).elim 0 weight =
      total n cells weight + weight e := by
  have hIn : i ∈ Finset.range n := Finset.mem_range.mpr hi
  have hRest :
      ∑ j ∈ (Finset.range n).erase i,
          (fill cells i e j).elim 0 weight =
        ∑ j ∈ (Finset.range n).erase i,
          (cells j).elim 0 weight := by
    refine Finset.sum_congr rfl ?_
    intro j hj
    rw [fill_of_ne cells e (Finset.ne_of_mem_erase hj)]
  unfold total
  rw [← Finset.sum_erase_add _ _ hIn,
    ← Finset.sum_erase_add (Finset.range n)
      (fun j => (cells j).elim 0 weight) hIn,
    hRest, fill_self]
  dsimp only [Option.elim_some]
  omega

theorem total_vacate
    {cells : Nat → Option E}
    {e : E}
    (weight : E → Nat)
    (hi : i < n)
    (hCell : cells i = some e) :
    total n (vacate cells i) weight + weight e =
      total n cells weight := by
  have hFill := total_fill (vacate cells i) weight e hi
  rw [fill_vacate hCell, vacate_self] at hFill
  exact hFill.symm

theorem total_le
    {fewer cells : Nat → Option E}
    (weight : E → Nat)
    (hSub : ∀ i e, fewer i = some e → cells i = some e) :
    total n fewer weight ≤ total n cells weight := by
  refine Finset.sum_le_sum ?_
  intro i _
  cases hCell : fewer i with
  | none => exact Nat.zero_le _
  | some e =>
      rw [hSub i e hCell]

@[simp] theorem total_vacant
    (n : Nat)
    (weight : E → Nat) :
    total n (fun _ => none) weight = 0 := by
  simp [total]

attribute [irreducible] total

end LinearProbing
