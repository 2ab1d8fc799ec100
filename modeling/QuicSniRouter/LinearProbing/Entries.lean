import Mathlib.Data.List.Perm.Basic
import Mathlib.Data.List.Nodup
import QuicSniRouter.LinearProbing.Probe

/-
  The entries of a table as a list, to count them.  Where no
  two cells have the same key the list has no repetitions,
  so that its length follows from what the cells hold.

  Main declarations:
    * `entries`
    * `length_entries`
    * `used_of_holds_iff`
    * `used_lt_of_lost`
    * `used_le_of_keys`
-/

namespace LinearProbing

variable {E : Type} {n : Nat} {cells : Nat → Option E}
variable {K : Type}

/- The entries below `n`, in the order of their cells. -/
def entries
    (n : Nat)
    (cells : Nat → Option E) : List E :=
  (List.range n).filterMap cells

@[simp] theorem mem_entries
    {e : E} :
    e ∈ entries n cells ↔ Holds n cells e := by
  unfold entries Holds
  simp only [List.mem_filterMap, List.mem_range]

theorem length_entries
    (n : Nat)
    (cells : Nat → Option E) :
    (entries n cells).length = used n cells := by
  induction n with
  | zero => rfl
  | succ n ih =>
      unfold entries used at ih ⊢
      rw [List.range_succ, List.filterMap_append,
        List.length_append, ih, Finset.range_add_one,
        Finset.filter_insert]
      cases hCell : cells n with
      | none => simp [hCell]
      | some e =>
          have hNew :
              n ∉ (Finset.range n).filter
                (fun p => (cells p).isSome) := by
            simp
          simp [hCell, Finset.card_insert_of_notMem hNew]

theorem nodup_map_entries
    {same : E → E → Prop}
    (key : E → K)
    (hSame : ∀ d e, key d = key e → same d e)
    (hDistinct : Distinct n same cells) :
    ((entries n cells).map key).Nodup := by
  unfold entries
  rw [List.map_filterMap, List.Nodup, List.pairwise_filterMap]
  apply List.Pairwise.imp_of_mem _ List.pairwise_lt_range
  intro p q hp hq hLt a ha b hb hEq
  rcases Option.map_eq_some_iff.mp ha with ⟨d, hd, hKeyD⟩
  rcases Option.map_eq_some_iff.mp hb with ⟨e, he, hKeyE⟩
  have hpq :=
    hDistinct p (List.mem_range.mp hp) q
      (List.mem_range.mp hq) d e hd he
      (hSame d e (by rw [hKeyD, hKeyE, hEq]))
  omega

theorem nodup_entries
    {same : E → E → Prop}
    (hRefl : ∀ e, same e e)
    (hDistinct : Distinct n same cells) :
    (entries n cells).Nodup := by
  have hNodup :=
    nodup_map_entries id
      (fun d e (hEq : d = e) => hEq ▸ hRefl d) hDistinct
  rwa [List.map_id] at hNodup

variable {same : E → E → Prop} {before after : Nat → Option E}

/- What is left of a table when `gone` is taken out. -/
theorem used_of_holds_iff
    (gone : E → Bool)
    (hRefl : ∀ e, same e e)
    (hBefore : Distinct n same before)
    (hAfter : Distinct n same after)
    (hHolds :
      ∀ e, Holds n after e ↔
        Holds n before e ∧ gone e = false) :
    used n after + (entries n before).countP gone =
      used n before := by
  have hPerm :
      (entries n after).Perm
        ((entries n before).filter (fun e => !gone e)) := by
    apply (List.perm_ext_iff_of_nodup
      (nodup_entries hRefl hAfter)
      ((nodup_entries hRefl hBefore).filter _)).mpr
    intro e
    simp [hHolds e]
  have hSplit :=
    List.length_eq_countP_add_countP gone
      (l := entries n before)
  have hKept := hPerm.length_eq
  rw [length_entries, ← List.countP_eq_length_filter]
    at hKept
  rw [length_entries] at hSplit
  simp only [Bool.not_eq_true, Bool.decide_eq_false]
    at hSplit
  omega

/- Two entries fewer. -/
theorem used_lt_of_lost
    {a b : E}
    (hRefl : ∀ e, same e e)
    (hAfter : Distinct n same after)
    (hHolds :
      ∀ e, Holds n after e → Holds n before e ∧ e ≠ a ∧ e ≠ b)
    (ha : Holds n before a)
    (hb : Holds n before b)
    (hab : a ≠ b) :
    used n after + 2 ≤ used n before := by
  have hNew : (a :: b :: entries n after).Nodup := by
    have hNodup := nodup_entries hRefl hAfter
    have haNot : a ∉ entries n after :=
      fun h => (hHolds a (mem_entries.mp h)).2.1 rfl
    have hbNot : b ∉ entries n after :=
      fun h => (hHolds b (mem_entries.mp h)).2.2 rfl
    simp [hab, haNot, hbNot, hNodup]
  have hSub :
      (a :: b :: entries n after) ⊆ entries n before := by
    intro e hMem
    rcases List.mem_cons.mp hMem with hEq | hMem
    · rw [hEq]
      exact mem_entries.mpr ha
    · rcases List.mem_cons.mp hMem with hEq | hMem
      · rw [hEq]
        exact mem_entries.mpr hb
      · exact mem_entries.mpr
          (hHolds e (mem_entries.mp hMem)).1
  have hLe := (List.subperm_of_subset hNew hSub).length_le
  rw [List.length_cons, List.length_cons, length_entries,
    length_entries] at hLe
  exact hLe

/- A table whose keys all come from another is no larger. -/
theorem used_le_of_keys
    (key : E → K)
    (hSame : ∀ d e, key d = key e → same d e)
    (hAfter : Distinct n same after)
    (hKeys :
      ∀ e, Holds n after e →
        ∃ d, Holds n before d ∧ key d = key e) :
    used n after ≤ used n before := by
  have hNodup := nodup_map_entries key hSame hAfter
  have hSub :
      (entries n after).map key ⊆
        (entries n before).map key := by
    intro k hMem
    rcases List.mem_map.mp hMem with ⟨e, he, hKey⟩
    rcases hKeys e (mem_entries.mp he) with ⟨d, hd, hEq⟩
    exact List.mem_map.mpr
      ⟨d, mem_entries.mpr hd, hEq.trans hKey⟩
  have hLe := (List.subperm_of_subset hNodup hSub).length_le
  rw [List.length_map, List.length_map, length_entries,
    length_entries] at hLe
  exact hLe

end LinearProbing
