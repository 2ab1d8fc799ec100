import QuicSniRouter.LinearProbing.Ring
import Mathlib.Algebra.BigOperators.Group.Finset.Basic
import Mathlib.Algebra.Order.BigOperators.Group.Finset

/-
  Cells of an open-addressed table and the probe walk over
  them.  A table is a function from positions to optional
  entries; `home` gives the position an entry starts from.

  Main declarations:
    * `walk` and `walk_meaning`
    * `Chain`
    * `Distinct`
    * `walk_eq_hit`
    * `chain_fill` and `chain_replace`
    * `used`
-/

------------------------------------------------------------
-- The Probe Walk
------------------------------------------------------------

namespace LinearProbing

variable {j h p q f : Nat}

/- The outcome of a probe walk. -/
inductive Probe
  | vacant (i : Nat)
  | hit (i : Nat)
  | exhausted
deriving DecidableEq, Repr

/- The cell at which a walk stopped. -/
def Probe.position :
    Probe → Option Nat
| .vacant i => some i
| .hit i => some i
| .exhausted => none

variable {E : Type}

/-
  Walk at most `probes` cells from `i`, stopping at the
  first vacant cell or at the first entry that `hit`
  accepts.
-/
def walk
    (n : Nat)
    (cells : Nat → Option E)
    (hit : E → Bool) :
    Nat → Nat → Probe
| 0, _ => .exhausted
| probes + 1, i =>
    match cells i with
    | none => .vacant i
    | some e =>
        if hit e then
          .hit i
        else
          walk n cells hit probes (next n i)

/- All cells on the way from `i` to `j` hold passed entries. -/
def Passed
    (n : Nat)
    (cells : Nat → Option E)
    (hit : E → Bool)
    (i j : Nat) : Prop :=
  ∀ q < n, dist n i q < dist n i j →
    ∃ e, cells q = some e ∧ hit e = false

/- What the three outcomes of a walk say about the cells. -/
def Probe.Meaning
    (n : Nat)
    (cells : Nat → Option E)
    (hit : E → Bool)
    (probes i : Nat) :
    Probe → Prop
| .vacant j =>
    j < n ∧ dist n i j < probes ∧ cells j = none ∧
      Passed n cells hit i j
| .hit j =>
    j < n ∧ dist n i j < probes ∧
      (∃ e, cells j = some e ∧ hit e = true) ∧
      Passed n cells hit i j
| .exhausted =>
    ∀ q < n, dist n i q < probes →
      ∃ e, cells q = some e ∧ hit e = false

/-
  A passed cell in front of a walked way extends the way by
  one.
-/
theorem Passed.cons
    {n i probes : Nat}
    {cells : Nat → Option E}
    {hit : E → Bool}
    {e : E}
    (hi : i < n)
    (hj : j < n)
    (hProbes : probes + 1 ≤ n)
    (hDist : dist n (next n i) j < probes)
    (hCell : cells i = some e)
    (hMiss : hit e = false)
    (hRest : Passed n cells hit (next n i) j) :
    dist n i j < probes + 1 ∧ Passed n cells hit i j := by
  have hNe : i ≠ j := by
    intro hEq
    subst hEq
    have hSelf := dist_next_self hi
    omega
  have hStep := dist_next_left hi hj hNe
  refine ⟨by omega, ?_⟩
  intro q hq hLt
  by_cases hqi : i = q
  · subst hqi
    exact ⟨e, hCell, hMiss⟩
  · have hqStep := dist_next_left hi hq hqi
    exact hRest q hq (by omega)

variable {n : Nat} {same : E → E → Prop} {home : E → Nat}
variable {cells : Nat → Option E} {i : Nat} {hit : E → Bool}
variable {e : E}

/- What the answer of a walk means. -/
theorem walk_meaning
    (cells : Nat → Option E)
    (hit : E → Bool)
    (probes i : Nat)
    (hi : i < n)
    (hProbes : probes ≤ n) :
    (walk n cells hit probes i).Meaning n cells hit
      probes i := by
  induction probes generalizing i with
  | zero =>
      intro q _ hLt
      omega
  | succ probes ih =>
      unfold walk
      cases hCell : cells i with
      | none =>
          refine ⟨hi, by simp, hCell, ?_⟩
          intro q _ hLt
          simp at hLt
      | some e =>
          by_cases hHit : hit e = true
          · simp only [hHit, if_true]
            refine ⟨hi, by simp, ⟨e, hCell, hHit⟩, ?_⟩
            intro q _ hLt
            simp at hLt
          · have hMiss : hit e = false := by
              simpa using hHit
            simp only [hMiss, Bool.false_eq_true, if_false]
            have hNext := next_lt (by omega : 0 < n) i
            have hRest := ih (next n i) hNext (by omega)
            cases hWalk :
                walk n cells hit probes (next n i) with
            | vacant j =>
                rw [hWalk] at hRest
                rcases hRest with ⟨hj, hDist, hNone, hPassed⟩
                rcases hPassed.cons hi hj hProbes hDist hCell
                    hMiss with
                  ⟨hDist', hPassed'⟩
                exact ⟨hj, hDist', hNone, hPassed'⟩
            | hit j =>
                rw [hWalk] at hRest
                rcases hRest with ⟨hj, hDist, hSome, hPassed⟩
                rcases hPassed.cons hi hj hProbes hDist hCell
                    hMiss with
                  ⟨hDist', hPassed'⟩
                exact ⟨hj, hDist', hSome, hPassed'⟩
            | exhausted =>
                rw [hWalk] at hRest
                intro q hq hLt
                by_cases hqi : i = q
                · subst hqi
                  exact ⟨e, hCell, hMiss⟩
                · have hqStep := dist_next_left hi hq hqi
                  exact hRest q hq (by omega)

/- A full walk either stops or has seen every cell. -/
theorem walk_exhausted
    (hh : h < n)
    (hWalk : walk n cells hit n h = .exhausted) :
    ∀ q < n, ∃ e, cells q = some e ∧ hit e = false := by
  have hMeaning :=
    walk_meaning cells hit n h hh (Nat.le_refl n)
  rw [hWalk] at hMeaning
  intro q hq
  exact hMeaning q hq (dist_lt hh hq)

/- A free cell, after cells that do not match. -/
theorem walk_vacant
    (hh : h < n)
    (hWalk : walk n cells hit n h = .vacant j) :
    j < n ∧ cells j = none ∧ Passed n cells hit h j := by
  have hMeaning :=
    walk_meaning cells hit n h hh (Nat.le_refl n)
  rw [hWalk] at hMeaning
  exact ⟨hMeaning.1, hMeaning.2.2.1, hMeaning.2.2.2⟩

/- A match, after cells that do not. -/
theorem walk_hit
    (hh : h < n)
    (hWalk : walk n cells hit n h = .hit j) :
    j < n ∧ (∃ e, cells j = some e ∧ hit e = true) ∧
      Passed n cells hit h j := by
  have hMeaning :=
    walk_meaning cells hit n h hh (Nat.le_refl n)
  rw [hWalk] at hMeaning
  exact ⟨hMeaning.1, hMeaning.2.2.1, hMeaning.2.2.2⟩

------------------------------------------------------------
-- Chains
------------------------------------------------------------

/-
  Every cell between an entry's home and its position is
  used, so a walk from the home reaches the entry.
-/
def Chain
    (n : Nat)
    (home : E → Nat)
    (cells : Nat → Option E) : Prop :=
  ∀ p < n, ∀ e, cells p = some e →
    ∀ q < n, dist n (home e) q < dist n (home e) p →
      cells q ≠ none

/- Entries that `same` identifies share their position. -/
def Distinct
    (n : Nat)
    (same : E → E → Prop)
    (cells : Nat → Option E) : Prop :=
  ∀ p < n, ∀ q < n, ∀ e e',
    cells p = some e → cells q = some e' → same e e' → p = q

/- Some cell below `n` holds `e`. -/
def Holds
    (n : Nat)
    (cells : Nat → Option E)
    (e : E) : Prop :=
  ∃ p < n, cells p = some e

/- Entries start from a cell of the ring. -/
def Homed
    (n : Nat)
    (home : E → Nat) : Prop :=
  ∀ e, home e < n

/- Homes matter only for the stored entries. -/
theorem Chain.congr
    {home home' : E → Nat}
    {cells : Nat → Option E}
    (hChain : Chain n home cells)
    (hHome :
      ∀ p < n, ∀ e, cells p = some e → home' e = home e) :
    Chain n home' cells := by
  intro p hp e hCell q hq hLt
  rw [hHome p hp e hCell] at hLt
  exact hChain p hp e hCell q hq hLt

theorem Distinct.congr
    {same same' : E → E → Prop}
    {cells : Nat → Option E}
    (hDistinct : Distinct n same cells)
    (hSame :
      ∀ e e', Holds n cells e → Holds n cells e' →
        same' e e' → same e e') :
    Distinct n same' cells := by
  intro p hp q hq a b hpa hqb hab
  exact hDistinct p hp q hq a b hpa hqb
    (hSame a b ⟨p, hp, hpa⟩ ⟨q, hq, hqb⟩ hab)

theorem Distinct.eq_of_same
    {e e' : E}
    (hDistinct : Distinct n same cells)
    (hHolds : Holds n cells e)
    (hHolds' : Holds n cells e')
    (hSame : same e e') :
    e = e' := by
  rcases hHolds with ⟨p, hp, hCell⟩
  rcases hHolds' with ⟨q, hq, hCell'⟩
  rw [hDistinct p hp q hq e e' hCell hCell' hSame,
    hCell'] at hCell
  exact (Option.some.inj hCell).symm

/- A walk that stops at a vacant cell has missed nothing. -/
theorem not_hit_of_walk_vacant
    (hh : h < n)
    (hChain : Chain n home cells)
    (hWalk : walk n cells hit n h = .vacant j)
    (hp : p < n)
    (hCell : cells p = some e)
    (hHome : home e = h) :
    hit e = false := by
  rcases walk_vacant hh hWalk with ⟨hj, hNone, hPassed⟩
  rcases Nat.lt_trichotomy (dist n h p) (dist n h j) with
    hLt | hEq | hGt
  · rcases hPassed p hp hLt with ⟨e', hCell', hMiss⟩
    rw [hCell] at hCell'
    cases hCell'
    exact hMiss
  · have hpj := dist_inj hh hp hj hEq
    subst hpj
    rw [hNone] at hCell
    cases hCell
  · subst hHome
    exact absurd hNone (hChain p hp e hCell j hj hGt)

/- In a chained table the walk finds what it is to hit. -/
theorem exists_walk_hit
    (hh : h < n)
    (hChain : Chain n home cells)
    (hp : p < n)
    (hCell : cells p = some e)
    (hHome : home e = h)
    (hHit : hit e = true) :
    ∃ q e', walk n cells hit n h = .hit q ∧ q < n ∧
      cells q = some e' ∧ hit e' = true := by
  cases hWalk : walk n cells hit n h with
  | vacant j =>
      have hMiss :=
        not_hit_of_walk_vacant hh hChain hWalk hp hCell hHome
      rw [hHit] at hMiss
      cases hMiss
  | hit q =>
      rcases walk_hit hh hWalk with
        ⟨hq, ⟨e', hCell', hHit'⟩, _⟩
      exact ⟨q, e', rfl, hq, hCell', hHit'⟩
  | exhausted =>
      rcases walk_exhausted hh hWalk p hp with
        ⟨e', hCell', hMiss⟩
      rw [hCell] at hCell'
      cases hCell'
      rw [hHit] at hMiss
      cases hMiss

/-
  In a chained table the walk from an entry's home finds the
  entry, provided nothing else is hit.
-/
theorem walk_eq_hit
    (hh : h < n)
    (hChain : Chain n home cells)
    (hp : p < n)
    (hCell : cells p = some e)
    (hHome : home e = h)
    (hHit : hit e = true)
    (hOnly :
      ∀ q < n, ∀ e', cells q = some e' → hit e' = true →
        q = p) :
    walk n cells hit n h = .hit p := by
  rcases exists_walk_hit hh hChain hp hCell hHome hHit with
    ⟨q, e', hWalk, hq, hCell', hHit'⟩
  rw [hWalk, hOnly q hq e' hCell' hHit']

------------------------------------------------------------
-- Writing Cells
------------------------------------------------------------

/- Empty one cell. -/
def vacate
    (cells : Nat → Option E)
    (i : Nat) :
    Nat → Option E :=
  Function.update cells i none

/- Store an entry in one cell. -/
def fill
    (cells : Nat → Option E)
    (i : Nat)
    (e : E) :
    Nat → Option E :=
  Function.update cells i (some e)

@[simp] theorem vacate_self
    (cells : Nat → Option E)
    (i : Nat) :
    vacate cells i i = none := by
  simp [vacate]

theorem vacate_of_ne
    (cells : Nat → Option E)
    {i : Nat}
    (hNe : q ≠ i) :
    vacate cells i q = cells q := by
  simp [vacate, hNe]

@[simp] theorem fill_self
    (cells : Nat → Option E)
    (i : Nat)
    (e : E) :
    fill cells i e i = some e := by
  simp [fill]

theorem fill_of_ne
    (cells : Nat → Option E)
    {i : Nat}
    (e : E)
    (hNe : q ≠ i) :
    fill cells i e q = cells q := by
  simp [fill, hNe]

/- A used cell of a filled table is the filled one or old. -/
theorem fill_eq_some
    {e e' : E}
    (hCell : fill cells i e q = some e') :
    (q = i ∧ e' = e) ∨ (q ≠ i ∧ cells q = some e') := by
  by_cases hq : q = i
  · subst hq
    rw [fill_self] at hCell
    exact Or.inl ⟨rfl, (Option.some.inj hCell).symm⟩
  · rw [fill_of_ne cells e hq] at hCell
    exact Or.inr ⟨hq, hCell⟩

theorem vacate_eq_some
    (hCell : vacate cells i q = some e) :
    q ≠ i ∧ cells q = some e := by
  by_cases hq : q = i
  · subst hq
    rw [vacate_self] at hCell
    cases hCell
  · rw [vacate_of_ne cells hq] at hCell
    exact ⟨hq, hCell⟩

/- Putting an entry back into the cell it came from. -/
theorem fill_vacate
    (hCell : cells i = some e) :
    fill (vacate cells i) i e = cells := by
  funext q
  by_cases hq : q = i
  · subst hq
    rw [fill_self, hCell]
  · rw [fill_of_ne _ e hq, vacate_of_ne cells hq]

/-
  Filling the first vacant cell on an entry's way keeps the
  chains.
-/
theorem chain_fill
    (hChain : Chain n home cells)
    (hWay :
      ∀ q < n, dist n (home e) q < dist n (home e) f →
        cells q ≠ none) :
    Chain n home (fill cells f e) := by
  intro p hp e' hCell q hq hLt
  by_cases hqf : q = f
  · subst hqf
    rw [fill_self]
    exact Option.some_ne_none e
  · rw [fill_of_ne cells e hqf]
    rcases fill_eq_some hCell with ⟨hpf, hee⟩ | ⟨_, hOld⟩
    · subst hpf
      subst hee
      exact hWay q hq hLt
    · exact hChain p hp e' hOld q hq hLt

theorem distinct_fill
    (hSymm : ∀ a b, same a b → same b a)
    (hDistinct : Distinct n same cells)
    (hNew : ∀ q < n, ∀ e', cells q = some e' → ¬ same e e') :
    Distinct n same (fill cells f e) := by
  intro p hp q hq a b hpa hqb hSame
  rcases fill_eq_some hpa with ⟨hpf, hae⟩ | ⟨_, hpOld⟩
  · subst hae
    rcases fill_eq_some hqb with ⟨hqf, _⟩ | ⟨_, hqOld⟩
    · rw [hpf, hqf]
    · exact absurd hSame (hNew q hq b hqOld)
  · rcases fill_eq_some hqb with ⟨_, hbe⟩ | ⟨_, hqOld⟩
    · subst hbe
      exact absurd (hSymm a b hSame) (hNew p hp a hpOld)
    · exact hDistinct p hp q hq a b hpOld hqOld hSame

theorem distinct_vacate
    {n i : Nat}
    {same : E → E → Prop}
    {cells : Nat → Option E}
    (hDistinct : Distinct n same cells) :
    Distinct n same (vacate cells i) := by
  intro p hp q hq a b hpa hqb hSame
  exact hDistinct p hp q hq a b (vacate_eq_some hpa).2
    (vacate_eq_some hqb).2 hSame

variable {n i : Nat} {cells : Nat → Option E} {e e' : E}

/- Replacing an entry uses the same cells as before. -/
theorem replace_eq_none
    (hCell : cells i = some e) :
    fill cells i e' q = none ↔ cells q = none := by
  by_cases hq : q = i
  · subst hq
    simp [hCell]
  · rw [fill_of_ne cells e' hq]

theorem chain_replace
    {home : E → Nat}
    (hChain : Chain n home cells)
    (hCell : cells i = some e)
    (hHome : home e' = home e) :
    Chain n home (fill cells i e') := by
  intro p hp a hSome q hq hLt hNone
  rw [replace_eq_none hCell] at hNone
  rcases fill_eq_some hSome with ⟨hpi, hae⟩ | ⟨_, hOld⟩
  · subst hpi
    subst hae
    rw [hHome] at hLt
    exact hChain p hp e hCell q hq hLt hNone
  · exact hChain p hp a hOld q hq hLt hNone

theorem distinct_replace
    {same : E → E → Prop}
    (hSymm : ∀ a b, same a b → same b a)
    (hDistinct : Distinct n same cells)
    (hCell : cells i = some e)
    (hSame : ∀ a, same e' a → same e a) :
    Distinct n same (fill cells i e') := by
  intro p hp q hq a b hpa hqb hab
  rcases fill_eq_some hpa with ⟨hpi, hae⟩ | ⟨hpi, hpOld⟩
  · subst hpi
    subst hae
    rcases fill_eq_some hqb with ⟨hqi, _⟩ | ⟨_, hqOld⟩
    · exact hqi.symm
    · exact hDistinct p hp q hq e b hCell hqOld (hSame b hab)
  · rcases fill_eq_some hqb with ⟨hqi, hbe⟩ | ⟨_, hqOld⟩
    · subst hqi
      subst hbe
      exact hDistinct p hp q hq a e hpOld hCell
        (hSymm e a (hSame a (hSymm a b hab)))
    · exact hDistinct p hp q hq a b hpOld hqOld hab

------------------------------------------------------------
-- Counting Used Cells
------------------------------------------------------------

/- The number of used cells below `n`. -/
def used
    (n : Nat)
    (cells : Nat → Option E) : Nat :=
  ((Finset.range n).filter (fun p => (cells p).isSome)).card

theorem used_fill
    (e : E)
    (hf : f < n)
    (hNone : cells f = none) :
    used n (fill cells f e) = used n cells + 1 := by
  unfold used
  have hSet :
      (Finset.range n).filter
          (fun p => (fill cells f e p).isSome) =
        insert f
          ((Finset.range n).filter
            (fun p => (cells p).isSome)) := by
    ext p
    by_cases hp : p = f
    · subst hp
      simp [hf]
    · simp [fill_of_ne cells e hp, hp]
  rw [hSet, Finset.card_insert_of_notMem]
  simp [hNone]

theorem used_vacate
    {n i : Nat}
    {cells : Nat → Option E}
    {e : E}
    (hi : i < n)
    (hCell : cells i = some e) :
    used n (vacate cells i) + 1 = used n cells := by
  have hFill := used_fill e hi (vacate_self cells i)
  rw [fill_vacate hCell] at hFill
  exact hFill.symm

theorem used_replace
    (e' : E)
    (hCell : cells i = some e) :
    used n (fill cells i e') = used n cells := by
  unfold used
  congr 1
  ext p
  by_cases hp : p = i
  · subst hp
    simp [hCell]
  · simp [fill_of_ne cells e' hp]

theorem used_le
    (n : Nat)
    (cells : Nat → Option E) :
    used n cells ≤ n := by
  have hCard :=
    Finset.card_filter_le (Finset.range n)
      (fun p => (cells p).isSome)
  simpa [used] using hCard

/- A table with a vacant cell is not full. -/
theorem used_lt_of_vacant
    {v : Nat}
    (hv : v < n)
    (hNone : cells v = none) :
    used n cells < n := by
  unfold used
  have hSub :
      (Finset.range n).filter (fun p => (cells p).isSome) ⊂
        Finset.range n := by
    apply Finset.filter_ssubset.mpr
    exact ⟨v, Finset.mem_range.mpr hv, by simp [hNone]⟩
  simpa using Finset.card_lt_card hSub

/- A table that is not empty has a used cell. -/
theorem exists_used
    (hUsed : 0 < used n cells) :
    ∃ p < n, cells p ≠ none := by
  rcases Finset.card_pos.mp hUsed with ⟨p, hMem⟩
  rcases Finset.mem_filter.mp hMem with ⟨hRange, hSome⟩
  exact ⟨p, Finset.mem_range.mp hRange,
    Option.isSome_iff_ne_none.mp hSome⟩

/- A table that is not full has a vacant cell. -/
theorem exists_vacant
    (hUsed : used n cells < n) :
    ∃ v < n, cells v = none := by
  by_contra hNone
  push Not at hNone
  have hAll :
      (Finset.range n).filter (fun p => (cells p).isSome) =
        Finset.range n := by
    apply Finset.filter_true_of_mem
    intro p hp
    exact Option.isSome_iff_ne_none.mpr
      (hNone p (Finset.mem_range.mp hp))
  unfold used at hUsed
  rw [hAll, Finset.card_range] at hUsed
  omega

end LinearProbing
