import Mathlib.Data.Nat.ModEq
import QuicSniRouter.LinearProbing.Probe

/-
  The scan for the oldest entry in a window of the ring.

  Main declarations:
    * `oldest`
    * `oldest_used`
    * `oldest_scanned`
    * `oldest_ne_none`
    * `oldest_min`
    * `oldest_ring_min`
    * `used_of_vacant_window`
    * `oldest_eq_none`
-/

------------------------------------------------------------
-- The Scan
------------------------------------------------------------

namespace LinearProbing

variable {E : Type} {P : Nat → Prop}
variable {best : Option (Nat × Int)} {victim scans i p : Nat}

/- One cell of the scan; the first of equals is kept. -/
def older
    (n : Nat)
    (cells : Nat → Option E)
    (time : E → Int)
    (cursor : Nat)
    (best : Option (Nat × Int))
    (i : Nat) : Option (Nat × Int) :=
  match cells ((cursor + i) % n), best with
  | none, _ => best
  | some e, none => some ((cursor + i) % n, time e)
  | some e, some (victim, oldest) =>
      if time e < oldest then
        some ((cursor + i) % n, time e)
      else
        some (victim, oldest)

/- The oldest of `scans` cells from the cursor on. -/
def oldest
    (n : Nat)
    (cells : Nat → Option E)
    (time : E → Int)
    (cursor scans : Nat) : Option Nat :=
  ((List.range scans).foldl (older n cells time cursor)
    none).map Prod.fst

variable {n : Nat} {cells : Nat → Option E} {time : E → Int}
variable {cursor : Nat}

/- A scanned cell that is used leaves something selected. -/
theorem older_cases
    (best : Option (Nat × Int))
    (i : Nat) :
    older n cells time cursor best i = best ∨
      ∃ e, cells ((cursor + i) % n) = some e ∧
        older n cells time cursor best i =
          some ((cursor + i) % n, time e) := by
  unfold older
  cases hCell : cells ((cursor + i) % n) with
  | none => exact Or.inl rfl
  | some e =>
      cases best with
      | none => exact Or.inr ⟨e, rfl, rfl⟩
      | some old =>
          simp only
          split_ifs with hOlder
          · exact Or.inr ⟨e, rfl, rfl⟩
          · exact Or.inl rfl

variable (scanned : List Nat)

/- The selection is one of the used cells of the scan. -/
theorem foldl_older_of
    (hCells :
      ∀ i ∈ scanned, ∀ e, cells ((cursor + i) % n) = some e →
        P ((cursor + i) % n))
    (hBest : ∀ v, best = some v → P v.1)
    {victim : Nat × Int}
    (hFold :
      scanned.foldl (older n cells time cursor) best =
        some victim) :
    P victim.1 := by
  induction scanned generalizing best with
  | nil => exact hBest victim hFold
  | cons i rest ih =>
      refine ih
        (fun j hj => hCells j (List.mem_cons_of_mem i hj))
        ?_ hFold
      intro v hv
      rcases older_cases best i with
        hSame | ⟨e, hCell, hNew⟩
      · rw [hSame] at hv
        exact hBest v hv
      · rw [hNew] at hv
        cases hv
        exact hCells i List.mem_cons_self e hCell

theorem oldest_of
    (hCells :
      ∀ i < scans, ∀ e, cells ((cursor + i) % n) = some e →
        P ((cursor + i) % n))
    (hOldest :
      oldest n cells time cursor scans = some victim) :
    P victim := by
  unfold oldest at hOldest
  rcases Option.map_eq_some_iff.mp hOldest with
    ⟨best, hFold, hBest⟩
  subst hBest
  exact foldl_older_of _
    (fun i hi => hCells i (List.mem_range.mp hi))
    (by simp) hFold

/- The scan only ever selects used cells. -/
theorem oldest_used
    (hPos : 0 < n)
    (hOldest :
      oldest n cells time cursor scans = some victim) :
    victim < n ∧ ∃ e, cells victim = some e :=
  oldest_of (P := fun v => v < n ∧ ∃ e, cells v = some e)
    (fun _ _ e hCell => ⟨Nat.mod_lt _ hPos, e, hCell⟩)
    hOldest

/- It selects inside its window. -/
theorem oldest_scanned
    (hOldest :
      oldest n cells time cursor scans = some victim) :
    ∃ k < scans, victim = (cursor + k) % n :=
  oldest_of
    (P := fun v => ∃ k < scans, v = (cursor + k) % n)
    (fun k hk _ _ => ⟨k, hk, rfl⟩) hOldest

theorem foldl_older_ne_none
    {best : Option (Nat × Int)}
    (hSome :
      best ≠ none ∨
        ∃ i ∈ scanned, cells ((cursor + i) % n) ≠ none) :
    scanned.foldl (older n cells time cursor) best ≠
      none := by
  induction scanned generalizing best with
  | nil => simpa using hSome
  | cons i rest ih =>
      apply ih
      by_cases hBest : best = none
      · by_cases hCell : cells ((cursor + i) % n) = none
        · right
          simpa [hBest, hCell] using hSome
        · left
          rcases Option.ne_none_iff_exists'.mp hCell with
            ⟨e, hSomeE⟩
          simp [older, hSomeE, hBest]
      · left
        rcases older_cases best i with
          hSame | ⟨e, _, hNew⟩
        · rw [hSame]
          exact hBest
        · rw [hNew]
          exact Option.some_ne_none _

/- A window with a used cell has an oldest one. -/
theorem oldest_ne_none
    (hi : i < scans)
    (hCell : cells ((cursor + i) % n) ≠ none) :
    oldest n cells time cursor scans ≠ none := by
  unfold oldest
  have hFold :
      (List.range scans).foldl
          (older n cells time cursor) none ≠ none :=
    foldl_older_ne_none (List.range scans)
      (Or.inr ⟨i, List.mem_range.mpr hi, hCell⟩)
  simpa using hFold

/-
  One cell more: the selection is not younger than it was,
  nor than the cell.
-/
theorem older_le
    {v : Nat × Int}
    (hOlder : older n cells time cursor best i = some v) :
    (∀ b, best = some b → v.2 ≤ b.2) ∧
      ∀ e, cells ((cursor + i) % n) = some e →
        v.2 ≤ time e := by
  unfold older at hOlder
  cases hCell : cells ((cursor + i) % n) with
  | none =>
      rw [hCell] at hOlder
      simp only at hOlder
      refine ⟨?_, by simp⟩
      intro b hb
      rw [hOlder] at hb
      cases hb
      exact Int.le_refl _
  | some e =>
      rw [hCell] at hOlder
      cases best with
      | none =>
          cases hOlder
          refine ⟨by simp, ?_⟩
          intro e' hEq
          cases hEq
          exact Int.le_refl _
      | some old =>
          simp only at hOlder
          split_ifs at hOlder with hLt
          · cases hOlder
            refine ⟨?_, ?_⟩
            · intro b hb
              cases hb
              exact Int.le_of_lt hLt
            · intro e' hEq
              cases hEq
              exact Int.le_refl _
          · cases hOlder
            refine ⟨?_, ?_⟩
            · intro b hb
              cases hb
              exact Int.le_refl _
            · intro e' hEq
              cases hEq
              exact Int.not_lt.mp hLt

theorem foldl_older_min
    {victim : Nat × Int}
    (hBest :
      ∀ v, best = some v →
        ∃ e, cells v.1 = some e ∧ time e = v.2)
    (hFold :
      scanned.foldl (older n cells time cursor) best =
        some victim) :
    (∃ e, cells victim.1 = some e ∧ time e = victim.2) ∧
      (∀ b, best = some b → victim.2 ≤ b.2) ∧
      ∀ i ∈ scanned, ∀ e,
        cells ((cursor + i) % n) = some e →
          victim.2 ≤ time e := by
  induction scanned generalizing best with
  | nil =>
      refine ⟨hBest victim hFold, ?_, by simp⟩
      intro b hb
      have hSame : best = some victim := hFold
      rw [hSame] at hb
      cases hb
      exact Int.le_refl _
  | cons i rest ih =>
      rw [List.foldl_cons] at hFold
      have hStep :
          ∀ v, older n cells time cursor best i = some v →
            ∃ e, cells v.1 = some e ∧ time e = v.2 := by
        intro v hv
        rcases older_cases best i with
          hSame | ⟨e, hCell, hNew⟩
        · rw [hSame] at hv
          exact hBest v hv
        · rw [hNew] at hv
          cases hv
          exact ⟨e, hCell, rfl⟩
      rcases ih hStep hFold with ⟨hUsed, hLe, hRest⟩
      -- A cell that is used leaves something to compare.
      have hFirst :
          (∀ b, best = some b → victim.2 ≤ b.2) ∧
            ∀ e, cells ((cursor + i) % n) = some e →
              victim.2 ≤ time e := by
        cases hNow : older n cells time cursor best i with
        | none =>
            constructor
            · intro b hb
              rcases older_cases best i with
                hSame | ⟨e, _, hNew⟩
              · rw [hSame, hb] at hNow
                cases hNow
              · rw [hNew] at hNow
                cases hNow
            · intro e hCell
              have hSome :=
                @foldl_older_ne_none E n cells time cursor
                  [i] best
                  (Or.inr ⟨i, List.mem_singleton_self i, by
                    rw [hCell]
                    exact Option.some_ne_none e⟩)
              exact absurd hNow hSome
        | some v =>
            rcases older_le hNow with ⟨hOld, hCells⟩
            have hv := hLe v hNow
            exact ⟨fun b hb => Int.le_trans hv (hOld b hb),
              fun e he => Int.le_trans hv (hCells e he)⟩
      refine ⟨hUsed, hFirst.1, ?_⟩
      intro j hj e hCell
      rcases List.mem_cons.mp hj with hEq | hMem
      · subst hEq
        exact hFirst.2 e hCell
      · exact hRest j hMem e hCell

/- No cell of the window is older than the selected one. -/
theorem oldest_min
    (hOldest :
      oldest n cells time cursor scans = some victim) :
    ∃ e, cells victim = some e ∧
      ∀ i < scans, ∀ other,
        cells ((cursor + i) % n) = some other →
          time e ≤ time other := by
  unfold oldest at hOldest
  rcases Option.map_eq_some_iff.mp hOldest with
    ⟨best, hFold, hBest⟩
  subst hBest
  rcases foldl_older_min (List.range scans) (by simp)
      hFold with
    ⟨⟨e, hCell, hTime⟩, _, hRest⟩
  refine ⟨e, hCell, ?_⟩
  intro i hi other hOther
  rw [hTime]
  exact hRest i (List.mem_range.mpr hi) other hOther

/- A window of the whole ring has every cell in it. -/
theorem exists_window
    (cursor : Nat)
    (hp : p < n) :
    ∃ i < n, (cursor + i) % n = p := by
  have hPos : 0 < n := by omega
  have hCursor := Nat.mod_lt cursor hPos
  refine ⟨(p + (n - cursor % n)) % n, Nat.mod_lt _ hPos, ?_⟩
  rw [Nat.add_mod, Nat.mod_mod, ← Nat.add_mod,
    ← Nat.mod_add_mod]
  have hSum :
      cursor % n + (p + (n - cursor % n)) = p + n := by
    omega
  rw [hSum, Nat.add_mod_right, Nat.mod_eq_of_lt hp]

/- A scan of the whole ring misses no used cell. -/
theorem oldest_ring_ne_none
    (hp : p < n)
    (hCell : cells p ≠ none) :
    oldest n cells time cursor n ≠ none := by
  rcases exists_window cursor hp with ⟨i, hi, hHere⟩
  apply oldest_ne_none hi
  rw [hHere]
  exact hCell

/- It selects an oldest entry of them all. -/
theorem oldest_ring_min
    {e : E}
    (hOldest : oldest n cells time cursor n = some victim)
    (hCell : cells victim = some e) :
    ∀ other, Holds n cells other → time e ≤ time other := by
  rcases oldest_min hOldest with ⟨e', hCell', hMin⟩
  rw [hCell] at hCell'
  cases hCell'
  rintro other ⟨p, hp, hOther⟩
  rcases exists_window cursor hp with ⟨i, hi, hHere⟩
  rw [← hHere] at hOther
  exact hMin i hi other hOther

/- A window of vacant cells counts against the load. -/
theorem used_of_vacant_window
    (hScans : scans ≤ n)
    (hVacant : ∀ i < scans, cells ((cursor + i) % n) = none) :
    used n cells + scans ≤ n := by
  have hInj :
      Set.InjOn (fun i => (cursor + i) % n)
        (Finset.range scans) := by
    intro i hi j hj hSame
    have hi' := Finset.mem_range.mp hi
    have hj' := Finset.mem_range.mp hj
    exact (Nat.ModEq.add_left_cancel' cursor
      hSame).eq_of_lt_of_lt (by omega) (by omega)
  have hSub :
      (Finset.range scans).image (fun i => (cursor + i) % n) ⊆
        (Finset.range n).filter
          (fun p => ¬ (cells p).isSome) := by
    intro p hp
    rcases Finset.mem_image.mp hp with ⟨i, hi, hHere⟩
    have hi' := Finset.mem_range.mp hi
    have hNone := hVacant i hi'
    subst hHere
    refine Finset.mem_filter.mpr ⟨?_, ?_⟩
    · exact Finset.mem_range.mpr (Nat.mod_lt _ (by omega))
    · rw [hNone]
      exact Bool.false_ne_true
  have hCard := Finset.card_le_card hSub
  rw [Finset.card_image_of_injOn hInj,
    Finset.card_range] at hCard
  have hSplit :=
    Finset.card_filter_add_card_filter_not
      (s := Finset.range n)
      (p := fun p => (cells p).isSome)
  rw [Finset.card_range] at hSplit
  unfold used
  omega

theorem foldl_older_vacant
    (hVacant :
      ∀ i ∈ scanned, cells ((cursor + i) % n) = none) :
    scanned.foldl (older n cells time cursor) none = none := by
  induction scanned with
  | nil => rfl
  | cons i rest ih =>
      have hFirst :
          older n cells time cursor none i = none := by
        unfold older
        rw [hVacant i List.mem_cons_self]
      rw [List.foldl_cons, hFirst]
      exact ih
        (fun j hMem =>
          hVacant j (List.mem_cons_of_mem i hMem))

/- A scan without a result has met no entry. -/
theorem oldest_eq_none :
    oldest n cells time cursor scans = none ↔
      ∀ i < scans, cells ((cursor + i) % n) = none := by
  constructor
  · intro hOldest i hi
    by_contra hCell
    exact oldest_ne_none hi hCell hOldest
  · intro hVacant
    unfold oldest
    rw [foldl_older_vacant (List.range scans)
      (fun i hMem => hVacant i (List.mem_range.mp hMem))]
    rfl

end LinearProbing
