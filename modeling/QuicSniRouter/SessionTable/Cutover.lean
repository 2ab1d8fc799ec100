import QuicSniRouter.SessionTable.Sweep

/-
  The in-place sweep of `evict_if`.  It is exact where no
  entry whose backend is not a valid address stands behind a
  selected one.

  Main declarations:
    * `SessionTable.RunsStorable`
    * `SessionTable.evictIf_sweeps`
    * `SessionTable.evictIf_exact`
    * `SessionTable.evictIf_loses`
    * `SessionTable.Restricts`
-/

namespace QuicSniRouter

open LinearProbing

namespace SessionTable

variable {hash : Bytes → Nat} {pred : Session → Bool}

/-
  Behind an entry that `pred` selects, up to the next unused
  slot, every entry has a backend that can be put again.
-/
def RunsStorable
    (pred : Session → Bool)
    (table : SessionTable) : Prop :=
  RunsKept table.capacity Session.Storable
    (fun session => pred session = true) table.sessions

variable {table : SessionTable}

theorem RunsStorable.cleanFrom
    (c : Nat)
    (hRuns : table.RunsStorable pred) :
    table.CleanFrom c pred := by
  intro a ha s hSome hPred j hj _ hRun e hEntry
  exact Or.inl (hRuns a ha s hSome hPred j hj hRun e hEntry)

/-
  Steps that a sweep at slot `i` still needs: each of them
  passes a slot or deletes an entry.
-/
def sweepRank
    (table : SessionTable)
    (i : Nat) : Nat :=
  table.capacity - i + used table.capacity table.sessions

theorem sweepRank_le
    (table : SessionTable) :
    table.sweepRank 0 ≤ table.sweepFuel := by
  have hUsed := used_le table.capacity table.sessions
  unfold sweepRank sweepFuel
  omega

/- Deleting where the sweep stands lowers its rank. -/
theorem sweepRank_delete
    {i : Nat}
    {session : Session}
    (hInv : table.Inv hash)
    (hi : i < table.capacity)
    (hCell : table.sessions i = some session) :
    (table.tableDeleteAt hash i).sweepRank i <
      table.sweepRank i := by
  have hCapacity :=
    (tableDeleteAt_thinned hInv hi hCell).frame.capacity
  have hLess := tableDeleteAt_used hash hInv.placed hi hCell
  unfold sweepRank
  rw [hCapacity]
  omega

theorem passes_same
    {p : Nat}
    (hInv : table.Inv hash)
    (hHere :
      ∀ s, table.sessions p = some s → pred s = false) :
    Passes hash pred (fun s => s) table p table where
  capacity := rfl
  inv := hInv
  unselected := hHere
  vacant := fun _ => rfl
  filled := by
    intro s hSome
    funext q
    by_cases hqp : q = p
    · rw [hqp, fill_self, hSome]
    · rw [fill_of_ne _ _ hqp]

/- With enough fuel the sweep passes every slot. -/
theorem deleteWhere_sweeps
    (fuel : Nat)
    {table : SessionTable}
    {i : Nat}
    (hInv : table.Inv hash)
    (hFuel : table.sweepRank i ≤ fuel) :
    ∃ k', table.capacity ≤ k' ∧
      Sweeps hash pred (fun s => s) 0 table i
        (deleteWhere hash pred fuel table i).1
        (deleteWhere hash pred fuel table i).2 k' := by
  induction fuel generalizing table i with
  | zero =>
      unfold sweepRank at hFuel
      exact ⟨i, by omega, Sweeps.done⟩
  | succ fuel ih =>
      unfold deleteWhere
      by_cases hi : i < table.capacity
      · have hRank : table.sweepRank (i + 1) ≤ fuel := by
          unfold sweepRank at hFuel ⊢
          omega
        have hHere : (0 + i) % table.capacity = i := by
          rw [Nat.zero_add, Nat.mod_eq_of_lt hi]
        simp only [hi, if_true]
        cases hCell : table.sessions i with
        | none =>
            rcases ih hInv hRank with ⟨k', hEnd, hRest⟩
            refine ⟨k', hEnd, Sweeps.pass ?_ hRest⟩
            rw [hHere]
            exact passes_same hInv (by simp [hCell])
        | some session =>
            by_cases hPred : pred session = true
            · simp only [hPred, if_true]
              have hThin :=
                tableDeleteAt_thinned hInv hi hCell
              have hLess := sweepRank_delete hInv hi hCell
              rcases @ih (table.tableDeleteAt hash i) i
                  hThin.inv (by omega) with
                ⟨k', hEnd, hRest⟩
              rw [hThin.frame.capacity] at hEnd
              refine ⟨k', hEnd, Sweeps.delete ?_ hPred ?_⟩
              · rw [hHere]
                exact hCell
              · rw [hHere]
                exact hRest
            · simp only [hPred]
              rcases ih hInv hRank with ⟨k', hEnd, hRest⟩
              refine ⟨k', hEnd, Sweeps.pass ?_ hRest⟩
              rw [hHere]
              exact passes_same hInv
                (by simpa [hCell] using hPred)
      · simp only [hi, if_false]
        exact ⟨i, by omega, Sweeps.done⟩

theorem evictIf_sweeps
    (pred : Session → Bool)
    (hInv : table.Inv hash) :
    ∃ k', table.capacity ≤ k' ∧
      Sweeps hash pred (fun s => s) 0 table 0
        (table.evictIf hash pred).1
        (table.evictIf hash pred).2 k' :=
  deleteWhere_sweeps _ hInv (sweepRank_le table)

theorem evictIf_thinned
    (pred : Session → Bool)
    (hInv : table.Inv hash) :
    Thinned hash table (table.evictIf hash pred).2 :=
  deleteWhere_thinned pred _ 0 hInv

/- A clean sweep removes the selection and counts it. -/
theorem evictIf_clean
    (hInv : table.Inv hash)
    (hClean : table.CleanFrom 0 pred) :
    (∀ s, Holds table.capacity
        (table.evictIf hash pred).2.sessions s ↔
      Holds table.capacity table.sessions s ∧
        pred s = false) ∧
    (table.evictIf hash pred).1 +
        used table.capacity
          (table.evictIf hash pred).2.sessions =
      used table.capacity table.sessions := by
  rcases evictIf_sweeps pred hInv with ⟨k', hEnd, hSweeps⟩
  rcases hSweeps.exact (Refreshes.id pred) hInv.pos hInv
      hClean (passedFrom_zero _ _ _ _) hEnd with
    ⟨hHolds, hCounts⟩
  refine ⟨?_, hCounts⟩
  intro s
  rw [hHolds s]
  constructor
  · rintro ⟨t, hOld, hNot, hEq⟩
    rw [hEq]
    exact ⟨hOld, hNot⟩
  · rintro ⟨hOld, hNot⟩
    exact ⟨s, hOld, hNot, rfl⟩

/- The sweep removes the selected entries and no other. -/
theorem evictIf_exact
    (hInv : table.Inv hash)
    (hRuns : table.RunsStorable pred)
    (s : Session) :
    Holds table.capacity
        (table.evictIf hash pred).2.sessions s ↔
      Holds table.capacity table.sessions s ∧
        pred s = false :=
  (evictIf_clean hInv (hRuns.cleanFrom 0)).1 s

/- An entry that is lost to the sweep of others. -/
theorem evictIf_loses
    {a j : Nat}
    {selected e : Session}
    (hInv : table.Inv hash)
    (ha : a < table.capacity)
    (hCellA : table.sessions a = some selected)
    (hSelected : pred selected = true)
    (hj : j < table.capacity)
    (hRun : Run table.capacity table.sessions a j)
    (hCellJ : table.sessions j = some e)
    (hOther : pred e = false)
    (hDrop : ¬ e.Storable) :
    ¬ Holds table.capacity
      (table.evictIf hash pred).2.sessions e := by
  rcases evictIf_sweeps pred hInv with ⟨k', hEnd, hSweeps⟩
  intro hHolds
  exact (hSweeps.drops
    ⟨ha, Nat.zero_le _, ⟨selected, hCellA, hSelected⟩, hj,
      hRun, hCellJ, hDrop, Or.inl hOther⟩
    (Refreshes.id pred) hInv.pos hInv hEnd).1 e hHolds rfl

variable {table after : SessionTable}

/- The table as a map from keys to entries. -/
def entryOf
    (hash : Bytes → Nat)
    (table : SessionTable)
    (key : SessionKey) : Option Session :=
  (table.get hash key).bind table.sessions

/-
  The later map is the earlier one without the entries that
  are dropped.
-/
def Restricts
    (hash : Bytes → Nat)
    (table after : SessionTable)
    (dropped : Session → Prop) : Prop :=
  ∀ key s,
    after.entryOf hash key = some s ↔
      table.entryOf hash key = some s ∧ ¬ dropped s

theorem entryOf_eq_some
    {key : SessionKey}
    {s : Session}
    (hInv : table.Inv hash) :
    table.entryOf hash key = some s ↔
      key.valid = true ∧
        Holds table.capacity table.sessions s ∧
        s.key.equals key = true := by
  unfold entryOf
  constructor
  · intro hEntry
    rcases Option.bind_eq_some_iff.mp hEntry with
      ⟨i, hGet, hCell⟩
    rcases get_used hInv hGet with ⟨hi, session, hSome, hKey⟩
    rw [hSome] at hCell
    cases hCell
    exact ⟨valid_of_get hGet, ⟨i, hi, hSome⟩, hKey⟩
  · rintro ⟨hValid, ⟨i, hi, hCell⟩, hKey⟩
    have hGet :=
      (get_eq_some hInv hValid).mpr ⟨hi, s, hCell, hKey⟩
    rw [hGet]
    exact hCell

theorem entryOf_key
    {s : Session}
    (hInv : table.Inv hash)
    (hHolds : Holds table.capacity table.sessions s) :
    table.entryOf hash s.key = some s := by
  rcases hHolds with ⟨i, hi, hCell⟩
  exact (entryOf_eq_some hInv).mpr
    ⟨hInv.keys i hi s hCell, ⟨i, hi, hCell⟩,
      SessionKey.equals_refl _⟩

/- The maps restrict as the sets of entries do. -/
theorem restricts_iff
    {dropped : Session → Prop}
    (hInv : table.Inv hash)
    (hAfter : after.Inv hash)
    (hCapacity : after.capacity = table.capacity) :
    Restricts hash table after dropped ↔
      ∀ s, Holds table.capacity after.sessions s ↔
        Holds table.capacity table.sessions s ∧
          ¬ dropped s := by
  constructor
  · intro hRestricts s
    constructor
    · intro hHolds
      rw [← hCapacity] at hHolds
      rcases (hRestricts s.key s).mp
          (entryOf_key hAfter hHolds) with
        ⟨hEntry, hKept⟩
      exact ⟨((entryOf_eq_some hInv).mp hEntry).2.1, hKept⟩
    · rintro ⟨hHolds, hKept⟩
      have hEntry :=
        (hRestricts s.key s).mpr
          ⟨entryOf_key hInv hHolds, hKept⟩
      rw [← hCapacity]
      exact ((entryOf_eq_some hAfter).mp hEntry).2.1
  · intro hHolds key s
    rw [entryOf_eq_some hAfter, entryOf_eq_some hInv,
      hCapacity, hHolds s]
    constructor
    · rintro ⟨hValid, ⟨hOld, hKept⟩, hKey⟩
      exact ⟨⟨hValid, hOld, hKey⟩, hKept⟩
    · rintro ⟨⟨hValid, hOld, hKey⟩, hKept⟩
      exact ⟨hValid, ⟨hOld, hKept⟩, hKey⟩

theorem evictIf_restricts
    {pred : Session → Bool}
    (hInv : table.Inv hash)
    (hRuns : table.RunsStorable pred) :
    Restricts hash table (table.evictIf hash pred).2
      (fun s => pred s = true) := by
  have hThin := evictIf_thinned pred hInv
  rw [restricts_iff hInv hThin.inv hThin.frame.capacity]
  simp only [Bool.not_eq_true]
  exact evictIf_exact hInv hRuns

/-
  Conversely a sweep that restricts the map has met no entry
  that can not be put again, other than selected ones.
-/
theorem runsStorable_of_restricts
    {pred : Session → Bool}
    (hInv : table.Inv hash)
    (hSelected :
      ∀ s, Holds table.capacity table.sessions s →
        pred s = true → s.Storable)
    (hRestricts :
      Restricts hash table (table.evictIf hash pred).2
        (fun s => pred s = true)) :
    table.RunsStorable pred := by
  have hThin := evictIf_thinned pred hInv
  rw [restricts_iff hInv hThin.inv hThin.frame.capacity]
    at hRestricts
  intro a ha selected hCellA hPredA j hj hRun e hCellJ
  by_contra hDrop
  by_cases hPredE : pred e = true
  · exact hDrop (hSelected e ⟨j, hj, hCellJ⟩ hPredE)
  · exact evictIf_loses hInv ha hCellA hPredA hj hRun
      hCellJ (by simpa using hPredE) hDrop
      ((hRestricts e).mpr ⟨⟨j, hj, hCellJ⟩, hPredE⟩)

end SessionTable

end QuicSniRouter
