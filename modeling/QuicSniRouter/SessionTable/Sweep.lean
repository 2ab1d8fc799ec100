import QuicSniRouter.LinearProbing.Entries
import QuicSniRouter.SessionTable.Contents

/-
  Sweeps that delete entries in place.  The sweep walks the
  ring from some slot on; a deletion reinserts the run
  behind it, drops the entries whose backend is not a valid
  address, and leaves the sweep where it is.  One argument
  serves the full and the incremental sweep: with nothing to
  drop, no entry comes to a slot that was passed already.

  Main declarations:
    * `SessionTable.DeletedExactly`
    * `SessionTable.Sweeps`
    * `SessionTable.CleanFrom`
    * `SessionTable.Sweeps.exact`
    * `SessionTable.Sweeps.drops`
-/

------------------------------------------------------------
-- One Deletion
------------------------------------------------------------

namespace QuicSniRouter

open LinearProbing

namespace SessionTable

variable {hash : Bytes → Nat} {table : SessionTable} {i : Nat}
variable {session : Session}

theorem reached_next
    (hi : i < table.capacity)
    (hCell : table.sessions i = some session) :
    Reached table.capacity table.sessions i
      (next table.capacity i) :=
  (run_self hi
    (by rw [hCell]; exact Option.some_ne_none _)).reached
    hi hi

theorem tableDeleteAt_inside
    (hPlaced : table.WellPlaced hash)
    (hi : i < table.capacity)
    (hCell : table.sessions i = some session) :
    Inside table.capacity
      (Session.home hash table.capacity) table.sessions i
      (table.tableDeleteAt hash i).sessions := by
  rcases tableDeleteAt_spec hash hPlaced hi hCell with
    ⟨_, _, hRun⟩
  have hPos : 0 < table.capacity := by omega
  have hStart :=
    inside_vacate hPlaced.chain hi
      (by rw [hCell]; exact Option.some_ne_none _)
  exact hRun.inside (Session.homed hash hPos) hi
    (next_lt hPos i) hStart (reached_next hi hCell)

/- The deleted entry itself is sure to be gone. -/
theorem tableDeleteAt_ne
    {s : Session}
    (hPlaced : table.WellPlaced hash)
    (hi : i < table.capacity)
    (hCell : table.sessions i = some session)
    (hHolds :
      Holds table.capacity
        (table.tableDeleteAt hash i).sessions s) :
    s ≠ session := by
  rcases tableDeleteAt_holds hash hPlaced hi hCell hHolds with
    ⟨q, hq, hOld⟩
  rcases vacate_eq_some hOld with ⟨hqi, hSome⟩
  intro hEq
  subst hEq
  exact hqi
    (hPlaced.distinct q hq i hi s s hSome hCell
      (SessionKey.equals_refl _))

/-
  Every other entry in the run behind slot `i`, up to the
  next unused slot, has a backend that can be put again.
-/
def RunStorable
    (table : SessionTable)
    (i : Nat) : Prop :=
  ∀ j < table.capacity, j ≠ i →
    Run table.capacity table.sessions i j →
      ∀ s, table.sessions j = some s → s.Storable

/-
  A deletion with only storable entries behind it loses no
  other entry, brings none from behind to the front of any
  walk toward it, and leaves only storable entries in its
  run.
-/
structure DeletedExactly
    (table after : SessionTable)
    (i : Nat)
    (session : Session) : Prop where
  holds :
    ∀ s, Holds table.capacity after.sessions s ↔
      Holds table.capacity table.sessions s ∧ s ≠ session
  used :
    used table.capacity after.sessions + 1 =
      used table.capacity table.sessions
  behind :
    ∀ c < table.capacity, ∀ p < table.capacity,
      dist table.capacity c p < dist table.capacity c i →
        ∀ s, after.sessions p = some s →
          ∃ q < table.capacity,
            dist table.capacity c q <
                dist table.capacity c i ∧
              table.sessions q = some s
  storable :
    ∀ x < table.capacity,
      Run table.capacity table.sessions i x →
        ∀ s, after.sessions x = some s → s.Storable

theorem tableDeleteAt_keepAll
    (hPlaced : table.WellPlaced hash)
    (hi : i < table.capacity)
    (hCell : table.sessions i = some session)
    (hKept : table.RunStorable i) :
    let after := table.tableDeleteAt hash i
    CloseGap table.capacity
        (Session.home hash table.capacity) (fun _ => True)
        (vacate table.sessions i) (next table.capacity i)
        after.sessions ∧
      ∀ x < table.capacity,
        Run table.capacity table.sessions i x →
          ∀ s, after.sessions x = some s → s.Storable := by
  rcases tableDeleteAt_spec hash hPlaced hi hCell with
    ⟨_, _, hRun⟩
  have hPos : 0 < table.capacity := by omega
  have hStart :=
    inside_vacate hPlaced.chain hi
      (by rw [hCell]; exact Option.some_ne_none _)
  exact hRun.keepAll (Session.homed hash hPos) hi
    (next_lt hPos i) hStart (reached_next hi hCell)
    (fun x hx hRunX s hSome =>
      hKept x hx (vacate_eq_some hSome).1 hRunX s
        (vacate_eq_some hSome).2)

/- Such a deletion takes the deleted entry and no other. -/
theorem tableDeleteAt_removes
    (hPlaced : table.WellPlaced hash)
    (hi : i < table.capacity)
    (hCell : table.sessions i = some session)
    (hKept : table.RunStorable i) :
    let after := table.tableDeleteAt hash i
    (∀ s, Holds table.capacity after.sessions s ↔
      Holds table.capacity table.sessions s ∧ s ≠ session) ∧
      used table.capacity after.sessions + 1 =
        used table.capacity table.sessions := by
  intro after
  rcases tableDeleteAt_keepAll hPlaced hi hCell hKept with
    ⟨hAll, _⟩
  have hNext := next_lt (show 0 < table.capacity by omega) i
  constructor
  · intro s
    constructor
    · intro hHolds
      rcases tableDeleteAt_holds hash hPlaced hi hCell
          hHolds with
        ⟨q, hq, hOld⟩
      exact ⟨⟨q, hq, (vacate_eq_some hOld).2⟩,
        tableDeleteAt_ne hPlaced hi hCell hHolds⟩
    · rintro ⟨⟨p, hp, hSome⟩, hNe⟩
      apply hAll.holds_keep hNext trivial
      have hpi : p ≠ i := by
        intro hEq
        subst hEq
        rw [hCell] at hSome
        exact hNe (Option.some.inj hSome).symm
      exact ⟨p, hp, by rw [vacate_of_ne _ hpi, hSome]⟩
  · rw [hAll.used_eq hNext]
    exact used_vacate hi hCell

/- A deletion deletes its entry, if the run is kept. -/
theorem tableDeleteAt_exactly
    (hInv : table.Inv hash)
    (hi : i < table.capacity)
    (hCell : table.sessions i = some session)
    (hKept : table.RunStorable i) :
    DeletedExactly table (table.tableDeleteAt hash i) i
      session := by
  rcases tableDeleteAt_removes hInv.placed hi hCell hKept with
    ⟨hHolds, hUsed⟩
  rcases tableDeleteAt_keepAll hInv.placed hi hCell hKept with
    ⟨hAll, hStorable⟩
  rcases hInv.cut with ⟨z, hz, hCut⟩
  have hDrift :=
    hAll.drift (Session.homed hash hInv.pos) hz
      (next_lt hInv.pos i)
      (drift_vacate (i := i) hInv.chain hCut)
  refine ⟨hHolds, hUsed, ?_, hStorable⟩
  intro c hc p hp hBefore s hSome
  exact hDrift.behind hi hc hp hBefore hSome

/-
  An entry that cannot be put again, in the run behind the
  deleted one.
-/
theorem tableDeleteAt_loses
    {j : Nat}
    {e : Session}
    (hPlaced : table.WellPlaced hash)
    (hi : i < table.capacity)
    (hCell : table.sessions i = some session)
    (hj : j < table.capacity)
    (hij : i ≠ j)
    (hRun : Run table.capacity table.sessions i j)
    (hEntry : table.sessions j = some e)
    (hDrop : ¬ e.Storable) :
    ¬ Holds table.capacity
      (table.tableDeleteAt hash i).sessions e := by
  rcases tableDeleteAt_spec hash hPlaced hi hCell with
    ⟨_, _, hGap⟩
  have hNext := next_lt (show 0 < table.capacity by omega) i
  apply hGap.not_holds hNext hj _ _ _ hDrop
  · exact hRun.vacate_next hi hj hij
  · rw [vacate_of_ne _ (Ne.symm hij), hEntry]
  · intro q hq hSome
    exact hPlaced.distinct q hq j hj e e
      (vacate_eq_some hSome).2 hEntry
      (SessionKey.equals_refl _)

/- Two entries go with such a deletion. -/
theorem tableDeleteAt_used_lost
    {j : Nat}
    {e : Session}
    (hPlaced : table.WellPlaced hash)
    (hi : i < table.capacity)
    (hCell : table.sessions i = some session)
    (hj : j < table.capacity)
    (hij : i ≠ j)
    (hRun : Run table.capacity table.sessions i j)
    (hEntry : table.sessions j = some e)
    (hDrop : ¬ e.Storable) :
    used table.capacity
        (table.tableDeleteAt hash i).sessions + 2 ≤
      used table.capacity table.sessions := by
  rcases tableDeleteAt_spec hash hPlaced hi hCell with
    ⟨hFrame, _, _⟩
  have hLost :=
    tableDeleteAt_loses hPlaced hi hCell hj hij hRun hEntry
      hDrop
  have hDistinct :=
    (tableDeleteAt_placed hash hPlaced hi hCell).distinct
  rw [hFrame.capacity] at hDistinct
  refine used_lt_of_lost
    (fun s => SessionKey.equals_refl s.key) hDistinct ?_
    ⟨i, hi, hCell⟩ ⟨j, hj, hEntry⟩ ?_
  · intro s hHolds
    rcases tableDeleteAt_holds hash hPlaced hi hCell
        hHolds with
      ⟨q, hq, hOld⟩
    refine ⟨⟨q, hq, (vacate_eq_some hOld).2⟩,
      tableDeleteAt_ne hPlaced hi hCell hHolds, ?_⟩
    intro hEq
    rw [hEq] at hHolds
    exact hLost hHolds
  · intro hEq
    rw [← hEq] at hEntry
    exact hij
      (hPlaced.distinct i hi j hj session session hCell hEntry
        (SessionKey.equals_refl _))

------------------------------------------------------------
-- Sweeps
------------------------------------------------------------

/-
  A slot that the sweep passes: its entry is not selected
  and is left behind refreshed.
-/
structure Passes
    (hash : Bytes → Nat)
    (pred : Session → Bool)
    (refresh : Session → Session)
    (table : SessionTable)
    (p : Nat)
    (after : SessionTable) : Prop where
  capacity : after.capacity = table.capacity
  inv : after.Inv hash
  unselected :
    ∀ s, table.sessions p = some s → pred s = false
  vacant :
    table.sessions p = none → after.sessions = table.sessions
  filled :
    ∀ s, table.sessions p = some s →
      after.sessions = fill table.sessions p (refresh s)

/-
  A sweep that started at slot `c` and has passed `k` slots
  goes on to the table `after`, by then with `k'` slots
  passed and `n` entries deleted.
-/
inductive Sweeps
    (hash : Bytes → Nat)
    (pred : Session → Bool)
    (refresh : Session → Session)
    (c : Nat) :
    SessionTable → Nat → Nat → SessionTable → Nat → Prop
  | done
      {table : SessionTable}
      {k : Nat} :
      Sweeps hash pred refresh c table k 0 table k
  | pass
      {table mid after : SessionTable}
      {k n k' : Nat}
      (hPass :
        Passes hash pred refresh table
          ((c + k) % table.capacity) mid)
      (hRest :
        Sweeps hash pred refresh c mid (k + 1) n after k') :
      Sweeps hash pred refresh c table k n after k'
  | delete
      {table after : SessionTable}
      {k n k' : Nat}
      {session : Session}
      (hCell :
        table.sessions ((c + k) % table.capacity) =
          some session)
      (hPred : pred session = true)
      (hRest :
        Sweeps hash pred refresh c
          (table.tableDeleteAt hash
            ((c + k) % table.capacity))
          k n after k') :
      Sweeps hash pred refresh c table k (n + 1) after k'

/- What a refresh may change. -/
structure Refreshes
    (pred : Session → Bool)
    (refresh : Session → Session) : Prop where
  renewed : ∀ s, Renewed s (refresh s)
  again : ∀ s, refresh (refresh s) = refresh s
  unselected :
    ∀ s, pred s = false → pred (refresh s) = false

/-
  For a sweep that starts at slot `c`: behind an entry that
  it selects, up to the next unused slot, an entry either
  can be put again or is selected and comes earlier.
-/
def CleanFrom
    (c : Nat)
    (pred : Session → Bool)
    (table : SessionTable) : Prop :=
  ∀ a < table.capacity, ∀ s,
    table.sessions a = some s → pred s = true →
      ∀ j < table.capacity, j ≠ a →
        Run table.capacity table.sessions a j →
          ∀ e, table.sessions j = some e →
            e.Storable ∨
              (pred e = true ∧
                dist table.capacity c j <
                  dist table.capacity c a)

/- The first `k` slots hold refreshed, unselected entries. -/
def PassedFrom
    (c : Nat)
    (pred : Session → Bool)
    (refresh : Session → Session)
    (k : Nat)
    (table : SessionTable) : Prop :=
  ∀ p < table.capacity, dist table.capacity c p < k →
    ∀ s, table.sessions p = some s →
      pred s = false ∧ refresh s = s

variable {hash : Bytes → Nat} {pred : Session → Bool}
variable {refresh : Session → Session} {c k n k' p : Nat}
variable {table mid after : SessionTable}

theorem Refreshes.id
    (pred : Session → Bool) :
    Refreshes pred (fun s => s) :=
  ⟨Renewed.refl, fun _ => rfl, fun _ h => h⟩

theorem Renewed.storable_iff
    {old new : Session}
    (hRenewed : Renewed old new) :
    new.Storable ↔ old.Storable := by
  unfold Session.Storable
  rw [hRenewed.key, hRenewed.backend]

namespace Passes

variable
  (hPasses : Passes hash pred refresh table p mid)
variable {q : Nat}

include hPasses

/- An entry after the pass, and where it was before. -/
theorem cell
    {s : Session}
    (hSome : mid.sessions q = some s) :
    ∃ old, table.sessions q = some old ∧
      ((q = p ∧ s = refresh old) ∨ (q ≠ p ∧ s = old)) := by
  cases hCell : table.sessions p with
  | none =>
      rw [hPasses.vacant hCell] at hSome
      refine ⟨s, hSome, Or.inr ⟨?_, rfl⟩⟩
      intro hEq
      rw [hEq, hCell] at hSome
      cases hSome
  | some old =>
      rw [hPasses.filled old hCell] at hSome
      rcases fill_eq_some hSome with ⟨hqp, hEq⟩ | ⟨hqp, hOld⟩
      · rw [hqp]
        exact ⟨old, hCell, Or.inl ⟨rfl, hEq⟩⟩
      · exact ⟨s, hOld, Or.inr ⟨hqp, rfl⟩⟩

/- An entry before the pass, and what it has become. -/
theorem cell_of
    {old : Session}
    (hOld : table.sessions q = some old) :
    (q = p ∧ mid.sessions q = some (refresh old)) ∨
      (q ≠ p ∧ mid.sessions q = some old) := by
  by_cases hqp : q = p
  · left
    rw [hqp] at hOld ⊢
    rw [hPasses.filled old hOld, fill_self]
    exact ⟨rfl, rfl⟩
  · right
    refine ⟨hqp, ?_⟩
    cases hCell : table.sessions p with
    | none =>
        rw [hPasses.vacant hCell]
        exact hOld
    | some s =>
        rw [hPasses.filled s hCell, fill_of_ne _ _ hqp]
        exact hOld

theorem none_iff
    (q : Nat) :
    mid.sessions q = none ↔ table.sessions q = none := by
  constructor
  · intro hNone
    cases hOld : table.sessions q with
    | none => rfl
    | some old =>
        rcases hPasses.cell_of hOld with
          ⟨_, hSome⟩ | ⟨_, hSome⟩
        · rw [hNone] at hSome
          cases hSome
        · rw [hNone] at hSome
          cases hSome
  · intro hNone
    cases hNew : mid.sessions q with
    | none => rfl
    | some s =>
        rcases hPasses.cell hNew with ⟨old, hOld, _⟩
        rw [hNone] at hOld
        cases hOld

theorem run_iff
    (a j : Nat) :
    Run mid.capacity mid.sessions a j ↔
      Run table.capacity table.sessions a j := by
  unfold Run
  rw [hPasses.capacity]
  simp only [ne_eq, hPasses.none_iff]

theorem used_eq :
    used table.capacity mid.sessions =
      used table.capacity table.sessions := by
  cases hCell : table.sessions p with
  | none => rw [hPasses.vacant hCell]
  | some old =>
      rw [hPasses.filled old hCell]
      exact used_replace _ hCell

theorem inherits
    (hRefresh : Refreshes pred refresh) :
    Inherits table mid := by
  refine ⟨hPasses.capacity, ?_⟩
  rintro s ⟨q, hq, hSome⟩
  rw [hPasses.capacity] at hq
  rcases hPasses.cell hSome with
    ⟨old, hOld, ⟨_, hEq⟩ | ⟨_, hEq⟩⟩
  · rw [hEq]
    exact ⟨old, ⟨q, hq, hOld⟩, hRefresh.renewed old⟩
  · rw [hEq]
    exact ⟨old, ⟨q, hq, hOld⟩, Renewed.refl old⟩

/- What is left to the end is the same after a pass. -/
theorem remains_iff
    (hRefresh : Refreshes pred refresh)
    (s' : Session) :
    (∃ s, Holds table.capacity mid.sessions s ∧
        pred s = false ∧ s' = refresh s) ↔
      ∃ s, Holds table.capacity table.sessions s ∧
        pred s = false ∧ s' = refresh s := by
  constructor
  · rintro ⟨s, ⟨q, hq, hSome⟩, hNot, hEq⟩
    rcases hPasses.cell hSome with
      ⟨old, hOld, ⟨hqp, hNew⟩ | ⟨_, hNew⟩⟩
    · rw [hqp] at hOld
      refine ⟨old, ⟨_, hqp ▸ hq, hOld⟩,
        hPasses.unselected old hOld, ?_⟩
      rw [hEq, hNew, hRefresh.again]
    · rw [hNew] at hNot hEq
      exact ⟨old, ⟨q, hq, hOld⟩, hNot, hEq⟩
  · rintro ⟨s, ⟨q, hq, hOld⟩, hNot, hEq⟩
    rcases hPasses.cell_of hOld with ⟨_, hNew⟩ | ⟨_, hNew⟩
    · exact ⟨refresh s, ⟨q, hq, hNew⟩,
        hRefresh.unselected s hNot,
        by rw [hEq, hRefresh.again]⟩
    · exact ⟨s, ⟨q, hq, hNew⟩, hNot, hEq⟩

theorem cleanFrom
    (hRefresh : Refreshes pred refresh)
    (hClean : table.CleanFrom c pred) :
    mid.CleanFrom c pred := by
  intro a ha s hSome hPred j hj hja hRun e hEntry
  rw [hPasses.run_iff] at hRun
  rw [hPasses.capacity] at ha hj ⊢
  -- The slot that was passed holds nothing selected.
  have hOldA : table.sessions a = some s := by
    rcases hPasses.cell hSome with
      ⟨old, hOld, ⟨hap, hEq⟩ | ⟨_, hEq⟩⟩
    · rw [hap] at hOld
      have hNot :=
        hRefresh.unselected old (hPasses.unselected old hOld)
      rw [← hEq, hPred] at hNot
      cases hNot
    · rw [hEq]
      exact hOld
  rcases hPasses.cell hEntry with
    ⟨old, hOld, ⟨hjp, hEq⟩ | ⟨_, hEq⟩⟩
  · rcases hClean a ha s hOldA hPred j hj hja hRun old
        hOld with
      hStorable | ⟨hSelected, _⟩
    · left
      rw [hEq]
      exact (hRefresh.renewed old).storable hStorable
    · rw [hjp] at hOld
      rw [hPasses.unselected old hOld] at hSelected
      cases hSelected
  · rw [hEq]
    exact hClean a ha s hOldA hPred j hj hja hRun old hOld

theorem passedFrom
    (hRefresh : Refreshes pred refresh)
    (hc : c < table.capacity)
    (hp : p = (c + k) % table.capacity)
    (hPassed : table.PassedFrom c pred refresh k) :
    mid.PassedFrom c pred refresh (k + 1) := by
  intro q hq hLt s hSome
  rw [hPasses.capacity] at hq hLt
  rcases hPasses.cell hSome with
    ⟨old, hOld, ⟨hqp, hEq⟩ | ⟨hqp, hEq⟩⟩
  · rw [hqp] at hOld
    have hNot := hPasses.unselected old hOld
    rw [hEq]
    exact ⟨hRefresh.unselected old hNot, hRefresh.again old⟩
  · rw [hEq]
    apply hPassed q hq _ old hOld
    by_contra hGe
    have hk : dist table.capacity c q = k := by omega
    have hBound := dist_lt hc hq
    have hHere :=
      dist_add_mod hc (show k < table.capacity by omega)
    rw [← hp, ← hk] at hHere
    have hpLt : p < table.capacity := by
      rw [hp]
      exact Nat.mod_lt _ (by omega)
    exact hqp (dist_inj hc hq hpLt hHere.symm)

end Passes

variable {hash : Bytes → Nat} {pred : Session → Bool}
variable {refresh : Session → Session} {c k n k' i : Nat}
variable {session : Session} {table after : SessionTable}

/- What is selected has not been passed yet. -/
theorem PassedFrom.dist_eq
    (hPassed : table.PassedFrom c pred refresh k)
    (hc : c < table.capacity)
    (hCell :
      table.sessions ((c + k) % table.capacity) =
        some session)
    (hPred : pred session = true) :
    dist table.capacity c ((c + k) % table.capacity) =
      k := by
  have hi : (c + k) % table.capacity < table.capacity :=
    Nat.mod_lt _ (by omega)
  have hBound := dist_lt hc hi
  have hGe :
      ¬ dist table.capacity c ((c + k) % table.capacity) <
        k := by
    intro hLt
    rw [(hPassed _ hi hLt session hCell).1] at hPred
    cases hPred
  exact dist_add_mod hc (by omega)

theorem CleanFrom.runStorable
    (hClean : table.CleanFrom c pred)
    (hPassed :
      table.PassedFrom c pred refresh
        (dist table.capacity c i))
    (hi : i < table.capacity)
    (hCell : table.sessions i = some session)
    (hPred : pred session = true) :
    table.RunStorable i := by
  intro j hj hji hRun e hEntry
  rcases hClean i hi session hCell hPred j hj hji hRun e
      hEntry with
    hStorable | ⟨hSelected, hBefore⟩
  · exact hStorable
  · rw [(hPassed j hj hBefore e hEntry).1] at hSelected
    cases hSelected

/- Deleting a selected entry leaves the sweep clean. -/
theorem DeletedExactly.cleanFrom
    (hDeleted : DeletedExactly table after i session)
    (hInside :
      Inside table.capacity
        (Session.home hash table.capacity) table.sessions i
        after.sessions)
    (hCapacity : after.capacity = table.capacity)
    (hi : i < table.capacity)
    (hClean : table.CleanFrom c pred) :
    after.CleanFrom c pred := by
  intro a ha s hSome hPred j hj hja hRun e hEntry
  rw [hCapacity] at ha hj hRun ⊢
  by_cases hRunJ : Run table.capacity table.sessions i j
  · exact Or.inl (hDeleted.storable j hj hRunJ e hEntry)
  · have hOldJ : table.sessions j = some e := by
      rw [← hInside.outside j hj hRunJ, hEntry]
    by_cases hRunA : Run table.capacity table.sessions i a
    · exact absurd
        (hRunA.append hi ha hInside.used hRun) hRunJ
    · have hOldA : table.sessions a = some s := by
        rw [← hInside.outside a ha hRunA, hSome]
      apply hClean a ha s hOldA hPred j hj hja _ e hOldJ
      intro x hx hLe
      exact hInside.used x hx (hRun x hx hLe)

theorem DeletedExactly.passedFrom
    (hDeleted : DeletedExactly table after i session)
    (hCapacity : after.capacity = table.capacity)
    (hc : c < table.capacity)
    (hPassed :
      table.PassedFrom c pred refresh
        (dist table.capacity c i)) :
    after.PassedFrom c pred refresh
      (dist table.capacity c i) := by
  intro p hp hLt s hSome
  rw [hCapacity] at hp hLt
  rcases hDeleted.behind c hc p hp hLt s hSome with
    ⟨q, hq, hBefore, hOld⟩
  exact hPassed q hq hBefore s hOld

theorem DeletedExactly.remains_iff
    (hDeleted : DeletedExactly table after i session)
    (hPred : pred session = true)
    (s' : Session) :
    (∃ s, Holds table.capacity after.sessions s ∧
        pred s = false ∧ s' = refresh s) ↔
      ∃ s, Holds table.capacity table.sessions s ∧
        pred s = false ∧ s' = refresh s := by
  constructor
  · rintro ⟨s, hHolds, hNot, hEq⟩
    exact ⟨s, ((hDeleted.holds s).mp hHolds).1, hNot, hEq⟩
  · rintro ⟨s, hHolds, hNot, hEq⟩
    refine ⟨s, (hDeleted.holds s).mpr ⟨hHolds, ?_⟩, hNot, hEq⟩
    intro hSame
    rw [hSame, hPred] at hNot
    cases hNot

/-
  A clean sweep of the whole table removes the selected
  entries and no other, and counts them all.
-/
theorem Sweeps.exact
    (hSweeps : Sweeps hash pred refresh c table k n after k')
    (hRefresh : Refreshes pred refresh)
    (hc : c < table.capacity)
    (hInv : table.Inv hash)
    (hClean : table.CleanFrom c pred)
    (hPassed : table.PassedFrom c pred refresh k)
    (hEnd : table.capacity ≤ k') :
    (∀ s', Holds table.capacity after.sessions s' ↔
      ∃ s, Holds table.capacity table.sessions s ∧
        pred s = false ∧ s' = refresh s) ∧
    n + used table.capacity after.sessions =
      used table.capacity table.sessions := by
  induction hSweeps with
  | @done table k =>
      refine ⟨?_, by omega⟩
      intro s'
      constructor
      · rintro ⟨p, hp, hSome⟩
        have hBound := dist_lt hc hp
        rcases hPassed p hp (by omega) s' hSome with
          ⟨hNot, hSame⟩
        exact ⟨s', ⟨p, hp, hSome⟩, hNot, hSame.symm⟩
      · rintro ⟨s, ⟨p, hp, hSome⟩, _, hEq⟩
        have hBound := dist_lt hc hp
        rw [hEq, (hPassed p hp (by omega) s hSome).2]
        exact ⟨p, hp, hSome⟩
  | @pass table mid after k n k' hPass _ ih =>
      have hCapacity := hPass.capacity
      have hRest :=
        ih (by rw [hCapacity]; exact hc) hPass.inv
          (hPass.cleanFrom hRefresh hClean)
          (hPass.passedFrom hRefresh hc rfl hPassed)
          (by rw [hCapacity]; exact hEnd)
      rw [hCapacity, hPass.used_eq] at hRest
      refine ⟨?_, hRest.2⟩
      intro s'
      rw [hRest.1 s', hPass.remains_iff hRefresh s']
  | @delete table after k n k' session hCell hPred _ ih =>
      have hi : (c + k) % table.capacity < table.capacity :=
        Nat.mod_lt _ (by omega)
      have hDist := hPassed.dist_eq hc hCell hPred
      have hThin := tableDeleteAt_thinned hInv hi hCell
      have hCapacity := hThin.frame.capacity
      rw [← hDist] at hPassed
      have hDeleted :=
        tableDeleteAt_exactly hInv hi hCell
          (hClean.runStorable hPassed hi hCell hPred)
      have hPassed' :=
        hDeleted.passedFrom hCapacity hc hPassed
      rw [hDist] at hPassed'
      have hRest :=
        ih (by rw [hCapacity]; exact hc) hThin.inv
          (hDeleted.cleanFrom
            (tableDeleteAt_inside hInv.placed hi hCell) hCapacity
            hi hClean)
          hPassed' (by rw [hCapacity]; exact hEnd)
      rw [hCapacity] at hRest
      have hUsed := hDeleted.used
      refine ⟨?_, by omega⟩
      intro s'
      rw [hRest.1 s', hDeleted.remains_iff hPred s']

------------------------------------------------------------
-- Sweeps That Drop Entries
------------------------------------------------------------

variable {hash : Bytes → Nat} {pred : Session → Bool}
variable {refresh : Session → Session} {c k n k' i a j : Nat}
variable {session e : Session}
variable {table mid after : SessionTable}

/- No sweep invents an entry or counts one twice. -/
theorem Sweeps.inherits
    (hSweeps : Sweeps hash pred refresh c table k n after k')
    (hRefresh : Refreshes pred refresh)
    (hInv : table.Inv hash) :
    Inherits table after ∧
      n + used table.capacity after.sessions ≤
        used table.capacity table.sessions := by
  induction hSweeps with
  | @done table k =>
      exact ⟨Inherits.refl table, by omega⟩
  | @pass table mid after k n k' hPass _ ih =>
      have hRest := ih hPass.inv
      rw [hPass.capacity, hPass.used_eq] at hRest
      exact ⟨(hPass.inherits hRefresh).trans hRest.1, hRest.2⟩
  | @delete table after k n k' session hCell hPred _ ih =>
      have hi : (c + k) % table.capacity < table.capacity :=
        Nat.mod_lt _ hInv.pos
      have hThin := tableDeleteAt_thinned hInv hi hCell
      have hLess := tableDeleteAt_used hash hInv.placed hi hCell
      have hRest := ih hThin.inv
      rw [hThin.frame.capacity] at hRest
      exact ⟨hThin.inherits.trans hRest.1, by omega⟩

/-
  An entry that cannot be put again, behind a selected one
  in slot `a` that the sweep comes to first.
-/
structure Doomed
    (c k : Nat)
    (pred : Session → Bool)
    (table : SessionTable)
    (a j : Nat)
    (e : Session) : Prop where
  a_lt : a < table.capacity
  ahead : k ≤ dist table.capacity c a
  selected :
    ∃ s, table.sessions a = some s ∧ pred s = true
  j_lt : j < table.capacity
  run : Run table.capacity table.sessions a j
  cell : table.sessions j = some e
  drop : ¬ e.Storable
  first :
    pred e = false ∨
      dist table.capacity c a < dist table.capacity c j

/- The sweep cannot pass the selected entry. -/
theorem Doomed.pass
    (hDoomed : Doomed c k pred table a j e)
    (hPass :
      Passes hash pred refresh table
        ((c + k) % table.capacity) mid)
    (hRefresh : Refreshes pred refresh)
    (hc : c < table.capacity) :
    ∃ e', Doomed c (k + 1) pred mid a j e' ∧
      e'.key = e.key := by
  rcases hDoomed with
    ⟨ha, hAhead, ⟨selected, hCellA, hSelected⟩, hj, hRun,
      hCellJ, hDrop, hFirst⟩
  have hCapacity := hPass.capacity
  have hNe : a ≠ (c + k) % table.capacity := by
    intro hEq
    rw [hEq] at hCellA
    rw [hPass.unselected selected hCellA] at hSelected
    cases hSelected
  have hAhead' : k + 1 ≤ dist table.capacity c a := by
    by_contra hLe
    have hk : dist table.capacity c a = k := by omega
    have hBound := dist_lt hc ha
    have hHere :=
      dist_add_mod hc (show k < table.capacity by omega)
    exact hNe (dist_inj hc ha (Nat.mod_lt _ (by omega))
      (hk.trans hHere.symm))
  have hCellA' : mid.sessions a = some selected := by
    rcases hPass.cell_of hCellA with ⟨hEq, _⟩ | ⟨_, hSame⟩
    · exact absurd hEq hNe
    · exact hSame
  have hRun' := (hPass.run_iff a j).mpr hRun
  rw [← hCapacity] at ha hAhead' hj hFirst
  rcases hPass.cell_of hCellJ with ⟨hjp, hNew⟩ | ⟨_, hSame⟩
  · have hRenewed := hRefresh.renewed e
    rw [hjp] at hCellJ
    have hNot := hPass.unselected e hCellJ
    exact ⟨refresh e,
      ⟨ha, hAhead', ⟨selected, hCellA', hSelected⟩, hj,
        hRun', hNew,
        fun h => hDrop (hRenewed.storable_iff.mp h),
        Or.inl (hRefresh.unselected e hNot)⟩,
      hRenewed.key⟩
  · exact ⟨e,
      ⟨ha, hAhead', ⟨selected, hCellA', hSelected⟩, hj,
        hRun', hSame, hDrop, hFirst⟩, rfl⟩

/- The next selected entry is another one. -/
theorem Doomed.ne
    (hDoomed : Doomed c k pred table a j e)
    (hc : c < table.capacity)
    (hCell :
      table.sessions ((c + k) % table.capacity) =
        some session)
    (hPred : pred session = true) :
    (c + k) % table.capacity ≠ j := by
  intro hEq
  have hSame := hDoomed.cell
  rw [← hEq, hCell] at hSame
  cases hSame
  have hFirst := hDoomed.first
  have hAhead := hDoomed.ahead
  -- The sweep would have come to `a` before.
  have hBound := dist_lt hc hDoomed.a_lt
  have hHere :=
    dist_add_mod hc (show k < table.capacity by omega)
  rw [hPred, ← hEq, hHere] at hFirst
  rcases hFirst with hFalse | hLt
  · cases hFalse
  · omega

/- A deletion in another run leaves both entries there. -/
theorem Doomed.delete
    (hDoomed : Doomed c k pred table a j e)
    (hInv : table.Inv hash)
    (hi : i < table.capacity)
    (hCell : table.sessions i = some session)
    (hApart : ¬ Run table.capacity table.sessions i j) :
    Doomed c k pred (table.tableDeleteAt hash i) a j e := by
  rcases hDoomed with
    ⟨ha, hAhead, ⟨selected, hCellA, hSelected⟩, hj, hRun,
      hCellJ, hDrop, hFirst⟩
  have hCapacity :=
    (tableDeleteAt_thinned hInv hi hCell).frame.capacity
  rcases (tableDeleteAt_inside hInv.placed hi hCell).run_outside hi
      ha hj hRun hApart with
    ⟨hSameA, hSameJ, hRun'⟩
  rw [← hCapacity] at ha hAhead hj hFirst hRun'
  exact ⟨ha, hAhead,
    ⟨selected, hSameA.trans hCellA, hSelected⟩, hj, hRun',
    hSameJ.trans hCellJ, hDrop, hFirst⟩

/- A deletion in its own run is the end of it. -/
theorem Doomed.lost
    (hDoomed : Doomed c k pred table a j e)
    (hInv : table.Inv hash)
    (hi : i < table.capacity)
    (hCell : table.sessions i = some session)
    (hij : i ≠ j)
    (hRun : Run table.capacity table.sessions i j)
    (hInherits :
      Inherits (table.tableDeleteAt hash i) after) :
    ∀ s, Holds table.capacity after.sessions s →
      s.key ≠ e.key := by
  intro s hHolds hKey
  have hThin := tableDeleteAt_thinned hInv hi hCell
  have hLost :=
    tableDeleteAt_loses hInv.placed hi hCell hDoomed.j_lt hij hRun
      hDoomed.cell hDoomed.drop
  have hCapacity := hThin.frame.capacity
  have hSame := hInherits.capacity
  rw [hCapacity] at hSame
  rw [← hSame] at hHolds
  rcases hInherits.entries s hHolds with ⟨old, hOld, hRenewed⟩
  rw [hCapacity] at hOld
  rcases hThin.holds old hOld with ⟨q, hq, hSome⟩
  have hEquals : Session.SameKey old e := by
    unfold Session.SameKey
    rw [← hRenewed.key, hKey]
    exact SessionKey.equals_refl _
  have hqj :=
    hInv.distinct q hq j hDoomed.j_lt old e hSome
      hDoomed.cell hEquals
  rw [hqj, hDoomed.cell] at hSome
  cases hSome
  exact hLost hOld

/- It is lost without being counted. -/
theorem Sweeps.drops
    (hSweeps : Sweeps hash pred refresh c table k n after k')
    (hDoomed : Doomed c k pred table a j e)
    (hRefresh : Refreshes pred refresh)
    (hc : c < table.capacity)
    (hInv : table.Inv hash)
    (hEnd : table.capacity ≤ k') :
    (∀ s, Holds table.capacity after.sessions s →
      s.key ≠ e.key) ∧
    n + used table.capacity after.sessions <
      used table.capacity table.sessions := by
  induction hSweeps generalizing e with
  | @done table k =>
      have hBound := dist_lt hc hDoomed.a_lt
      have hAhead := hDoomed.ahead
      omega
  | @pass table mid after k n k' hPass _ ih =>
      have hCapacity := hPass.capacity
      rcases hDoomed.pass hPass hRefresh hc with
        ⟨e', hNext, hKey⟩
      rw [← hCapacity] at hc hEnd
      have hRest := ih hNext hc hPass.inv hEnd
      rw [hCapacity, hPass.used_eq, hKey] at hRest
      exact hRest
  | @delete table after k n k' session hCell hPred hRest ih =>
      have hi : (c + k) % table.capacity < table.capacity :=
        Nat.mod_lt _ hInv.pos
      have hThin := tableDeleteAt_thinned hInv hi hCell
      have hCapacity := hThin.frame.capacity
      by_cases hRun :
          Run table.capacity table.sessions
            ((c + k) % table.capacity) j
      · have hij := hDoomed.ne hc hCell hPred
        have hTwo :=
          tableDeleteAt_used_lost hInv.placed hi hCell hDoomed.j_lt
            hij hRun hDoomed.cell hDoomed.drop
        rcases hRest.inherits hRefresh hThin.inv with
          ⟨hInherits, hUsed⟩
        rw [hCapacity] at hUsed
        exact ⟨hDoomed.lost hInv hi hCell hij hRun
          hInherits, by omega⟩
      · have hLess := tableDeleteAt_used hash hInv.placed hi hCell
        have hNext := hDoomed.delete hInv hi hCell hRun
        rw [← hCapacity] at hc hEnd
        have hIh := ih hNext hc hThin.inv hEnd
        rw [hCapacity] at hIh
        exact ⟨hIh.1, by omega⟩

/- Counting every entry that goes means a clean sweep. -/
theorem Sweeps.cleanFrom
    (hSweeps : Sweeps hash pred refresh c table 0 n after k')
    (hRefresh : Refreshes pred refresh)
    (hc : c < table.capacity)
    (hInv : table.Inv hash)
    (hEnd : table.capacity ≤ k')
    (hCounts :
      n + used table.capacity after.sessions =
        used table.capacity table.sessions) :
    table.CleanFrom c pred := by
  intro a ha s hSome hPred j hj hja hRun e hEntry
  by_contra hDirty
  push Not at hDirty
  have hFirst :
      pred e = false ∨
        dist table.capacity c a <
          dist table.capacity c j := by
    cases hSelected : pred e with
    | false => exact Or.inl rfl
    | true =>
        right
        have hLe := hDirty.2 hSelected
        have hNe :
            dist table.capacity c a ≠
              dist table.capacity c j :=
          fun hEq => hja (dist_inj hc ha hj hEq).symm
        omega
  have hLess :=
    (hSweeps.drops
      ⟨ha, Nat.zero_le _, ⟨s, hSome, hPred⟩, hj, hRun,
        hEntry, hDirty.1, hFirst⟩
      hRefresh hc hInv hEnd).2
  omega

theorem passedFrom_zero
    (c : Nat)
    (pred : Session → Bool)
    (refresh : Session → Session)
    (table : SessionTable) :
    table.PassedFrom c pred refresh 0 :=
  fun _ _ hLt => absurd hLt (Nat.not_lt_zero _)

end SessionTable

end QuicSniRouter
