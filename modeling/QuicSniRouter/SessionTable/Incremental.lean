import QuicSniRouter.SessionTable.Filters

/-
  The incremental expiry sweep against the full one.  Its
  cursor starts anywhere and persists between calls; two
  table lengths of scanned slots are enough for it to pass
  every slot, since a scan that does not pass one deletes an
  entry.

  Main declarations:
    * `SessionTable.expireLoop_sweeps`
    * `SessionTable.expireCalls`
    * `SessionTable.outcome`
    * `SessionTable.incremental_sweep_is_full_sweep`
-/

------------------------------------------------------------
-- The Incremental Sweep
------------------------------------------------------------

namespace QuicSniRouter

open LinearProbing

namespace SessionTable

variable {hash : Bytes → Nat} {table : SessionTable}
variable {pred other : Session → Bool}
variable {refresh : Session → Session} {P : Session → Prop}

/- What the incremental sweep deletes. -/
def expires
    (now idleTimeoutSeconds : Int)
    (keep : Session → Bool)
    (session : Session) : Bool :=
  idle now idleTimeoutSeconds session && !keep session

/- What it leaves of an entry that it does not delete. -/
def keptAlive
    (now idleTimeoutSeconds : Int)
    (keep : Session → Bool)
    (session : Session) : Session :=
  if idle now idleTimeoutSeconds session && keep session then
    { session with lastSeen := now }
  else
    session

/-
  An entry of the table that is kept and is idle even with
  its new time stamp is kept again.  With a positive timeout
  there is none.
-/
def KeepsAgain
    (now idleTimeoutSeconds : Int)
    (keep : Session → Bool)
    (table : SessionTable) : Prop :=
  ∀ s, Holds table.capacity table.sessions s →
    idle now idleTimeoutSeconds s = true →
      keep s = true →
        idle now idleTimeoutSeconds
            { s with lastSeen := now } = true →
          keep { s with lastSeen := now } = true

/- The same for whatever session the callback is given. -/
def Steady
    (now idleTimeoutSeconds : Int)
    (keep : Session → Bool) : Prop :=
  ∀ s, idle now idleTimeoutSeconds s = true →
    keep s = true →
      idle now idleTimeoutSeconds
          { s with lastSeen := now } = true →
        keep { s with lastSeen := now } = true

theorem keepsAgain_of_pos
    {now idleTimeoutSeconds : Int}
    (keep : Session → Bool)
    (hTimeout : 0 < idleTimeoutSeconds) :
    table.KeepsAgain now idleTimeoutSeconds keep := by
  intro s _ _ _ hIdle
  unfold idle at hIdle
  rw [decide_eq_true_eq] at hIdle
  dsimp only at hIdle
  omega

theorem keptAlive_refreshes
    {now idleTimeoutSeconds : Int}
    {keep : Session → Bool}
    (hAgain : Steady now idleTimeoutSeconds keep) :
    Refreshes (expires now idleTimeoutSeconds keep)
      (keptAlive now idleTimeoutSeconds keep) where
  renewed := by
    intro s
    unfold keptAlive
    split
    · exact ⟨rfl, rfl, rfl, rfl⟩
    · exact Renewed.refl s
  again := by
    intro s
    unfold keptAlive
    by_cases hKeep :
        (idle now idleTimeoutSeconds s && keep s) = true
    · rw [if_pos hKeep]
      split
      · rfl
      · rfl
    · rw [if_neg hKeep, if_neg hKeep]
  unselected := by
    intro s hNot
    unfold expires keptAlive at *
    by_cases hKeep :
        (idle now idleTimeoutSeconds s && keep s) = true
    · rcases Bool.and_eq_true_iff.mp hKeep with ⟨hIdle, hKept⟩
      rw [if_pos hKeep]
      cases hStill :
          idle now idleTimeoutSeconds
            { s with lastSeen := now } with
      | false => rfl
      | true =>
          rw [hAgain s hIdle hKept hStill]
          rfl
    · rw [if_neg hKeep]
      exact hNot

theorem advanceCursor_sessions
    (table : SessionTable) :
    table.advanceCursor.sessions = table.sessions ∧
      table.advanceCursor.capacity = table.capacity ∧
      table.advanceCursor.expireCursor =
        next table.capacity table.expireCursor := by
  unfold advanceCursor
  dsimp only
  split
  · exact ⟨rfl, rfl, rfl⟩
  · exact ⟨rfl, rfl, rfl⟩

/- Moving on from a slot that is left as it is. -/
theorem advanceCursor_passes
    (hInv : table.Inv hash)
    (hLeft :
      ∀ s, table.sessions table.expireCursor = some s →
        pred s = false ∧ refresh s = s) :
    Passes hash pred refresh table table.expireCursor
      table.advanceCursor := by
  rcases advanceCursor_sessions table with
    ⟨hSessions, hCapacity, _⟩
  exact {
    capacity := hCapacity
    inv := advanceCursor_inv hash hInv
    unselected := fun s hSome => (hLeft s hSome).1
    vacant := fun _ => hSessions
    filled := by
      intro s hSome
      rw [hSessions, (hLeft s hSome).2]
      funext q
      by_cases hq : q = table.expireCursor
      · rw [hq, fill_self, hSome]
      · rw [fill_of_ne _ _ hq] }

/- Moving on from an entry with a new time stamp. -/
theorem touched_passes
    {session : Session}
    {now : Int}
    (hInv : table.Inv hash)
    (hCell : table.sessions table.expireCursor = some session)
    (hNot : pred session = false)
    (hRefresh :
      refresh session = { session with lastSeen := now }) :
    let after :=
      (table.touch table.expireCursor now).advanceCursor
    Passes hash pred refresh table table.expireCursor after ∧
      after.expireCursor =
        next table.capacity table.expireCursor := by
  have hTouch := touch_sessions now hCell
  have hSame := touch_inherits table table.expireCursor now
  have hMoved :=
    advanceCursor_sessions
      (table.touch table.expireCursor now)
  have hCursor :
      (table.touch table.expireCursor now).expireCursor =
        table.expireCursor := by
    unfold touch
    rw [hCell]
  rw [hTouch, hSame.capacity, hCursor] at hMoved
  refine ⟨?_, hMoved.2.2⟩
  exact {
    capacity := hMoved.2.1
    inv := advanceCursor_inv hash
      (touch_inv hash table.expireCursor now hInv)
    unselected := by
      intro s hSome
      rw [hCell] at hSome
      cases hSome
      exact hNot
    vacant := by
      intro hNone
      rw [hCell] at hNone
      cases hNone
    filled := by
      intro s hSome
      rw [hCell] at hSome
      cases hSome
      rw [hRefresh]
      exact hMoved.1 }

/- One scanned slot is a deletion or a slot passed. -/
theorem expireStep_cases
    (now idleTimeoutSeconds : Int)
    (keep : Session → Bool)
    (hInv : table.Inv hash) :
    (∃ session,
      table.sessions table.expireCursor = some session ∧
      expires now idleTimeoutSeconds keep session = true ∧
      expireStep hash now idleTimeoutSeconds keep table =
        (1, table.tableDeleteAt hash table.expireCursor)) ∨
    ∃ after,
      expireStep hash now idleTimeoutSeconds keep table =
        (0, after) ∧
      Passes hash (expires now idleTimeoutSeconds keep)
        (keptAlive now idleTimeoutSeconds keep) table
        table.expireCursor after ∧
      after.expireCursor =
        next table.capacity table.expireCursor := by
  have hNext := (advanceCursor_sessions table).2.2
  unfold expireStep
  cases hCell : table.sessions table.expireCursor with
  | none =>
      refine Or.inr ⟨_, rfl, ?_, hNext⟩
      apply advanceCursor_passes hInv
      intro s hSome
      rw [hCell] at hSome
      cases hSome
  | some session =>
      dsimp only
      by_cases hIdle :
          idle now idleTimeoutSeconds session = true
      · rw [if_pos hIdle]
        by_cases hKeep : keep session = true
        · rw [if_pos hKeep]
          exact Or.inr ⟨_, rfl,
            touched_passes hInv hCell
              (by simp [expires, hKeep])
              (by simp [keptAlive, hIdle, hKeep])⟩
        · left
          refine ⟨session, rfl, ?_, by rw [if_neg hKeep]⟩
          simp [expires, hIdle, hKeep]
      · rw [if_neg hIdle]
        refine Or.inr ⟨_, rfl, ?_, hNext⟩
        apply advanceCursor_passes hInv
        intro s hSome
        rw [hCell] at hSome
        cases hSome
        simp [expires, keptAlive, hIdle]

/- What holds of every entry and of its renewal stays true. -/
theorem expireStep_entries
    {now idleTimeoutSeconds : Int}
    (keep : Session → Bool)
    (hTouch : ∀ s, P s → P { s with lastSeen := now })
    (hInv : table.Inv hash)
    (hAll : table.Entries P) :
    (expireStep hash now idleTimeoutSeconds keep
      table).2.Entries P := by
  rcases expireStep_cases now idleTimeoutSeconds keep
      hInv with
    ⟨session, hCell, _, hStep⟩ | ⟨after, hStep, hPass, _⟩
  · have hThin :=
      tableDeleteAt_thinned hInv hInv.cursor hCell
    rw [hStep]
    intro s hHolds
    rw [hThin.frame.capacity] at hHolds
    exact hAll s (hThin.holds s hHolds)
  · rw [hStep]
    rintro s ⟨q, hq, hSome⟩
    rw [hPass.capacity] at hq
    cases hCell : table.sessions table.expireCursor with
    | none =>
        rw [hPass.vacant hCell] at hSome
        exact hAll s ⟨q, hq, hSome⟩
    | some session =>
        have hOld := hAll session ⟨_, hInv.cursor, hCell⟩
        rw [hPass.filled session hCell] at hSome
        rcases fill_eq_some hSome with ⟨_, hEq⟩ | ⟨_, hSame⟩
        · rw [hEq]
          unfold keptAlive
          split
          · exact hTouch session hOld
          · exact hOld
        · exact hAll s ⟨q, hq, hSame⟩

/- The sweep asks its callback about such entries only. -/
theorem expireLoop_congr
    {now idleTimeoutSeconds : Int}
    {keep : Session → Bool}
    (hTouch : ∀ s, P s → P { s with lastSeen := now })
    (hSame : ∀ s, P s → keep s = other s)
    (scans : Nat)
    (hInv : table.Inv hash)
    (hAll : table.Entries P) :
    expireLoop hash now idleTimeoutSeconds keep scans table =
      expireLoop hash now idleTimeoutSeconds other scans
        table := by
  induction scans generalizing table with
  | zero => rfl
  | succ scans ih =>
      have hStep :
          expireStep hash now idleTimeoutSeconds keep table =
            expireStep hash now idleTimeoutSeconds other
              table := by
        unfold expireStep
        cases hCell : table.sessions table.expireCursor with
        | none => rfl
        | some session =>
            dsimp only
            rw [hSame session
              (hAll session ⟨_, hInv.cursor, hCell⟩)]
      have hRest :=
        ih (expireStep_inv hash now idleTimeoutSeconds keep
          hInv)
          (expireStep_entries keep hTouch hInv hAll)
      unfold expireLoop
      dsimp only
      rw [hRest, hStep]

/- Each scan passes a slot or deletes an entry. -/
theorem expireLoop_sweeps
    (now idleTimeoutSeconds : Int)
    (keep : Session → Bool)
    (scans : Nat)
    {table : SessionTable}
    {c k : Nat}
    (hInv : table.Inv hash)
    (hCursor :
      table.expireCursor = (c + k) % table.capacity) :
    ∃ k',
      k' +
          (expireLoop hash now idleTimeoutSeconds keep scans
            table).1 = k + scans ∧
      Sweeps hash (expires now idleTimeoutSeconds keep)
        (keptAlive now idleTimeoutSeconds keep) c table k
        (expireLoop hash now idleTimeoutSeconds keep scans
          table).1
        (expireLoop hash now idleTimeoutSeconds keep scans
          table).2 k' := by
  induction scans generalizing table k with
  | zero => exact ⟨k, rfl, Sweeps.done⟩
  | succ scans ih =>
      unfold expireLoop
      dsimp only
      rcases expireStep_cases now idleTimeoutSeconds keep
          hInv with
        ⟨session, hCell, hExpires, hStep⟩ |
          ⟨after, hStep, hPasses, hNext⟩
      · have hThin :=
          tableDeleteAt_thinned hInv hInv.cursor hCell
        rw [hStep]
        dsimp only
        have hRest :=
          @ih (table.tableDeleteAt hash table.expireCursor)
            k hThin.inv (by
              rw [hThin.frame.expireCursor,
                hThin.frame.capacity]
              exact hCursor)
        rcases hRest with ⟨k', hCount, hSweeps⟩
        refine ⟨k', by omega, ?_⟩
        rw [Nat.add_comm 1]
        rw [hCursor] at hCell hSweeps ⊢
        exact Sweeps.delete hCell hExpires hSweeps
      · rw [hStep]
        dsimp only
        have hRest :=
          @ih after (k + 1) hPasses.inv (by
            rw [hNext, hPasses.capacity, hCursor]
            unfold next
            rw [Nat.mod_add_mod, Nat.add_assoc])
        rcases hRest with ⟨k', hCount, hSweeps⟩
        rw [Nat.zero_add]
        rw [hCursor] at hPasses
        exact ⟨k', by omega, Sweeps.pass hPasses hSweeps⟩

variable {now idleTimeoutSeconds : Int}
variable {keep : Session → Bool}

/- Calls with nothing in between, and their total. -/
def expireCalls
    (hash : Bytes → Nat)
    (now idleTimeoutSeconds : Int)
    (keep : Session → Bool) :
    List Nat → SessionTable → Nat × SessionTable
| [], table => (0, table)
| scanBudget :: budgets, table =>
    let first :=
      table.expireIncremental hash now idleTimeoutSeconds
        scanBudget keep
    let rest :=
      expireCalls hash now idleTimeoutSeconds keep budgets
        first.2
    (first.1 + rest.1, rest.2)

theorem expireLoop_add
    (a b : Nat)
    (table : SessionTable) :
    expireLoop hash now idleTimeoutSeconds keep (a + b)
        table =
      ((expireLoop hash now idleTimeoutSeconds keep a
          table).1 +
        (expireLoop hash now idleTimeoutSeconds keep b
          (expireLoop hash now idleTimeoutSeconds keep a
            table).2).1,
      (expireLoop hash now idleTimeoutSeconds keep b
        (expireLoop hash now idleTimeoutSeconds keep a
          table).2).2) := by
  induction a generalizing table with
  | zero => simp [expireLoop]
  | succ a ih =>
      simp only [Nat.succ_add, expireLoop, ih, Nat.add_assoc]

/- The slots that the calls scan, all together. -/
def totalScans
    (table : SessionTable)
    (budgets : List Nat) : Nat :=
  (budgets.map (fun b => min b table.capacity)).sum

variable (budgets : List Nat)

/- The calls add up to one long one. -/
theorem expireCalls_eq
    (hInv : table.Inv hash) :
    expireCalls hash now idleTimeoutSeconds keep budgets
        table =
      expireLoop hash now idleTimeoutSeconds keep
        (table.totalScans budgets) table := by
  induction budgets generalizing table with
  | nil => rfl
  | cons scanBudget budgets ih =>
      have hFirst :=
        expireIncremental_inv hash now idleTimeoutSeconds
          scanBudget keep hInv
      have hCapacity :=
        (expireIncremental_inherits now idleTimeoutSeconds
          scanBudget keep hInv).capacity
      have hScans :
          (table.expireIncremental hash now
              idleTimeoutSeconds scanBudget
              keep).2.totalScans budgets =
            table.totalScans budgets := by
        unfold totalScans
        rw [hCapacity]
      have hSum :
          table.totalScans (scanBudget :: budgets) =
            min scanBudget table.capacity +
              table.totalScans budgets := by
        unfold totalScans
        rw [List.map_cons, List.sum_cons]
      unfold expireCalls
      dsimp only
      rw [ih hFirst, hScans, hSum, expireLoop_add]
      rfl

theorem expireCalls_inv
    (hInv : table.Inv hash) :
    (expireCalls hash now idleTimeoutSeconds keep budgets
      table).2.Inv hash := by
  rw [expireCalls_eq budgets hInv]
  exact expireLoop_inv hash now idleTimeoutSeconds keep _ hInv

/- Two table lengths of scans pass every slot. -/
theorem expireCalls_sweeps
    (hInv : table.Inv hash)
    (hAgain : Steady now idleTimeoutSeconds keep)
    (hBudget :
      2 * table.capacity ≤ table.totalScans budgets) :
    ∃ k', table.capacity ≤ k' ∧
      Sweeps hash (expires now idleTimeoutSeconds keep)
        (keptAlive now idleTimeoutSeconds keep)
        table.expireCursor table 0
        (expireCalls hash now idleTimeoutSeconds keep
          budgets table).1
        (expireCalls hash now idleTimeoutSeconds keep
          budgets table).2 k' := by
  rw [expireCalls_eq budgets hInv]
  rcases @expireLoop_sweeps hash now idleTimeoutSeconds keep
      (table.totalScans budgets) table table.expireCursor 0
      hInv (by
        rw [Nat.add_zero, Nat.mod_eq_of_lt hInv.cursor]) with
    ⟨k', hCount, hSweeps⟩
  have hDeleted :=
    (hSweeps.inherits (keptAlive_refreshes hAgain) hInv).2
  have hUsed := used_le table.capacity table.sessions
  exact ⟨k', by omega, hSweeps⟩

/- The number of entries is that of the used slots. -/
theorem expireCalls_count
    (hInv : table.Inv hash) :
    (expireCalls hash now idleTimeoutSeconds keep budgets
        table).2.count =
      used table.capacity
        (expireCalls hash now idleTimeoutSeconds keep
          budgets table).2.sessions := by
  have hCapacity :
      (expireCalls hash now idleTimeoutSeconds keep budgets
        table).2.capacity = table.capacity := by
    rw [expireCalls_eq budgets hInv]
    exact (expireLoop_inherits now idleTimeoutSeconds keep
      _ hInv).capacity
  rw [(expireCalls_inv budgets hInv).count, hCapacity]

------------------------------------------------------------
-- The Two Sweeps
------------------------------------------------------------

/- What becomes of an entry. -/
def outcome
    (now idleTimeoutSeconds : Int)
    (keep : Session → Bool)
    (session : Session) : Option Session :=
  if idle now idleTimeoutSeconds session then
    if keep session then
      some { session with lastSeen := now }
    else
      none
  else
    some session

theorem outcome_eq_some
    {s s' : Session} :
    outcome now idleTimeoutSeconds keep s = some s' ↔
      expires now idleTimeoutSeconds keep s = false ∧
        s' = keptAlive now idleTimeoutSeconds keep s := by
  unfold outcome expires keptAlive
  cases hIdle : idle now idleTimeoutSeconds s with
  | false => simp [eq_comm]
  | true =>
      cases hKeep : keep s with
      | false => simp
      | true => simp [eq_comm]

/- A map that arises entry by entry. -/
theorem entryOf_bind
    {after : SessionTable}
    (f : Session → Option Session)
    (hInv : table.Inv hash)
    (hAfter : after.Inv hash)
    (hCapacity : after.capacity = table.capacity)
    (hKey : ∀ s s', f s = some s' → s'.key = s.key)
    (hHolds :
      ∀ s', Holds table.capacity after.sessions s' ↔
        ∃ s, Holds table.capacity table.sessions s ∧
          f s = some s')
    (key : SessionKey) :
    after.entryOf hash key =
      (table.entryOf hash key).bind f := by
  apply Option.ext
  intro s'
  rw [entryOf_eq_some hAfter, hCapacity, hHolds s',
    Option.bind_eq_some_iff]
  constructor
  · rintro ⟨hValid, ⟨s, hOld, hSome⟩, hEquals⟩
    rw [hKey s s' hSome] at hEquals
    exact ⟨s, (entryOf_eq_some hInv).mpr
      ⟨hValid, hOld, hEquals⟩, hSome⟩
  · rintro ⟨s, hEntry, hSome⟩
    rcases (entryOf_eq_some hInv).mp hEntry with
      ⟨hValid, hOld, hEquals⟩
    rw [hKey s s' hSome]
    exact ⟨hValid, ⟨s, hOld, hSome⟩, hEquals⟩

/- A clean incremental sweep, entry by entry. -/
theorem expireCalls_clean
    (hInv : table.Inv hash)
    (hAgain : Steady now idleTimeoutSeconds keep)
    (hBudget : 2 * table.capacity ≤ table.totalScans budgets)
    (hClean :
      table.CleanFrom table.expireCursor
        (expires now idleTimeoutSeconds keep)) :
    (∀ key,
      (expireCalls hash now idleTimeoutSeconds keep budgets
          table).2.entryOf hash key =
        (table.entryOf hash key).bind
          (outcome now idleTimeoutSeconds keep)) ∧
    (expireCalls hash now idleTimeoutSeconds keep budgets
          table).1 +
        (expireCalls hash now idleTimeoutSeconds keep
          budgets table).2.count =
      table.count := by
  have hRefresh := keptAlive_refreshes hAgain
  rcases expireCalls_sweeps budgets hInv hAgain hBudget with
    ⟨k', hEnd, hSweeps⟩
  rcases hSweeps.exact hRefresh hInv.cursor hInv hClean
      (passedFrom_zero _ _ _ _) hEnd with
    ⟨hHolds, hCounts⟩
  have hInherits := (hSweeps.inherits hRefresh hInv).1
  rw [expireCalls_count budgets hInv, hInv.count]
  refine ⟨?_, hCounts⟩
  apply entryOf_bind _ hInv (expireCalls_inv budgets hInv)
    hInherits.capacity
  · intro s s' hSome
    rw [(outcome_eq_some.mp hSome).2]
    exact (hRefresh.renewed s).key
  · intro s'
    rw [hHolds s']
    simp only [outcome_eq_some]

theorem expires_none
    (now idleTimeoutSeconds : Int) :
    expires now idleTimeoutSeconds (fun _ => false) =
      idle now idleTimeoutSeconds := by
  funext s
  simp [expires]

theorem steady_none
    (now idleTimeoutSeconds : Int) :
    Steady now idleTimeoutSeconds (fun _ => false) := by
  intro s _ hKeep
  cases hKeep

/- The counts add up where the sweep is clean. -/
theorem expireCalls_counts_iff
    (hInv : table.Inv hash)
    (hAgain : Steady now idleTimeoutSeconds keep)
    (hBudget :
      2 * table.capacity ≤ table.totalScans budgets) :
    (expireCalls hash now idleTimeoutSeconds keep budgets
          table).1 +
        (expireCalls hash now idleTimeoutSeconds keep
          budgets table).2.count =
      table.count ↔
    table.CleanFrom table.expireCursor
      (expires now idleTimeoutSeconds keep) := by
  constructor
  · intro hCounts
    rw [expireCalls_count budgets hInv, hInv.count]
      at hCounts
    rcases expireCalls_sweeps budgets hInv hAgain hBudget with
      ⟨k', hEnd, hSweeps⟩
    exact hSweeps.cleanFrom (keptAlive_refreshes hAgain)
      hInv.cursor hInv hEnd hCounts
  · intro hClean
    exact (expireCalls_clean budgets hInv hAgain hBudget
      hClean).2

/-
  A callback that is steady on the entries of the table is,
  for its sweep, as good as one that always is.
-/
theorem KeepsAgain.steady
    (hAgain : table.KeepsAgain now idleTimeoutSeconds keep)
    (hInv : table.Inv hash) :
    ∃ other, Steady now idleTimeoutSeconds other ∧
      table.Entries (fun s => keep s = other s) ∧
      ∀ scans,
        expireLoop hash now idleTimeoutSeconds keep scans
            table =
          expireLoop hash now idleTimeoutSeconds other scans
            table := by
  classical
  let known := fun s : Session =>
    Holds table.capacity table.sessions s ∨
      ∃ t, Holds table.capacity table.sessions t ∧
        s = { t with lastSeen := now }
  have hSame :
      ∀ s, known s → keep s = (keep s && decide (known s)) := by
    intro s hKnown
    rw [decide_eq_true hKnown, Bool.and_true]
  refine ⟨fun s => keep s && decide (known s), ?_,
    fun s hHolds => hSame s (Or.inl hHolds), fun scans =>
      expireLoop_congr (P := known) ?_ hSame scans hInv
        (fun _ => Or.inl)⟩
  · intro s hIdle hKept hStill
    rcases Bool.and_eq_true_iff.mp hKept with ⟨hKeep, hKnown⟩
    rcases of_decide_eq_true hKnown with
      hHolds | ⟨t, hHolds, hEq⟩
    · exact (hSame _ (Or.inr ⟨s, hHolds, rfl⟩)).symm.trans
        (hAgain s hHolds hIdle hKeep hStill)
    · subst hEq
      exact hKept
  · rintro s (hHolds | ⟨t, hHolds, hEq⟩)
    · exact Or.inr ⟨s, hHolds, rfl⟩
    · subst hEq
      exact Or.inr ⟨t, hHolds, rfl⟩

/- What is asked of the entries of a table only. -/
theorem cleanFrom_congr
    {c : Nat}
    (hSame : table.Entries (fun s => pred s = other s)) :
    table.CleanFrom c pred ↔ table.CleanFrom c other := by
  unfold CleanFrom
  refine forall₂_congr fun a ha => forall₂_congr fun s hs => ?_
  rw [hSame s ⟨a, ha, hs⟩]
  refine imp_congr_right fun _ => forall₂_congr fun j hj =>
    forall₂_congr fun _ _ => forall₂_congr fun e he => ?_
  rw [hSame e ⟨j, hj, he⟩]

/- The sweep with a callback, entry by entry and in number. -/
theorem expireCalls_keeping_iff
    (hInv : table.Inv hash)
    (hAgain : table.KeepsAgain now idleTimeoutSeconds keep)
    (hBudget :
      2 * table.capacity ≤ table.totalScans budgets) :
    ((∀ key,
      (expireCalls hash now idleTimeoutSeconds keep budgets
          table).2.entryOf hash key =
        (table.entryOf hash key).bind
          (outcome now idleTimeoutSeconds keep)) ∧
    (expireCalls hash now idleTimeoutSeconds keep budgets
          table).1 +
        (expireCalls hash now idleTimeoutSeconds keep
          budgets table).2.count =
      table.count) ↔
    table.CleanFrom table.expireCursor
      (expires now idleTimeoutSeconds keep) := by
  rcases hAgain.steady hInv with
    ⟨other, hSteady, hSame, hLoop⟩
  have hExpires :
      table.Entries (fun s =>
        expires now idleTimeoutSeconds keep s =
          expires now idleTimeoutSeconds other s) := by
    intro s hHolds
    unfold expires
    rw [hSame s hHolds]
  have hOutcome :
      ∀ key,
        (table.entryOf hash key).bind
            (outcome now idleTimeoutSeconds keep) =
          (table.entryOf hash key).bind
            (outcome now idleTimeoutSeconds other) := by
    intro key
    cases hEntry : table.entryOf hash key with
    | none => rfl
    | some s =>
        have hHolds := ((entryOf_eq_some hInv).mp hEntry).2.1
        simp only [Option.bind_some, outcome, hSame s hHolds]
  rw [expireCalls_eq budgets hInv, hLoop,
    ← expireCalls_eq budgets hInv, cleanFrom_congr hExpires]
  simp only [hOutcome]
  constructor
  · intro hBoth
    exact (expireCalls_counts_iff budgets hInv hSteady
      hBudget).mp hBoth.2
  · exact expireCalls_clean budgets hInv hSteady hBudget

/- The map of a clean full sweep. -/
theorem expire_entryOf
    (hInv : table.Inv hash)
    (hClean : table.CleanFrom 0 (idle now idleTimeoutSeconds))
    (key : SessionKey) :
    (table.expire hash now idleTimeoutSeconds).2.entryOf
        hash key =
      (table.entryOf hash key).bind
        (outcome now idleTimeoutSeconds
          (fun _ => false)) := by
  rcases (expire_filters_iff now idleTimeoutSeconds).mpr
      ((evictIf_filters hInv).mpr hClean) with
    ⟨hRestricts, _⟩
  apply Option.ext
  intro s'
  rw [hRestricts key s', Option.bind_eq_some_iff]
  simp only [outcome_eq_some, expires_none]
  unfold keptAlive
  simp only [Bool.and_false, Bool.false_eq_true, if_false,
    Bool.not_eq_true]
  constructor
  · rintro ⟨hEntry, hNot⟩
    exact ⟨s', hEntry, hNot, rfl⟩
  · rintro ⟨s, hEntry, hNot, hEq⟩
    rw [hEq]
    exact ⟨hEntry, hNot⟩

/-
  On every table that operations build, with the cursor
  wherever they left it: the counts of the calls add up
  exactly when the sweep drops no entry; the map is then
  that of the full sweep, if that one is clean as well; and
  with a callback kept entries stay, with a new time stamp,
  all others are as without it and the counts add up, again
  exactly when no entry is dropped.
-/
theorem incremental_sweep_is_full_sweep
    (hash : Bytes → Nat)
    (capacity : Nat)
    (start : SessionTable)
    (ops : List Op)
    (now idleTimeoutSeconds : Int)
    (budgets : List Nat)
    (hStart : init capacity = .ok start)
    (hBudget :
      2 * (ops.foldl (apply hash) start).capacity ≤
        (ops.foldl (apply hash) start).totalScans budgets) :
    let table := ops.foldl (apply hash) start
    let swept :=
      expireCalls hash now idleTimeoutSeconds
        (fun _ => false) budgets table
    (swept.1 + swept.2.count = table.count ↔
      table.CleanFrom table.expireCursor
        (idle now idleTimeoutSeconds)) ∧
    (table.CleanFrom table.expireCursor
        (idle now idleTimeoutSeconds) →
      table.CleanFrom 0 (idle now idleTimeoutSeconds) →
        ∀ key, swept.2.entryOf hash key =
          (table.expire hash now
            idleTimeoutSeconds).2.entryOf hash key) ∧
    ∀ keep, table.KeepsAgain now idleTimeoutSeconds keep →
      let kept :=
        expireCalls hash now idleTimeoutSeconds keep budgets
          table
      ((∀ key, kept.2.entryOf hash key =
        (table.entryOf hash key).bind
          (outcome now idleTimeoutSeconds keep)) ∧
      kept.1 + kept.2.count = table.count ↔
        table.CleanFrom table.expireCursor
          (expires now idleTimeoutSeconds keep)) := by
  intro table swept
  have hInv : table.Inv hash :=
    run_inv hash ops (init_inv hStart)
  have hNone := steady_none now idleTimeoutSeconds
  refine ⟨?_, ?_, ?_⟩
  · rw [← expires_none]
    exact expireCalls_counts_iff budgets hInv hNone hBudget
  · intro hClean hFull key
    rw [← expires_none] at hClean
    rw [expire_entryOf hInv hFull key]
    exact (expireCalls_clean budgets hInv hNone hBudget
      hClean).1 key
  · intro keep hAgain
    exact expireCalls_keeping_iff budgets hInv hAgain hBudget

/-
  Two calls over the table with the zeroed backend: they
  report one entry, and two are gone.
-/
theorem zeroed_entry_uncounted :
    2 * zeroedTable.capacity ≤ zeroedTable.totalScans [2, 2] ∧
      (expireCalls idHash 11 10 (fun _ => false) [2, 2]
            zeroedTable).1 +
          (expireCalls idHash 11 10 (fun _ => false) [2, 2]
            zeroedTable).2.count ≠
        zeroedTable.count := by
  decide +kernel

/- With copies both are reported, or one of them is kept. -/
theorem copied_entries_counted :
    (∀ key,
      (expireCalls idHash 12 10 (fun _ => false) [2, 1, 7]
          copiedTable).2.entryOf idHash key =
        (copiedTable.expire idHash 12 10).2.entryOf idHash
          key) ∧
      (expireCalls idHash 12 10
        (fun s => s.key.equals (idKey 3)) [2, 1, 7]
          copiedTable).2.entryOf idHash (idKey 3) =
        (copiedTable.entryOf idHash (idKey 3)).bind
          (outcome 12 10
            (fun s => s.key.equals (idKey 3))) := by
  have hAll := copiedTable_storable
  have hBudget :
      2 * copiedTable.capacity ≤
        copiedTable.totalScans [2, 1, 7] := by
    decide +kernel
  rcases incremental_sweep_is_full_sweep idHash 2
      (emptyTable 2) copyingOps 12 10 [2, 1, 7] rfl
      hBudget with
    ⟨_, hMaps, hKeep⟩
  exact ⟨hMaps (Entries.cleanFrom _ hAll)
      (Entries.cleanFrom _ hAll),
    ((hKeep (fun s => s.key.equals (idKey 3))
      (keepsAgain_of_pos _ (by decide))).mpr
      (Entries.cleanFrom _ hAll)).1 (idKey 3)⟩

end SessionTable

end QuicSniRouter
