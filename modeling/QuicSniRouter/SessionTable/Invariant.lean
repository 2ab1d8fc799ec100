import QuicSniRouter.SessionTable.Basic

/-
  The representation invariant of the session table, and
  that insertion, eviction and deletion keep it.

  Main declarations:
    * `SessionTable.Inv`
    * `SessionTable.get_eq_some`
    * `SessionTable.tableDeleteAt_spec`
    * `SessionTable.putInternal_inv`
-/

------------------------------------------------------------
-- Key Equality
------------------------------------------------------------

namespace QuicSniRouter

namespace SessionKey

variable {a b : SessionKey}

/- Key equality, field by field. -/
theorem equals_iff :
    a.equals b = true ↔
      a.hasTuple = b.hasTuple ∧ a.hasCids = b.hasCids ∧
      a.client.len = b.client.len ∧
      a.dcid.length = b.dcid.length ∧
      a.scid.length = b.scid.length ∧
      (a.hasTuple = true → a.client.bytes = b.client.bytes) ∧
      (a.hasCids = true →
        a.dcid = b.dcid ∧ a.scid = b.scid) := by
  simp only [equals, Bool.and_eq_true, beq_iff_eq,
    Bool.or_eq_true, Bool.not_eq_true', and_assoc]
  cases a.hasTuple <;> cases a.hasCids <;> simp

@[simp] theorem equals_refl
    (a : SessionKey) :
    a.equals a = true := by
  rw [equals_iff]
  simp

theorem equals_symm
    (h : a.equals b = true) :
    b.equals a = true := by
  rw [equals_iff] at h ⊢
  rcases h with
    ⟨hTuple, hCids, hLen, hDcid, hScid, hAddr, hIds⟩
  rw [hTuple] at hAddr
  rw [hCids] at hIds
  exact ⟨hTuple.symm, hCids.symm, hLen.symm, hDcid.symm,
    hScid.symm, fun hb => (hAddr hb).symm,
    fun hb => ⟨(hIds hb).1.symm, (hIds hb).2.symm⟩⟩

theorem equals_trans
    {c : SessionKey}
    (hab : a.equals b = true)
    (hbc : b.equals c = true) :
    a.equals c = true := by
  rw [equals_iff] at hab hbc ⊢
  rcases hab with
    ⟨hTuple, hCids, hLen, hDcid, hScid, hAddr, hIds⟩
  rcases hbc with
    ⟨hTuple', hCids', hLen', hDcid', hScid', hAddr', hIds'⟩
  refine ⟨hTuple.trans hTuple', hCids.trans hCids',
    hLen.trans hLen', hDcid.trans hDcid',
    hScid.trans hScid', ?_, ?_⟩
  · intro ha
    exact (hAddr ha).trans (hAddr' (hTuple ▸ ha))
  · intro ha
    have hb := hIds' (hCids ▸ ha)
    exact ⟨(hIds ha).1.trans hb.1, (hIds ha).2.trans hb.2⟩

/- Equal keys are hashed over the same bytes. -/
theorem serialize_eq
    (h : a.equals b = true) :
    a.serialize = b.serialize := by
  rw [equals_iff] at h
  rcases h with
    ⟨hTuple, hCids, hLen, _hDcid, _hScid, hAddr, hIds⟩
  unfold serialize
  rw [← hTuple, ← hCids]
  congr 1
  · by_cases hFlag : a.hasTuple = true
    · rw [hLen, hAddr hFlag]
    · simp [hFlag]
  · by_cases hFlag : a.hasCids = true
    · rw [(hIds hFlag).1, (hIds hFlag).2]
    · simp [hFlag]

/- Equal keys have one hash. -/
theorem hash_eq
    (hash : Bytes → Nat)
    (capacity : Nat)
    (h : a.equals b = true) :
    a.hash hash capacity = b.hash hash capacity := by
  unfold SessionKey.hash
  rw [serialize_eq h]

end SessionKey

open LinearProbing

namespace Session

/- The slot where the probe walk of an entry starts. -/
def home
    (hash : Bytes → Nat)
    (capacity : Nat)
    (session : Session) : Nat :=
  session.key.hash hash capacity

/- Two entries of one key. -/
def SameKey
    (a b : Session) : Prop :=
  a.key.equals b.key = true

/- Entries that a reinsertion accepts. -/
def Storable
    (session : Session) : Prop :=
  session.key.valid = true ∧ session.backend.valid = true

theorem SameKey.symm
    (a b : Session)
    (h : SameKey a b) :
    SameKey b a :=
  SessionKey.equals_symm h

theorem homed
    (hash : Bytes → Nat)
    {capacity : Nat}
    (hPos : 0 < capacity) :
    Homed capacity (home hash capacity) :=
  fun _ => Nat.mod_lt _ hPos

end Session

namespace SessionTable

variable {key : SessionKey} {i : Nat}
variable {saved session other : Session}

/- What all operations keep. -/
structure Inv
    (hash : Bytes → Nat)
    (table : SessionTable) : Prop where
  pos : 0 < table.capacity
  keys :
    ∀ i < table.capacity, ∀ session,
      table.sessions i = some session →
        session.key.valid = true
  chain :
    Chain table.capacity (Session.home hash table.capacity)
      table.sessions
  distinct :
    Distinct table.capacity Session.SameKey table.sessions
  count : table.count = used table.capacity table.sessions
  cut :
    ∃ z < table.capacity,
      Cut table.capacity (Session.home hash table.capacity)
        table.sessions z
  cursor : table.expireCursor < table.capacity

/-
  The part of the invariant that a deletion rests on: keys
  are distinct, every slot from the home of an entry to its
  position is used, and the count is that of the used slots.
-/
structure WellPlaced
    (hash : Bytes → Nat)
    (table : SessionTable) : Prop where
  chain :
    Chain table.capacity (Session.home hash table.capacity)
      table.sessions
  distinct :
    Distinct table.capacity Session.SameKey table.sessions
  count : table.count = used table.capacity table.sessions

variable {hash : Bytes → Nat} {table : SessionTable}

theorem Inv.placed
    (hInv : table.Inv hash) :
    table.WellPlaced hash :=
  ⟨hInv.chain, hInv.distinct, hInv.count⟩

/- The entry of a key is where `get` looks for it. -/
theorem get_eq_some
    (hInv : table.Inv hash)
    (hValid : key.valid = true) :
    table.get hash key = some i ↔
      i < table.capacity ∧
        ∃ session, table.sessions i = some session ∧
          session.key.equals key = true := by
  have hPos := hInv.pos
  have hHome : key.hash hash table.capacity < table.capacity :=
    Nat.mod_lt _ hPos
  have hGuard :
      ¬ (table.capacity = 0 ∨ ¬ key.valid = true) := by
    simp only [hValid, not_true_eq_false, or_false]
    omega
  unfold get
  rw [if_neg hGuard]
  constructor
  · intro hGet
    cases hProbe : table.probe hash key with
    | vacant j => simp [hProbe] at hGet
    | exhausted => simp [hProbe] at hGet
    | hit j =>
        have hji : j = i := by simpa [hProbe] using hGet
        subst hji
        rcases walk_hit hHome hProbe with ⟨hj, hSome, _⟩
        exact ⟨hj, hSome⟩
  · rintro ⟨hi, session, hSome, hEquals⟩
    have hProbe : table.probe hash key = .hit i := by
      apply walk_eq_hit hHome hInv.chain hi hSome
        (SessionKey.hash_eq hash _ hEquals) hEquals
      intro q hq other hOther hEquals'
      exact hInv.distinct q hq i hi other session hOther hSome
        (SessionKey.equals_trans hEquals'
          (SessionKey.equals_symm hEquals))
    simp [hProbe]

/- What a lookup does not find is not there. -/
theorem get_eq_none
    (hInv : table.Inv hash)
    (hValid : key.valid = true) :
    table.get hash key = none ↔
      ∀ i < table.capacity, ∀ session,
        table.sessions i = some session →
          session.key.equals key = false := by
  constructor
  · intro hNone i hi session hSome
    by_contra hEquals
    have hGet :=
      (get_eq_some hInv hValid).mpr
        ⟨hi, session, hSome, by simpa using hEquals⟩
    rw [hNone] at hGet
    cases hGet
  · intro hAll
    cases hGet : table.get hash key with
    | none => rfl
    | some i =>
        rcases (get_eq_some hInv hValid).mp hGet with
          ⟨hi, session, hSome, hEquals⟩
        rw [hAll i hi session hSome] at hEquals
        cases hEquals

/- A new table has the invariant. -/
theorem init_inv
    {capacity : Nat}
    {table : SessionTable}
    (hInit : init capacity = .ok table) :
    table.Inv hash := by
  unfold init at hInit
  by_cases hZero : capacity = 0
  · simp [hZero] at hInit
  · simp only [hZero, if_false, Except.ok.injEq] at hInit
    subst hInit
    have hPos : 0 < capacity := by omega
    refine
      { pos := hPos
        keys := by simp
        chain := by
          intro p _ e hCell
          cases hCell
        distinct := by
          intro p _ q _ a b hCell
          cases hCell
        count := by simp [used]
        cut := ⟨0, hPos, ?_⟩
        cursor := hPos }
    intro p _ e hCell
    cases hCell

variable (hash : Bytes → Nat)
variable {evict : SessionTable → SessionTable}
variable {table : SessionTable} {args : PutArgs}

/- The argument check of a put. -/
def Accepts
    (table : SessionTable)
    (args : PutArgs) : Prop :=
  0 < table.capacity ∧ args.key.valid = true ∧
    (table.backendOf args).valid = true

/- A refused put changes nothing. -/
theorem putWith_refused
    (hAccepts : ¬ table.Accepts args) :
    putWith hash evict table args = (.invalid, table) := by
  unfold putWith
  apply if_pos
  unfold Accepts at hAccepts
  rw [Nat.pos_iff_ne_zero] at hAccepts
  tauto

/- An accepted put goes by the probe. -/
theorem putWith_accepted
    (hAccepts : table.Accepts args) :
    putWith hash evict table args =
      match table.probe hash args.key with
      | .vacant i =>
          if args.allowPressureEvict &&
              table.pressureEvictNeeded then
            putRetry hash (evict (evict table)) args
          else
            (.ok, table.insertAt args i)
      | .hit i => (.ok, table.updateAt args i)
      | .exhausted => putRetry hash (evict table) args := by
  unfold putWith
  apply if_neg
  unfold Accepts at hAccepts
  rw [Nat.pos_iff_ne_zero] at hAccepts
  tauto

/- The home of a key is a slot. -/
theorem hash_lt
    (key : SessionKey)
    (hPos : 0 < table.capacity) :
    key.hash hash table.capacity < table.capacity :=
  Nat.mod_lt _ hPos

------------------------------------------------------------
-- Deletion
------------------------------------------------------------

/- The two outcomes of putting a saved entry back. -/
def Reinserted
    (table : SessionTable)
    (saved : Session)
    (result : Status × SessionTable) : Prop :=
  (¬ saved.Storable ∧ result = (.invalid, table)) ∨
  (saved.Storable ∧ ∃ f < table.capacity,
    table.sessions f = none ∧
    (∀ q < table.capacity,
      dist table.capacity (saved.home hash table.capacity) q <
        dist table.capacity
          (saved.home hash table.capacity) f →
        table.sessions q ≠ none) ∧
    result = (.ok, table.insertAt (PutArgs.ofSaved saved) f))

variable (depth : Nat) {c : Nat}

/-
  A reinsertion finds the slot that was just cleared at the
  latest, so it never evicts, whatever the depth.
-/
theorem putInternal_ofSaved
    (hVacant : ∃ v < table.capacity, table.sessions v = none)
    (hNew :
      ∀ q < table.capacity, ∀ other,
        table.sessions q = some other →
          ¬ Session.SameKey saved other) :
    Reinserted hash table saved
      (putInternal hash (depth + 1) table
        (PutArgs.ofSaved saved)) := by
  rcases hVacant with ⟨v, hv, hvNone⟩
  have hPos : 0 < table.capacity := by omega
  have hHome := hash_lt hash saved.key hPos
  by_cases hStorable : saved.Storable
  · right
    refine ⟨hStorable, ?_⟩
    have hAccepts :
        table.Accepts (PutArgs.ofSaved saved) :=
      ⟨hPos, hStorable.1, hStorable.2⟩
    unfold putInternal
    rw [putWith_accepted hash hAccepts]
    cases hProbe : table.probe hash saved.key with
    | vacant f =>
        rcases walk_vacant hHome hProbe with
          ⟨hf, hNone, hPassed⟩
        refine ⟨f, hf, hNone, ?_, ?_⟩
        · intro q hq hLt
          rcases hPassed q hq hLt with ⟨e, hCell, _⟩
          rw [hCell]
          exact Option.some_ne_none e
        · simp [PutArgs.ofSaved, hProbe]
    | hit j =>
        rcases walk_hit hHome hProbe with
          ⟨hj, ⟨e, hCell, hHit⟩, _⟩
        exact absurd (SessionKey.equals_symm hHit)
          (hNew j hj e hCell)
    | exhausted =>
        rcases walk_exhausted hHome hProbe v hv with
          ⟨e, hCell, _⟩
        rw [hvNone] at hCell
        cases hCell
  · left
    refine ⟨hStorable, putWith_refused hash ?_⟩
    intro hAccepts
    exact hStorable ⟨hAccepts.2.1, hAccepts.2.2⟩

/- The depth of the recursion does not matter either. -/
theorem putInternal_ofSaved_depth
    (hVacant :
      ∃ v < table.capacity, table.sessions v = none) :
    putInternal hash (depth + 1) table
        (PutArgs.ofSaved saved) =
      putInternal hash 1 table (PutArgs.ofSaved saved) := by
  rcases hVacant with ⟨v, hv, hvNone⟩
  have hPos : 0 < table.capacity := by omega
  have hHome := hash_lt hash saved.key hPos
  unfold putInternal
  by_cases hAccepts : table.Accepts (PutArgs.ofSaved saved)
  · rw [putWith_accepted hash hAccepts,
      putWith_accepted hash hAccepts]
    cases hProbe :
        table.probe hash (PutArgs.ofSaved saved).key with
    | vacant f => simp [PutArgs.ofSaved]
    | hit j => rfl
    | exhausted =>
        rcases walk_exhausted hHome hProbe v hv with
          ⟨e, hCell, _⟩
        rw [hvNone] at hCell
        cases hCell
  · rw [putWith_refused hash hAccepts,
      putWith_refused hash hAccepts]

/- What deletions and evictions do not touch. -/
structure SameFrame
    (before after : SessionTable) : Prop where
  capacity : after.capacity = before.capacity
  expireCursor : after.expireCursor = before.expireCursor

theorem SameFrame.refl
    (table : SessionTable) :
    SameFrame table table :=
  ⟨rfl, rfl⟩

theorem SameFrame.trans
    {a b c : SessionTable}
    (hab : SameFrame a b)
    (hbc : SameFrame b c) :
    SameFrame a c :=
  ⟨hbc.capacity.trans hab.capacity,
    hbc.expireCursor.trans hab.expireCursor⟩

/- Putting back the entry of a slot that was just cleared. -/
theorem reinserted_clear
    (hc : c < table.capacity)
    (hCell : table.sessions c = some saved)
    (hDistinct :
      Distinct table.capacity Session.SameKey
        table.sessions) :
    Reinserted hash (table.clear c) saved
      (putInternal hash (depth + 1) (table.clear c)
        (PutArgs.ofSaved saved)) := by
  have hVacant :
      ∃ v < (table.clear c).capacity,
        (table.clear c).sessions v = none :=
    ⟨c, hc, vacate_self table.sessions c⟩
  apply putInternal_ofSaved hash depth hVacant
  intro q hq other hSome hSame
  rcases vacate_eq_some hSome with ⟨hqc, hOld⟩
  exact hqc
    (hDistinct c hc q hq saved other hCell hOld hSame).symm

/- The depth does not matter where room was made. -/
theorem reinsert_depth
    (saved : Session)
    {c : Nat}
    (hc : c < table.capacity) :
    (putInternal hash (depth + 1) (table.clear c)
        (PutArgs.ofSaved saved)).2 =
      reinsert hash (table.clear c)
        (PutArgs.ofSaved saved) := by
  have hVacant :
      ∃ v < (table.clear c).capacity,
        (table.clear c).sessions v = none :=
    ⟨c, hc, vacate_self table.sessions c⟩
  unfold reinsert
  rw [putInternal_ofSaved_depth hash depth hVacant]

/- What clearing a used slot does to the count. -/
theorem clear_count
    (hc : c < table.capacity)
    (hCell : table.sessions c = some session)
    (hCount :
      table.count = used table.capacity table.sessions) :
    (table.clear c).count + 1 = table.count ∧
      (table.clear c).count =
        used table.capacity (vacate table.sessions c) := by
  have hVacate := used_vacate hc hCell
  simp only [clear]
  omega

/-
  What every round of the loop of a deletion finds: the
  cursor is a slot, keys are distinct, and the count is that
  of the used slots.
-/
structure GapAt
    (table : SessionTable)
    (c : Nat) : Prop where
  cursor : c < table.capacity
  distinct :
    Distinct table.capacity Session.SameKey table.sessions
  count : table.count = used table.capacity table.sessions

/- One reinsertion of a run, with its bookkeeping. -/
theorem reinsert_spec
    (hGap : table.GapAt c)
    (hCell : table.sessions c = some saved) :
    let after :=
      reinsert hash (table.clear c) (PutArgs.ofSaved saved)
    SameFrame table after ∧
      after.count = used table.capacity after.sessions ∧
      Reinsert table.capacity
        (Session.home hash table.capacity)
        Session.Storable (vacate table.sessions c) saved
        after.sessions := by
  intro after
  rcases clear_count hGap.cursor hCell hGap.count with
    ⟨_, hClear⟩
  rcases reinserted_clear hash 0 hGap.cursor hCell
      hGap.distinct with
    ⟨hDrop, hEq⟩ | ⟨hKeep, f, hf, hNone, hWay, hEq⟩
  · have hAfter : after = table.clear c := by
      simp only [after, reinsert, hEq]
    rw [hAfter]
    exact ⟨⟨rfl, rfl⟩, hClear, Reinsert.drop hDrop⟩
  · have hAfter :
        after =
          (table.clear c).insertAt (PutArgs.ofSaved saved)
            f := by
      simp only [after, reinsert, hEq]
    rw [hAfter]
    refine ⟨⟨rfl, rfl⟩, ?_,
      Reinsert.place f hKeep hf hNone hWay⟩
    have hFill :
        used table.capacity
            (fill (vacate table.sessions c) f saved) =
          used table.capacity (vacate table.sessions c) +
            1 :=
      used_fill saved hf hNone
    have hSessions :
        ((table.clear c).insertAt (PutArgs.ofSaved saved)
          f).sessions =
          fill (vacate table.sessions c) f saved := rfl
    rw [hSessions, hFill, ← hClear]
    rfl

namespace GapAt

variable {table : SessionTable} {c : Nat}

/- One round moves the gap on. -/
theorem round
    {saved : Session}
    (hGap : table.GapAt c)
    (hCell : table.sessions c = some saved) :
    GapAt
      (reinsert hash (table.clear c) (PutArgs.ofSaved saved))
      (next table.capacity c) := by
  have hPos : 0 < table.capacity := by
    have hc := hGap.cursor
    omega
  rcases reinsert_spec hash hGap hCell with
    ⟨hFrame, hCount, hPut⟩
  constructor <;> rw [hFrame.capacity]
  · exact next_lt hPos c
  · exact hPut.distinct Session.SameKey.symm hGap.cursor
      hCell hGap.distinct
  · exact hCount

end GapAt

section Loop

variable {hash} {P : Nat → SessionTable → Nat → Prop}
variable
    (hStop :
      ∀ n table c, GapAt table c →
        table.sessions c = none → P (n + 1) table c)
    (hRound :
      ∀ n table c saved, GapAt table c →
        table.sessions c = some saved →
        P n
          (reinsert hash (table.clear c)
            (PutArgs.ofSaved saved))
          (next table.capacity c) →
        P (n + 1) table c)

include hStop hRound

/-
  The loop stops before its fuel does, since every round
  lowers the rank of the gap.  A property of the loop is
  therefore shown for its last test and for one round.
-/
theorem GapAt.induction
    (n : Nat)
    {c v : Nat}
    (hGap : table.GapAt c)
    (hv : v < table.capacity)
    (hvNone : table.sessions v = none)
    (hRank :
      gapRank table.capacity
        (Session.home hash table.capacity)
        table.sessions c v < n) :
    P n table c := by
  induction n generalizing table c v with
  | zero => omega
  | succ n ih =>
      cases hCell : table.sessions c with
      | none => exact hStop n table c hGap hCell
      | some saved =>
          have hPos : 0 < table.capacity := by omega
          rcases reinsert_spec hash hGap hCell with
            ⟨hFrame, _, hPut⟩
          rcases gapRank_step hGap.cursor hv hvNone hCell
              (Session.homed hash hPos) hPut with
            ⟨v', hv', hvNone', hLess⟩
          have hRest := @ih _ _ v' (hGap.round hash hCell)
          rw [hFrame.capacity] at hRest
          exact hRound n table c saved hGap hCell
            (hRest hv' hvNone' (by omega))

/-
  A deletion opens the gap in the slot that it clears, and
  its fuel is enough to close it.
-/
theorem WellPlaced.delete_induction
    {i : Nat}
    {session : Session}
    (hPlaced : table.WellPlaced hash)
    (hi : i < table.capacity)
    (hCell : table.sessions i = some session) :
    P (gapFuel table.capacity) (table.clear i)
      (next table.capacity i) := by
  have hPos : 0 < table.capacity := by omega
  have hNext := next_lt hPos i
  have hClear := (clear_count hi hCell hPlaced.count).2
  have hGap :
      GapAt (table.clear i) (next table.capacity i) :=
    ⟨hNext, distinct_vacate hPlaced.distinct, hClear⟩
  exact GapAt.induction hStop hRound
    (gapFuel table.capacity) hGap hi
    (vacate_self table.sessions i)
    (gapRank_lt (Session.homed hash hPos)
      (vacate table.sessions i) hNext hi)

end Loop

/- The loop closed the gap, with its bookkeeping. -/
structure Closes
    (table : SessionTable)
    (c : Nat)
    (after : SessionTable) : Prop where
  frame : SameFrame table after
  count : after.count = used table.capacity after.sessions
  run :
    CloseGap table.capacity
      (Session.home hash table.capacity) Session.Storable
      table.sessions c after.sessions

theorem Closes.round
    {after : SessionTable}
    {c : Nat}
    (hGap : table.GapAt c)
    (hCell : table.sessions c = some saved)
    (hRest :
      Closes hash
        (reinsert hash (table.clear c)
          (PutArgs.ofSaved saved))
        (next table.capacity c) after) :
    Closes hash table c after := by
  rcases reinsert_spec hash hGap hCell with ⟨hFrame, _, hPut⟩
  rcases hRest with ⟨hFrame', hCount, hRun⟩
  rw [hFrame.capacity] at hCount hRun
  exact ⟨hFrame.trans hFrame', hCount,
    CloseGap.step hCell hPut hRun⟩

/-
  Deletion empties the slot and closes the gap behind it;
  the fuel is enough for that.
-/
theorem tableDeleteAt_spec
    (hPlaced : table.WellPlaced hash)
    (hi : i < table.capacity)
    (hCell : table.sessions i = some session) :
    let after := table.tableDeleteAt hash i
    SameFrame table after ∧
      after.count = used table.capacity after.sessions ∧
      CloseGap table.capacity
        (Session.home hash table.capacity)
        Session.Storable (vacate table.sessions i)
        (next table.capacity i) after.sessions := by
  have hCloses :
      Closes hash (table.clear i) (next table.capacity i)
        (table.tableDeleteAt hash i) := by
    apply hPlaced.delete_induction
      (P := fun n t c =>
        Closes hash t c (closeGapWith (reinsert hash) n t c))
      _ _ hi hCell
    · intro n t c hGap hNone
      unfold closeGapWith
      rw [hNone]
      exact ⟨SameFrame.refl t, hGap.count,
        CloseGap.stop hNone⟩
    · intro n t c saved hGap hSome hRest
      unfold closeGapWith
      rw [hSome]
      exact hRest.round hash hGap hSome
  rcases hCloses with ⟨hFrame, hCount, hRun⟩
  exact ⟨⟨hFrame.capacity, hFrame.expireCursor⟩, hCount, hRun⟩

/- A deletion is the same at every depth. -/
theorem tableDeleteAt_depth
    (depth : Nat)
    (hPlaced : table.WellPlaced hash)
    (hi : i < table.capacity)
    (hCell : table.sessions i = some session) :
    tableDeleteAtWith
        (fun t a => (putInternal hash (depth + 1) t a).2)
        table i =
      table.tableDeleteAt hash i := by
  apply hPlaced.delete_induction
    (P := fun n t c =>
      closeGapWith
          (fun t a => (putInternal hash (depth + 1) t a).2)
          n t c =
        closeGapWith (reinsert hash) n t c)
    _ _ hi hCell
  · intro n t c _ hNone
    unfold closeGapWith
    rw [hNone]
  · intro n t c saved hGap hSome hRest
    unfold closeGapWith
    rw [hSome]
    dsimp only
    rw [reinsert_depth hash depth saved hGap.cursor]
    exact hRest

/- Deletion invents no entry. -/
theorem tableDeleteAt_holds
    (hPlaced : table.WellPlaced hash)
    (hi : i < table.capacity)
    (hCell : table.sessions i = some session)
    (hHolds :
      Holds table.capacity
        (table.tableDeleteAt hash i).sessions other) :
    Holds table.capacity (vacate table.sessions i)
      other := by
  rcases tableDeleteAt_spec hash hPlaced hi hCell with
    ⟨_, _, hRun⟩
  exact hRun.holds (next_lt (by omega) i) hHolds

/- A deletion frees a slot. -/
theorem tableDeleteAt_used
    (hPlaced : table.WellPlaced hash)
    (hi : i < table.capacity)
    (hCell : table.sessions i = some session) :
    used table.capacity
        (table.tableDeleteAt hash i).sessions <
      used table.capacity table.sessions := by
  rcases tableDeleteAt_spec hash hPlaced hi hCell with
    ⟨_, _, hRun⟩
  have hLe := hRun.used_le (next_lt (by omega) i)
  have hVacate := used_vacate hi hCell
  omega

/- A deletion leaves every other entry well placed. -/
theorem tableDeleteAt_placed
    (hPlaced : table.WellPlaced hash)
    (hi : i < table.capacity)
    (hCell : table.sessions i = some session) :
    (table.tableDeleteAt hash i).WellPlaced hash := by
  rcases tableDeleteAt_spec hash hPlaced hi hCell with
    ⟨hFrame, hCount, hRun⟩
  have hPos : 0 < table.capacity := by omega
  have hNext := next_lt hPos i
  constructor <;> rw [hFrame.capacity]
  · exact hRun.chain (Session.homed hash hPos) hNext
      (pending_vacate hPlaced.chain hi)
  · exact hRun.distinct Session.SameKey.symm hNext
      (distinct_vacate hPlaced.distinct)
  · exact hCount

/- A deletion keeps the invariant. -/
theorem tableDeleteAt_inv
    (hInv : table.Inv hash)
    (hi : i < table.capacity)
    (hCell : table.sessions i = some session) :
    (table.tableDeleteAt hash i).Inv hash := by
  rcases tableDeleteAt_spec hash hInv.placed hi hCell with
    ⟨hFrame, _, _⟩
  have hPlaced :=
    tableDeleteAt_placed hash hInv.placed hi hCell
  have hChain := hPlaced.chain
  have hDistinct := hPlaced.distinct
  have hCount := hPlaced.count
  rw [hFrame.capacity] at hChain hDistinct hCount
  have hLess := tableDeleteAt_used hash hInv.placed hi hCell
  have hUsed := used_le table.capacity table.sessions
  rcases exists_vacant
      (show used table.capacity _ < table.capacity by
        exact Nat.lt_of_lt_of_le hLess hUsed) with
    ⟨z, hz, hNone⟩
  constructor <;> rw [hFrame.capacity]
  · exact hInv.pos
  · intro p hp other hSome
    rcases tableDeleteAt_holds hash hInv.placed hi hCell
        ⟨p, hp, hSome⟩ with
      ⟨q, hq, hOld⟩
    exact hInv.keys q hq other (vacate_eq_some hOld).2
  · exact hChain
  · exact hDistinct
  · exact hCount
  · exact ⟨z, hz, cut_of_vacant hChain hz hNone⟩
  · rw [hFrame.expireCursor]
    exact hInv.cursor

/- The table whose eviction cursor has moved on. -/
def scanned
    (table : SessionTable) : SessionTable :=
  { table with
    evictCursor :=
      (table.evictCursor + table.evictScans) %
        table.capacity }

theorem scanned_inv
    (hInv : table.Inv hash) :
    table.scanned.Inv hash :=
  ⟨hInv.pos, hInv.keys, hInv.chain, hInv.distinct,
    hInv.count, hInv.cut, hInv.cursor⟩

/- An eviction deletes one entry of the table, or none. -/
theorem evictOldest_cases
    (hPos : 0 < table.capacity) :
    table.evictOldest hash = table ∨
      table.evictOldest hash = table.scanned ∨
      ∃ victim < table.capacity, ∃ session,
        table.sessions victim = some session ∧
        table.evictOldest hash =
          table.scanned.tableDeleteAt hash victim := by
  unfold evictOldest evictOldestWith
  by_cases hCount : table.count = 0
  · left
    rw [if_pos hCount]
  · right
    rw [if_neg hCount]
    cases hVictim : table.evictVictim with
    | none =>
        left
        rfl
    | some victim =>
        right
        rcases oldest_used hPos hVictim with
          ⟨hLt, session, hCell⟩
        exact ⟨victim, hLt, session, hCell, rfl⟩

theorem evictOldest_frame
    (hInv : table.Inv hash) :
    SameFrame table (table.evictOldest hash) := by
  rcases evictOldest_cases hash hInv.pos with
    hEq | hEq | ⟨victim, hLt, session, hCell, hEq⟩
  · rw [hEq]
    exact SameFrame.refl table
  · rw [hEq]
    exact ⟨rfl, rfl⟩
  · rw [hEq]
    rcases tableDeleteAt_spec hash (scanned_inv hash hInv).placed
        hLt hCell with
      ⟨hFrame, _⟩
    exact ⟨hFrame.capacity, hFrame.expireCursor⟩

/- An eviction keeps the invariant. -/
theorem evictOldest_inv
    (hInv : table.Inv hash) :
    (table.evictOldest hash).Inv hash := by
  rcases evictOldest_cases hash hInv.pos with
    hEq | hEq | ⟨victim, hLt, session, hCell, hEq⟩
  · rw [hEq]
    exact hInv
  · rw [hEq]
    exact scanned_inv hash hInv
  · rw [hEq]
    exact tableDeleteAt_inv hash (scanned_inv hash hInv)
      hLt hCell

/- Eviction invents no entry. -/
theorem evictOldest_holds
    (hInv : table.Inv hash)
    (hHolds :
      Holds table.capacity (table.evictOldest hash).sessions
        other) :
    Holds table.capacity table.sessions other := by
  rcases evictOldest_cases hash hInv.pos with
    hEq | hEq | ⟨victim, hLt, session, hCell, hEq⟩
  · rw [hEq] at hHolds
    exact hHolds
  · rw [hEq] at hHolds
    exact hHolds
  · rw [hEq] at hHolds
    rcases tableDeleteAt_holds hash
        (scanned_inv hash hInv).placed hLt hCell hHolds with
      ⟨q, hq, hOld⟩
    exact ⟨q, hq, (vacate_eq_some hOld).2⟩

/- The entry that an insertion writes. -/
def newEntry
    (table : SessionTable)
    (args : PutArgs) : Session where
  key := args.key
  backend := table.backendOf args
  lastSeen := args.now
  ownerSlot := args.ownerSlot
  ownerFlowId := args.ownerFlowId

theorem insertAt_sessions
    (table : SessionTable)
    (args : PutArgs)
    (i : Nat) :
    (table.insertAt args i).sessions =
      fill table.sessions i (table.newEntry args) :=
  rfl

theorem updateAt_sessions
    (hCell : table.sessions i = some session) :
    table.updateAt args i =
      { table with
        sessions :=
          fill table.sessions i
            (refresh session (table.backendOf args)
              args) } := by
  simp [updateAt, hCell]

/- Inserting where the probe ended keeps it. -/
theorem insertAt_inv
    (hInv : table.Inv hash)
    (hValid : args.key.valid = true)
    (hProbe : table.probe hash args.key = .vacant i) :
    (table.insertAt args i).Inv hash := by
  have hHome := hash_lt hash args.key hInv.pos
  rcases walk_vacant hHome hProbe with ⟨hi, hNone, hPassed⟩
  have hCount := hInv.count
  have hFill := used_fill (table.newEntry args) hi hNone
  refine
    { pos := hInv.pos
      keys := ?_
      chain := ?_
      distinct := ?_
      count := ?_
      cut := ⟨i, hi, cut_fill _ hInv.chain hi hNone⟩
      cursor := hInv.cursor }
  · intro p hp session hSome
    rcases fill_eq_some hSome with ⟨_, hNew⟩ | ⟨_, hOld⟩
    · rw [hNew]
      exact hValid
    · exact hInv.keys p hp session hOld
  · apply chain_fill hInv.chain
    intro q hq hLt
    rcases hPassed q hq hLt with ⟨e, hCell, _⟩
    rw [hCell]
    exact Option.some_ne_none e
  · apply distinct_fill Session.SameKey.symm hInv.distinct
    intro q hq other hOther hSame
    have hEquals := SessionKey.equals_symm hSame
    have hMiss :=
      not_hit_of_walk_vacant hHome hInv.chain hProbe hq
        hOther (SessionKey.hash_eq hash _ hEquals)
    rw [hMiss] at hEquals
    cases hEquals
  · rw [insertAt_sessions]
    simp only [insertAt]
    omega

/- Rewriting an entry under its own key keeps the invariant. -/
theorem replace_inv
    {new : Session}
    (hInv : table.Inv hash)
    (hCell : table.sessions i = some session)
    (hKey : new.key = session.key) :
    Inv hash
      { table with
        sessions := fill table.sessions i new } := by
  have hHome :
      new.home hash table.capacity =
        session.home hash table.capacity := by
    unfold Session.home
    rw [hKey]
  rcases hInv.cut with ⟨z, hz, hCut⟩
  refine
    { pos := hInv.pos
      keys := ?_
      chain := chain_replace hInv.chain hCell hHome
      distinct :=
        distinct_replace Session.SameKey.symm hInv.distinct
          hCell ?_
      count := ?_
      cut := ⟨z, hz, hCut.replace hCell hHome⟩
      cursor := hInv.cursor }
  · intro p hp other hSome
    rcases fill_eq_some hSome with ⟨hpi, hNew⟩ | ⟨_, hOld⟩
    · subst hpi
      rw [hNew, hKey]
      exact hInv.keys p hp session hCell
    · exact hInv.keys p hp other hOld
  · intro other hSame
    unfold Session.SameKey at hSame ⊢
    rw [← hKey]
    exact hSame
  · have hUsed := used_replace (n := table.capacity) new hCell
    simp only [hUsed]
    exact hInv.count

/- Writing in place keeps it. -/
theorem updateAt_inv
    (hInv : table.Inv hash) :
    (table.updateAt args i).Inv hash := by
  cases hCell : table.sessions i with
  | none =>
      have hEq : table.updateAt args i = table := by
        simp [updateAt, hCell]
      rw [hEq]
      exact hInv
  | some session =>
      rw [updateAt_sessions hCell]
      exact replace_inv hash hInv hCell rfl

theorem putRetry_inv
    (hInv : table.Inv hash)
    (hValid : args.key.valid = true) :
    (putRetry hash table args).2.Inv hash := by
  unfold putRetry
  cases hProbe : table.probe hash args.key with
  | vacant i => exact insertAt_inv hash hInv hValid hProbe
  | hit i => exact updateAt_inv hash hInv
  | exhausted => exact hInv

/- A put that may evict keeps the invariant. -/
theorem putInternal_inv
    (args : PutArgs)
    (hInv : table.Inv hash) :
    (putInternal hash 2 table args).2.Inv hash := by
  have hUnfold :
      putInternal hash 2 table args =
        putWith hash (evictOldest hash) table args := rfl
  rw [hUnfold]
  by_cases hAccepts : table.Accepts args
  · rw [putWith_accepted hash hAccepts]
    have hValid := hAccepts.2.1
    cases hProbe : table.probe hash args.key with
    | vacant i =>
        by_cases hPressure :
            (args.allowPressureEvict &&
              table.pressureEvictNeeded) = true
        · simp only [hPressure, if_true]
          exact putRetry_inv hash
            (evictOldest_inv hash
              (evictOldest_inv hash hInv)) hValid
        · simp only [hPressure]
          exact insertAt_inv hash hInv hValid hProbe
    | hit i => exact updateAt_inv hash hInv
    | exhausted =>
        exact putRetry_inv hash (evictOldest_inv hash hInv)
          hValid
  · rw [putWith_refused hash hAccepts]
    exact hInv

/- Evictions do not depend on the depth of the recursion. -/
theorem evictOldest_depth
    (depth : Nat)
    (hInv : table.Inv hash) :
    evictOldestWith
        (fun t a => (putInternal hash (depth + 1) t a).2)
        table =
      table.evictOldest hash := by
  unfold evictOldest evictOldestWith
  by_cases hZero : table.count = 0
  · rw [if_pos hZero, if_pos hZero]
  · rw [if_neg hZero, if_neg hZero]
    cases hVictim : table.evictVictim with
    | none => rfl
    | some victim =>
        rcases oldest_used hInv.pos hVictim with
          ⟨hLt, session, hCell⟩
        have hPlaced :
            WellPlaced hash
              { table with
                evictCursor :=
                  (table.evictCursor + table.evictScans) %
                    table.capacity } :=
          ⟨hInv.chain, hInv.distinct, hInv.count⟩
        exact tableDeleteAt_depth hash depth hPlaced hLt hCell

/- Depth two is the whole recursion of a put. -/
theorem putInternal_depth
    (args : PutArgs)
    (depth : Nat)
    (hInv : table.Inv hash) :
    putInternal hash (depth + 2) table args =
      putInternal hash 2 table args := by
  have hEvict := evictOldest_depth hash depth hInv
  have hAgain :=
    evictOldest_depth hash depth (evictOldest_inv hash hInv)
  have hTwo :
      putInternal hash 2 table args =
        putWith hash (evictOldest hash) table args := rfl
  rw [hTwo]
  unfold putInternal
  by_cases hAccepts : table.Accepts args
  · rw [putWith_accepted hash hAccepts,
      putWith_accepted hash hAccepts, hEvict, hAgain]
  · rw [putWith_refused hash hAccepts,
      putWith_refused hash hAccepts]

end SessionTable

end QuicSniRouter
