import QuicSniRouter.SessionTable.Filters

/-
  One deletion, round by round.  Each round clears the
  cursor's slot and puts its entry back.  The rounds come to
  an end in every well placed table, and no put evicts; an
  entry that the put refuses is lost, though, so a deletion
  removes one entry if and only if no such entry stands in
  the run behind the deleted slot.

  Main declarations:
    * `SessionTable.deleteRounds`
    * `SessionTable.stored`
    * `SessionTable.deleteRounds_spec`
    * `SessionTable.deletion_exact_iff`
-/

namespace QuicSniRouter

open LinearProbing

namespace SessionTable

/-
  What one round of the loop passes to its put: the table
  with the slot of the cursor cleared, and the entry that
  stood there.
-/
structure Round where
  table : SessionTable
  saved : Session

/-
  The loop of `table_delete_at` with the rounds it makes, or
  `none` where it takes more rounds than the fuel allows.
-/
def gapRounds
    (put : SessionTable → PutArgs → Status × SessionTable) :
    Nat → SessionTable → Nat →
      Option (List Round × SessionTable)
| 0, _, _ => none
| fuel + 1, table, cursor =>
    match table.sessions cursor with
    | none => some ([], table)
    | some saved => do
        let cleared := table.clear cursor
        let rest ←
          gapRounds put fuel
            (put cleared (PutArgs.ofSaved saved)).2
            (next table.capacity cursor)
        return (⟨cleared, saved⟩ :: rest.1, rest.2)

/- The rounds of one deletion. -/
def deleteRounds
    (put : SessionTable → PutArgs → Status × SessionTable)
    (fuel : Nat)
    (table : SessionTable)
    (index : Nat) :
    Option (List Round × SessionTable) :=
  gapRounds put fuel (table.clear index)
    (next table.capacity index)

namespace Round

/-
  The put writes a new entry to an unused slot of the table
  it is given, and does nothing else.
-/
def Inserts
    (hash : Bytes → Nat)
    (depth : Nat)
    (round : Round) : Prop :=
  ∃ f < round.table.capacity,
    round.table.sessions f = none ∧
      putInternal hash (depth + 1) round.table
          (PutArgs.ofSaved round.saved) =
        (.ok, round.table.insertAt
          (PutArgs.ofSaved round.saved) f)

end Round

variable (hash : Bytes → Nat)

section Rounds

variable {table after : SessionTable} {saved : Session}
variable {c : Nat}

/- How a round changes the count. -/
theorem reinsert_count
    (hGap : table.GapAt c)
    (hCell : table.sessions c = some saved) :
    let after :=
      reinsert hash (table.clear c) (PutArgs.ofSaved saved)
    (saved.Storable → after.count = table.count) ∧
      (¬ saved.Storable → after.count + 1 = table.count) := by
  intro after
  have hClear := (clear_count hGap.cursor hCell hGap.count).1
  rcases reinserted_clear hash 0 hGap.cursor hCell
      hGap.distinct with
    ⟨hDrop, hEq⟩ | ⟨hKeep, f, _, _, _, hEq⟩
  · have hAfter : after = table.clear c := by
      simp only [after, reinsert, hEq]
    rw [hAfter]
    exact ⟨fun hKeep => absurd hKeep hDrop, fun _ => hClear⟩
  · have hAfter :
        after =
          (table.clear c).insertAt (PutArgs.ofSaved saved)
            f := by
      simp only [after, reinsert, hEq]
    rw [hAfter]
    exact ⟨fun _ => hClear, fun hDrop => absurd hKeep hDrop⟩

/- The first round and the loop behind it. -/
theorem gapRounds_some
    (depth fuel : Nat)
    (hGap : table.GapAt c)
    (hCell : table.sessions c = some saved) :
    gapRounds (putInternal hash (depth + 1)) (fuel + 1)
        table c =
      (gapRounds (putInternal hash (depth + 1)) fuel
        (reinsert hash (table.clear c)
          (PutArgs.ofSaved saved))
        (next table.capacity c)).map
        (fun rest =>
          (⟨table.clear c, saved⟩ :: rest.1, rest.2)) := by
  rw [gapRounds, hCell,
    ← reinsert_depth hash depth saved hGap.cursor]
  dsimp only
  rw [Option.map_eq_bind]
  rfl

/- An entry that can be put again is put to a new slot. -/
theorem clear_inserts
    (hGap : table.GapAt c)
    (hCell : table.sessions c = some saved)
    (hStorable : saved.Storable)
    (depth : Nat) :
    Round.Inserts hash depth ⟨table.clear c, saved⟩ := by
  rcases reinserted_clear hash depth hGap.cursor hCell
      hGap.distinct with
    ⟨hDrop, _⟩ | ⟨_, f, hf, hNone, _, hEq⟩
  · exact absurd hStorable hDrop
  · exact ⟨f, hf, hNone, hEq⟩

/-
  The loop ends: any fuel above the number of its rounds
  gives them and the table they leave.  The count at the end
  tells whether every entry was put back.
-/
structure Makes
    (table : SessionTable)
    (c : Nat)
    (rounds : List Round)
    (after : SessionTable) : Prop where
  ends :
    ∀ depth fuel, rounds.length < fuel →
      gapRounds (putInternal hash (depth + 1)) fuel table
        c = some (rounds, after)
  inserts :
    ∀ round ∈ rounds, round.saved.Storable →
      ∀ depth, round.Inserts hash depth
  count_le : after.count ≤ table.count
  count_eq :
    after.count = table.count ↔
      ∀ round ∈ rounds, round.saved.Storable

theorem Makes.stop
    (hNone : table.sessions c = none) :
    Makes hash table c [] table := by
  refine ⟨?_, by simp, Nat.le_refl _, by simp⟩
  intro depth fuel hFuel
  cases fuel with
  | zero => cases hFuel
  | succ fuel =>
      unfold gapRounds
      rw [hNone]

theorem Makes.round
    {rounds : List Round}
    (hGap : table.GapAt c)
    (hCell : table.sessions c = some saved)
    (hRest :
      Makes hash
        (reinsert hash (table.clear c)
          (PutArgs.ofSaved saved))
        (next table.capacity c) rounds after) :
    Makes hash table c (⟨table.clear c, saved⟩ :: rounds)
      after := by
  rcases hRest with ⟨hEnds, hInserts, hLe, hEq⟩
  rcases reinsert_count hash hGap hCell with ⟨hKept, hDropped⟩
  constructor
  · intro depth fuel hFuel
    cases fuel with
    | zero => cases hFuel
    | succ fuel =>
        rw [gapRounds_some hash depth fuel hGap hCell,
          hEnds depth fuel (Nat.lt_of_succ_lt_succ hFuel)]
        rfl
  · intro round hRound hStorable
    rcases List.mem_cons.mp hRound with hFirst | hLater
    · subst hFirst
      exact clear_inserts hash hGap hCell hStorable
    · exact hInserts round hLater hStorable
  · by_cases hStorable : saved.Storable
    · rw [← hKept hStorable]
      exact hLe
    · have hDrop := hDropped hStorable
      omega
  · rw [List.forall_mem_cons]
    dsimp only
    by_cases hStorable : saved.Storable
    · rw [← hKept hStorable, hEq]
      exact ⟨fun hAll => ⟨hStorable, hAll⟩,
        fun hAll => hAll.2⟩
    · have hDrop := hDropped hStorable
      constructor
      · intro hSame
        omega
      · intro hAll
        exact absurd hAll.1 hStorable

end Rounds

/- The rounds of a deletion. -/
theorem deleteRounds_spec
    {table : SessionTable}
    {i : Nat}
    {session : Session}
    (hPlaced : table.WellPlaced hash)
    (hi : i < table.capacity)
    (hCell : table.sessions i = some session) :
    ∃ rounds,
      Makes hash (table.clear i) (next table.capacity i)
        rounds (table.tableDeleteAt hash i) := by
  apply hPlaced.delete_induction
    (P := fun n t c =>
      ∃ rounds,
        Makes hash t c rounds
          (closeGapWith (reinsert hash) n t c))
    _ _ hi hCell
  · intro n t c _ hNone
    unfold closeGapWith
    rw [hNone]
    exact ⟨[], Makes.stop hash hNone⟩
  · intro n t c saved hGap hSome hRest
    rcases hRest with ⟨rounds, hMakes⟩
    unfold closeGapWith
    rw [hSome]
    exact ⟨_, hMakes.round hash hGap hSome⟩

end SessionTable

/- What a table stores for a key. -/
def Session.stored
    (session : Session) : Sockaddr × Int × Nat × Nat :=
  (session.backend, session.lastSeen, session.ownerSlot,
    session.ownerFlowId)

namespace SessionTable

/-
  The table as a map from keys to backend, time and owner,
  read off the slots without any hash.
-/
def stored
    (table : SessionTable)
    (key : SessionKey) :
    Option (Sockaddr × Int × Nat × Nat) :=
  ((entries table.capacity table.sessions).find?
    (fun session => session.key.equals key)).map
    Session.stored

variable {table after : SessionTable} {key : SessionKey}

theorem stored_eq_some
    {value : Sockaddr × Int × Nat × Nat}
    (hDistinct :
      Distinct table.capacity Session.SameKey
        table.sessions) :
    table.stored key = some value ↔
      ∃ session, Holds table.capacity table.sessions session ∧
        session.key.equals key = true ∧
        session.stored = value := by
  unfold stored
  rw [Option.map_eq_some_iff]
  constructor
  · rintro ⟨session, hFind, hValue⟩
    have hKey := List.find?_some hFind
    exact ⟨session,
      mem_entries.mp (List.mem_of_find?_eq_some hFind),
      hKey, hValue⟩
  · rintro ⟨session, hHolds, hKey, hValue⟩
    refine ⟨session, ?_, hValue⟩
    cases hFind :
        (entries table.capacity table.sessions).find?
          (fun session => session.key.equals key) with
    | none =>
        have hNone :=
          List.find?_eq_none.mp hFind session
            (mem_entries.mpr hHolds)
        exact absurd hKey hNone
    | some other =>
        have hOther :=
          mem_entries.mp (List.mem_of_find?_eq_some hFind)
        have hSame := List.find?_some hFind
        rw [hDistinct.eq_of_same hOther hHolds
          (SessionKey.equals_trans hSame
            (SessionKey.equals_symm hKey))]

/- Taking one entry away takes its key out of the map. -/
theorem stored_of_removed
    {session : Session}
    (hDistinct :
      Distinct table.capacity Session.SameKey table.sessions)
    (hAfter :
      Distinct after.capacity Session.SameKey after.sessions)
    (hHolds : Holds table.capacity table.sessions session)
    (hRemoved :
      ∀ s, Holds after.capacity after.sessions s ↔
        Holds table.capacity table.sessions s ∧ s ≠ session) :
    after.stored key =
      if session.key.equals key then none
      else table.stored key := by
  apply Option.ext
  intro value
  rw [stored_eq_some hAfter]
  by_cases hKey : session.key.equals key = true
  · rw [if_pos hKey]
    constructor
    · rintro ⟨other, hOther, hSame, _⟩
      rcases (hRemoved other).mp hOther with ⟨hOld, hNe⟩
      have hEq :=
        hDistinct.eq_of_same hOld hHolds
          (SessionKey.equals_trans hSame
            (SessionKey.equals_symm hKey))
      exact absurd hEq hNe
    · intro hNone
      cases hNone
  · rw [if_neg hKey, stored_eq_some hDistinct]
    constructor
    · rintro ⟨other, hOther, hSame, hValue⟩
      exact ⟨other, ((hRemoved other).mp hOther).1, hSame,
        hValue⟩
    · rintro ⟨other, hOther, hSame, hValue⟩
      refine ⟨other, (hRemoved other).mpr ⟨hOther, ?_⟩,
        hSame, hValue⟩
      intro hEq
      rw [hEq] at hSame
      exact hKey hSame

variable {hash : Bytes → Nat} {table : SessionTable} {i : Nat}
variable {session : Session}

/-
  A deletion as one would have it: every put inserts, the
  map loses the deleted key and nothing else, and the count
  goes down by one.
-/
structure DeletesOne
    (hash : Bytes → Nat)
    (table : SessionTable)
    (session : Session)
    (rounds : List Round)
    (after : SessionTable) : Prop where
  inserts :
    ∀ round ∈ rounds, ∀ depth, round.Inserts hash depth
  stored :
    ∀ key, after.stored key =
      if session.key.equals key then none
      else table.stored key
  count : after.count + 1 = table.count

/- The count of a deletion decides about its run. -/
theorem runStorable_of_count
    (hPlaced : table.WellPlaced hash)
    (hi : i < table.capacity)
    (hCell : table.sessions i = some session)
    (hCount :
      (table.tableDeleteAt hash i).count + 1 = table.count) :
    table.RunStorable i := by
  rcases tableDeleteAt_spec hash hPlaced hi hCell with
    ⟨_, hUsed, _⟩
  have hBefore := hPlaced.count
  intro j hj hji hRun e hEntry
  by_contra hDrop
  have hLost :=
    tableDeleteAt_used_lost hPlaced hi hCell hj
      (Ne.symm hji) hRun hEntry hDrop
  omega

/-
  In every well placed table, full ones included, and for
  every hash, the deletion of a used slot comes to an end
  and leaves a well placed table.  It deletes one entry, and
  all of its puts insert, if and only if every other entry
  in the run of used slots behind it can be put again.
-/
theorem deletion_exact_iff
    (hPlaced : table.WellPlaced hash)
    (hi : i < table.capacity)
    (hCell : table.sessions i = some session) :
    ∃ rounds,
      (∀ depth fuel, rounds.length < fuel →
        deleteRounds (putInternal hash (depth + 1)) fuel
            table i =
          some (rounds, table.tableDeleteAt hash i)) ∧
      (table.tableDeleteAt hash i).WellPlaced hash ∧
      (DeletesOne hash table session rounds
          (table.tableDeleteAt hash i) ↔
        table.RunStorable i) := by
  rcases deleteRounds_spec hash hPlaced hi hCell with
    ⟨rounds, hRounds, hInserts, _, hAll⟩
  have hAfter := tableDeleteAt_placed hash hPlaced hi hCell
  refine ⟨rounds, hRounds, hAfter, ?_⟩
  constructor
  · intro hOne
    exact runStorable_of_count hPlaced hi hCell hOne.count
  · intro hKept
    rcases tableDeleteAt_spec hash hPlaced hi hCell with
      ⟨hFrame, hUsed, _⟩
    rcases tableDeleteAt_removes hPlaced hi hCell hKept with
      ⟨hHolds, hLess⟩
    rcases clear_count hi hCell hPlaced.count with ⟨hClear, _⟩
    have hBefore := hPlaced.count
    have hCount :
        (table.tableDeleteAt hash i).count =
          (table.clear i).count := by
      omega
    refine ⟨?_, ?_, by omega⟩
    · intro round hRound
      exact hInserts round hRound
        (hAll.mp hCount round hRound)
    · intro key
      apply stored_of_removed hPlaced.distinct
        hAfter.distinct ⟨i, hi, hCell⟩
      rw [hFrame.capacity]
      exact hHolds

/-
  The deletion of key 3 from the full table of two takes
  the entry of key 5 along, whose backend is zero: its put
  returns an error, and both entries are gone.
-/
theorem zeroed_entry_deleted :
    zeroedTable.WellPlaced idHash ∧
      (zeroedTable.sessions 1).map (·.key) = some (idKey 3) ∧
      (idKey 3).equals (idKey 5) = false ∧
      (zeroedTable.stored (idKey 5)).isSome = true ∧
      (zeroedTable.tableDeleteAt idHash 1).stored
        (idKey 5) = none ∧
      (zeroedTable.tableDeleteAt idHash 1).count + 2 =
        zeroedTable.count := by
  have hStart : init 2 = .ok (emptyTable 2) := rfl
  refine ⟨(run_inv idHash borrowingOps
    (init_inv hStart)).placed, ?_⟩
  decide +kernel

/- With a copied backend the same deletion is exact. -/
theorem copied_entry_deleted :
    ∃ rounds,
      (∀ depth fuel, rounds.length < fuel →
        deleteRounds (putInternal idHash (depth + 1)) fuel
            copiedTable 1 =
          some (rounds, copiedTable.tableDeleteAt idHash 1)) ∧
      DeletesOne idHash copiedTable
        { key := idKey 3
          backend := ⟨SockaddrStorage.ofBytes [2, 0], 16⟩
          lastSeen := 1
          ownerSlot := 0
          ownerFlowId := 0 }
        rounds (copiedTable.tableDeleteAt idHash 1) := by
  have hStart : init 2 = .ok (emptyTable 2) := rfl
  rcases deletion_exact_iff
      (run_inv idHash copyingOps (init_inv hStart)).placed
      (show 1 < copiedTable.capacity by decide +kernel)
      (show copiedTable.sessions 1 =
        some
          { key := idKey 3
            backend := ⟨SockaddrStorage.ofBytes [2, 0], 16⟩
            lastSeen := 1
            ownerSlot := 0
            ownerFlowId := 0 } by decide +kernel) with
    ⟨rounds, hRounds, _, hExact⟩
  refine ⟨rounds, hRounds, hExact.mpr ?_⟩
  intro j hj _ _ s hSome
  exact copiedTable_storable s ⟨j, hj, hSome⟩

end SessionTable

end QuicSniRouter
