import QuicSniRouter.SessionTable.Eviction

/-
  Puts that leave an entry in its slot, told by the table
  before them.  Either no put has to evict: its key is
  present, or there is room and no pressure.  Or the windows
  that the evictions scan end before the slot, and an unused
  slot in between stops every deletion from moving it.

  Main declarations:
    * `SessionTable.Calm`
    * `SessionTable.HasRoom`
    * `SessionTable.Sheltered`
    * `SessionTable.Undisturbed`
    * `SessionTable.Undisturbed.put`
    * `SessionTable.Displaced`
    * `SessionTable.Displaced.makeRoom`
-/

------------------------------------------------------------
-- Counting Unused Slots
------------------------------------------------------------

namespace QuicSniRouter

open LinearProbing

namespace SessionTable

variable {hash : Bytes → Nat}
variable {table room after : SessionTable} {args : PutArgs}
variable {i victim : Nat} {scans first puts slot : Nat}
variable {entry : Session} {key : SessionKey}
variable {keys : List SessionKey}

/- How far the eviction cursor is from a slot. -/
def evictDistance
    (table : SessionTable)
    (i : Nat) : Nat :=
  dist table.capacity (table.evictCursor % table.capacity) i

/-
  The unused slots among those that the eviction cursor
  comes to from its `first` step on, before its `last`.
-/
def unusedBetween
    (table : SessionTable)
    (first last : Nat) : Nat :=
  (List.range' first (last - first)).countP
    (fun k =>
      (table.sessions
        ((table.evictCursor + k) % table.capacity)).isNone)

theorem evictDistance_lt
    (hi : i < table.capacity) :
    table.evictDistance i < table.capacity :=
  dist_lt (Nat.mod_lt _ (by omega)) hi

/- So many steps from the cursor one is at the slot. -/
theorem evictDistance_reaches
    (hi : i < table.capacity) :
    (table.evictCursor + table.evictDistance i) %
        table.capacity = i := by
  have hPos : 0 < table.capacity := by omega
  have hSteps :=
    dist_between table.evictCursor
      (Nat.zero_le (table.evictDistance i))
      (evictDistance_lt hi)
  exact dist_inj (Nat.mod_lt table.evictCursor hPos)
    (Nat.mod_lt _ hPos) hi hSteps

/- A cursor that has moved on is nearer to the slot. -/
theorem evictDistance_moved
    (hi : i < table.capacity)
    (hCapacity : after.capacity = table.capacity)
    (hCursor :
      after.evictCursor =
        (table.evictCursor + scans) % table.capacity)
    (hScans : scans ≤ table.evictDistance i) :
    after.evictDistance i =
      table.evictDistance i - scans := by
  have hSteps :=
    dist_between table.evictCursor hScans
      (evictDistance_lt hi)
  rw [evictDistance_reaches hi] at hSteps
  unfold evictDistance at hSteps ⊢
  rw [hCapacity, hCursor, Nat.mod_mod, hSteps]

/- An earlier start counts no fewer slots. -/
theorem unusedBetween_mono
    (table : SessionTable)
    {second : Nat}
    (last : Nat)
    (hLe : first ≤ second) :
    table.unusedBetween second last ≤
      table.unusedBetween first last := by
  unfold unusedBetween
  by_cases hLast : second ≤ last
  · have hSplit :
        List.range' first (last - first) =
          List.range' first (second - first) ++
            List.range' second (last - second) := by
      have hAppend :=
        @List.range'_append first (second - first)
          (last - second) 1
      rw [show first + 1 * (second - first) = second by
          omega,
        show second - first + (last - second) =
          last - first by omega] at hAppend
      exact hAppend.symm
    rw [hSplit, List.countP_append]
    exact Nat.le_add_left _ _
  · rw [show last - second = 0 by omega]
    exact Nat.zero_le _

/- The count moves along with the cursor. -/
theorem unusedBetween_moved
    {last : Nat}
    (hCapacity : after.capacity = table.capacity)
    (hCursor :
      after.evictCursor =
        (table.evictCursor + scans) % table.capacity)
    (hUnused :
      ∀ x < table.capacity, table.sessions x = none →
        after.sessions x = none)
    (hPos : 0 < table.capacity) :
    table.unusedBetween (first + scans) last ≤
      after.unusedBetween first (last - scans) := by
  unfold unusedBetween
  rw [Nat.add_comm first scans, ← List.map_add_range',
    List.countP_map, Nat.add_comm scans first,
    ← Nat.sub_sub, Nat.sub_right_comm]
  apply List.countP_mono_left
  intro k _ hNone
  rw [Function.comp, Option.isNone_iff_eq_none] at hNone
  rw [Option.isNone_iff_eq_none, hCapacity, hCursor,
    Nat.mod_add_mod, Nat.add_assoc]
  exact hUnused _ (Nat.mod_lt _ hPos) hNone

/- One element more or less is one in the count. -/
theorem countP_le_succ
    {p q : Nat → Bool}
    {a : Nat}
    {l : List Nat}
    (hNodup : l.Nodup)
    (hRest : ∀ x ∈ l, p x = true → x ≠ a → q x = true) :
    l.countP p ≤ l.countP q + 1 := by
  have hEither :
      l.countP p ≤ l.countP q + l.countP (· == a) := by
    clear hNodup
    induction l with
    | nil => exact Nat.zero_le _
    | cons x rest ih =>
        have hTail :=
          ih (fun y hy =>
            hRest y (List.mem_cons_of_mem x hy))
        have hHead := hRest x List.mem_cons_self
        simp only [List.countP_cons]
        by_cases hxa : x = a
        · simp only [hxa, beq_self_eq_true, if_true]
          split <;> split <;> omega
        · by_cases hp : p x = true
          · rw [if_pos hp, if_pos (hHead hp hxa)]
            omega
          · rw [if_neg hp]
            omega
  have hOnce := List.nodup_iff_count_le_one.mp hNodup a
  unfold List.count at hOnce
  omega

/- Writing one slot uses up at most one of them. -/
theorem unusedBetween_fill
    {slot first last : Nat}
    {entry : Session}
    (hCapacity : after.capacity = table.capacity)
    (hCursor : after.evictCursor = table.evictCursor)
    (hSessions :
      after.sessions = fill table.sessions slot entry)
    (hLast : last ≤ table.capacity) :
    table.unusedBetween first last ≤
      after.unusedBetween first last + 1 := by
  unfold unusedBetween
  by_cases hHit :
      ∃ a < last,
        (table.evictCursor + a) % table.capacity = slot
  · rcases hHit with ⟨a, ha, hSlot⟩
    apply countP_le_succ (a := a) List.nodup_range'
    intro k hk hNone hka
    have hkLast := List.mem_range'_1.mp hk
    have hOther :
        (table.evictCursor + k) % table.capacity ≠
          slot := by
      rw [← hSlot]
      intro hSame
      -- The two steps would be a whole round apart.
      rcases Nat.le_total k a with hLe | hLe
      · have hSteps :=
          dist_between table.evictCursor hLe
            (show a < table.capacity by omega)
        rw [hSame, dist_self] at hSteps
        omega
      · have hSteps :=
          dist_between table.evictCursor hLe
            (show k < table.capacity by omega)
        rw [hSame, dist_self] at hSteps
        omega
    rw [hCapacity, hCursor, hSessions, fill_of_ne _ _ hOther]
    exact hNone
  · apply Nat.le_succ_of_le
    apply List.countP_mono_left
    intro k hk hNone
    have hkLast := List.mem_range'_1.mp hk
    have hOther :
        (table.evictCursor + k) % table.capacity ≠ slot :=
      fun hSame => hHit ⟨k, by omega, hSame⟩
    rw [hCapacity, hCursor, hSessions, fill_of_ne _ _ hOther]
    exact hNone

------------------------------------------------------------
-- Evictions Before The Slot
------------------------------------------------------------

/-
  The windows of the next `scans` evictions end before slot
  `i`, with at least `puts` unused slots between them and
  the slot.
-/
def Sheltered
    (table : SessionTable)
    (i scans puts : Nat) : Prop :=
  puts ≤
    table.unusedBetween (scans * table.evictScans)
      (table.evictDistance i)

theorem Sheltered.fewer
    {more : Nat}
    (hShelter : table.Sheltered i more puts)
    (hLe : scans ≤ more) :
    table.Sheltered i scans puts :=
  Nat.le_trans hShelter
    (unusedBetween_mono table _ (Nat.mul_le_mul_right _ hLe))

/- One of the unused slots. -/
theorem Sheltered.gap
    (hShelter : table.Sheltered i scans (puts + 1)) :
    ∃ k, scans * table.evictScans ≤ k ∧
      k < table.evictDistance i ∧
      table.sessions
          ((table.evictCursor + k) % table.capacity) =
        none := by
  unfold Sheltered unusedBetween at hShelter
  rcases List.countP_pos_iff.mp
      (show 0 < _ from hShelter.trans_lt' (by omega)) with
    ⟨k, hk, hNone⟩
  have hRange := List.mem_range'_1.mp hk
  exact ⟨k, hRange.1, by omega,
    Option.isNone_iff_eq_none.mp hNone⟩

/- The reinsertions of a deletion do not evict. -/
theorem tableDeleteAt_evictCursor
    {session : Session}
    (hPlaced : table.WellPlaced hash)
    (hi : i < table.capacity)
    (hCell : table.sessions i = some session) :
    (table.tableDeleteAt hash i).evictCursor =
      table.evictCursor := by
  apply hPlaced.delete_induction
    (P := fun n t c =>
      (closeGapWith (reinsert hash) n t c).evictCursor =
        t.evictCursor)
    _ _ hi hCell
  · intro n t c _ hNone
    unfold closeGapWith
    rw [hNone]
  · intro n t c saved hGap hSome hRest
    unfold closeGapWith
    rw [hSome]
    refine hRest.trans ?_
    unfold reinsert
    rcases reinserted_clear hash 0 hGap.cursor hSome
        hGap.distinct with
      ⟨_, hEq⟩ | ⟨_, f, _, _, _, hEq⟩
    · rw [hEq]
      rfl
    · rw [hEq]
      rfl

/-
  An eviction of a sheltered slot's table moves the cursor
  on, and changes neither the slot nor an unused one.
-/
theorem evictOldest_beyond
    (hInv : table.Inv hash)
    (hi : i < table.capacity)
    (hUsed : table.sessions i ≠ none)
    (hShelter : table.Sheltered i (scans + 1) (puts + 1)) :
    let after := table.evictOldest hash
    after.evictCursor =
        (table.evictCursor + table.evictScans) %
          table.capacity ∧
      after.sessions i = table.sessions i ∧
      ∀ x < table.capacity, table.sessions x = none →
        after.sessions x = none := by
  rcases Option.ne_none_iff_exists'.mp hUsed with
    ⟨session, hCell⟩
  have hCount := hInv.count
  have hVacate := used_vacate hi hCell
  cases hVictim : table.evictVictim with
  | none =>
      rw [evictOldest_scanned hash (by omega) hVictim]
      exact ⟨rfl, rfl, fun _ _ h => h⟩
  | some victim =>
      rcases evictOldest_of_some hInv hVictim with
        ⟨hLt, gone, hGone, hEq⟩
      have hPlaced := (scanned_inv hash hInv).placed
      have hInside := tableDeleteAt_inside hPlaced hLt hGone
      rw [hEq]
      refine
        ⟨tableDeleteAt_evictCursor hPlaced hLt hGone,
          hInside.outside i hi ?_, ?_⟩
      · -- The gap ends the run behind the victim.
        rcases oldest_scanned hVictim with ⟨v, hv, hAt⟩
        rcases hShelter.gap with ⟨k, hBeyond, hk, hNone⟩
        have hStep :
            table.evictScans ≤
              (scans + 1) * table.evictScans :=
          Nat.le_mul_of_pos_left _ (by omega)
        have hBound := evictDistance_lt hi
        have hGap :=
          dist_between table.evictCursor (show v ≤ k by omega)
            (show k < table.capacity by omega)
        have hSlot :=
          dist_between table.evictCursor
            (show v ≤ table.evictDistance i by omega) hBound
        rw [evictDistance_reaches hi] at hSlot
        rw [← hAt] at hGap hSlot
        have hNear :
            dist table.capacity victim
                ((table.evictCursor + k) % table.capacity) ≤
              dist table.capacity victim i := by
          omega
        exact fun hRun =>
          hRun _ (Nat.mod_lt _ hInv.pos) hNear hNone
      · intro x hx hNone
        by_contra hNe
        exact hInside.used x hx hNe hNone

/- So one window is used up by it. -/
theorem Sheltered.evictOldest
    (hInv : table.Inv hash)
    (hi : i < table.capacity)
    (hUsed : table.sessions i ≠ none)
    (hShelter : table.Sheltered i (scans + 1) (puts + 1)) :
    (table.evictOldest hash).sessions i = table.sessions i ∧
      (table.evictOldest hash).Sheltered i scans
        (puts + 1) := by
  have hCapacity := (evictOldest_thinned hInv).frame.capacity
  rcases evictOldest_beyond hInv hi hUsed hShelter with
    ⟨hCursor, hSame, hUnused⟩
  refine ⟨hSame, ?_⟩
  rcases hShelter.gap with ⟨k, hBeyond, hk, _⟩
  rw [Nat.succ_mul] at hBeyond
  unfold Sheltered at hShelter ⊢
  rw [show (table.evictOldest hash).evictScans =
      table.evictScans by unfold evictScans; rw [hCapacity],
    evictDistance_moved hi hCapacity hCursor (by omega)]
  rw [Nat.succ_mul] at hShelter
  exact Nat.le_trans hShelter
    (unusedBetween_moved hCapacity hCursor hUnused hInv.pos)

/- A put makes room in two windows at most. -/
theorem Sheltered.makeRoom
    {scans puts : Nat}
    (args : PutArgs)
    (hInv : table.Inv hash)
    (hi : i < table.capacity)
    (hUsed : table.sessions i ≠ none)
    (hShelter : table.Sheltered i (scans + 2) (puts + 1)) :
    (table.makeRoom hash args).sessions i = table.sessions i ∧
      (table.makeRoom hash args).Sheltered i scans
        (puts + 1) := by
  rcases hShelter.evictOldest hInv hi hUsed with
    ⟨hOnce, hLess⟩
  have hThin := evictOldest_thinned hInv
  unfold SessionTable.makeRoom
  cases table.probe hash args.key with
  | hit j => exact ⟨rfl, hShelter.fewer (by omega)⟩
  | exhausted => exact ⟨hOnce, hLess.fewer (by omega)⟩
  | vacant j =>
      dsimp only
      split
      · have hTwice :=
          hLess.evictOldest hThin.inv
            (by rw [hThin.frame.capacity]; exact hi)
            (by rw [hOnce]; exact hUsed)
        rw [hOnce] at hTwice
        exact hTwice
      · exact ⟨rfl, hShelter.fewer (by omega)⟩

/- And writing the entry takes one unused slot at most. -/
theorem Sheltered.wrote
    (hWrote : Wrote hash room args after slot entry)
    (hi : i < room.capacity)
    (hShelter : room.Sheltered i scans (puts + 1)) :
    after.Sheltered i scans puts := by
  have hCapacity := hWrote.frame.capacity
  have hFill :=
    @unusedBetween_fill room after slot
      (scans * room.evictScans) (room.evictDistance i) entry
      hCapacity hWrote.scan hWrote.sessions
      (Nat.le_of_lt (evictDistance_lt hi))
  unfold Sheltered at hShelter ⊢
  rw [show after.evictScans = room.evictScans by
      unfold evictScans; rw [hCapacity],
    show after.evictDistance i = room.evictDistance i by
      unfold evictDistance; rw [hCapacity, hWrote.scan]]
  omega

/- With so many entries a new key is put without eviction. -/
def Calm
    (table : SessionTable)
    (count : Nat) : Prop :=
  count < table.capacity ∧
    pressureEvictNeeded { table with count } = false

/- How many of the keys a put would add to the table. -/
def newKeys
    (hash : Bytes → Nat)
    (table : SessionTable)
    (keys : List SessionKey) : Nat :=
  keys.countP
    (fun key => key.valid && (table.get hash key).isNone)

/- All the keys can be put without an eviction. -/
def HasRoom
    (hash : Bytes → Nat)
    (table : SessionTable)
    (keys : List SessionKey) : Prop :=
  ∀ m < table.newKeys hash keys, table.Calm (table.count + m)

/- These conditions can be checked on a table. -/
instance
    (count : Nat) :
    Decidable (table.Calm count) := by
  unfold Calm
  infer_instance

instance
    (keys : List SessionKey) :
    Decidable (table.HasRoom hash keys) := by
  unfold HasRoom
  infer_instance

instance
    (scans puts : Nat) :
    Decidable (table.Sheltered i scans puts) := by
  unfold Sheltered
  infer_instance

/- A put removes no key that needed no room. -/
theorem Wrote.get_none
    (hWrote : Wrote hash room args after slot entry)
    (hInv : room.Inv hash)
    (hValid : key.valid = true)
    (hNone : after.get hash key = none) :
    room.get hash key = none := by
  rw [get_eq_none hWrote.inv hValid,
    hWrote.frame.capacity] at hNone
  apply (get_eq_none hInv hValid).mpr
  intro j hj s hSome
  by_cases hSlot : j = slot
  · subst hSlot
    have hEntry := hNone j hj entry
      (by rw [hWrote.sessions, fill_self])
    by_contra hEquals
    rw [Bool.not_eq_false] at hEquals
    have hBoth :=
      SessionKey.equals_trans hWrote.key
        (SessionKey.equals_trans
          (SessionKey.equals_symm
            (hWrote.overwritten hInv hSome)) hEquals)
    rw [hEntry] at hBoth
    cases hBoth
  · exact hNone j hj s
      (by rw [hWrote.sessions, fill_of_ne _ _ hSlot, hSome])

/- Where the first key is new, the table is calm. -/
theorem HasRoom.makeRoom
    {keys : List SessionKey}
    (hHasRoom : table.HasRoom hash (args.key :: keys))
    (hInv : table.Inv hash)
    (hValid : args.key.valid = true) :
    table.makeRoom hash args = table := by
  have hCalm :
      table.get hash args.key = none →
        table.Calm table.count := by
    intro hNone
    apply hHasRoom 0
    unfold newKeys
    rw [List.countP_cons, hValid, hNone]
    exact Nat.succ_pos _
  rcases makeRoom_cases args hInv hValid with
    ⟨_, hRoom⟩ | ⟨hNone, hFull, _⟩ |
      ⟨hNone, _, hPressure, _⟩ | ⟨_, _, _, hRoom⟩
  · exact hRoom
  · exact absurd hFull (Nat.ne_of_lt (hCalm hNone).1)
  · have hLow : table.pressureEvictNeeded = false :=
      (hCalm hNone).2
    rw [hLow, Bool.and_false] at hPressure
    cases hPressure
  · exact hRoom

theorem HasRoom.wrote
    (hHasRoom : table.HasRoom hash (args.key :: keys))
    (hInv : table.Inv hash)
    (hValid : args.key.valid = true)
    (hWrote : Wrote hash table args after slot entry) :
    after.HasRoom hash keys := by
  have hCapacity := hWrote.frame.capacity
  have hBefore := hInv.count
  have hAfter := hWrote.inv.count
  rw [hWrote.sessions, hCapacity] at hAfter
  have hFewer :
      after.newKeys hash keys ≤ table.newKeys hash keys := by
    apply List.countP_mono_left
    intro key _ hNew
    rw [Bool.and_eq_true, Option.isNone_iff_eq_none] at hNew ⊢
    exact ⟨hNew.1, hWrote.get_none hInv hNew.1 hNew.2⟩
  intro m hm
  -- Either the key was there, or the count has grown by one.
  have hCalm :
      table.Calm (after.count + m) := by
    have hCons :
        table.newKeys hash (args.key :: keys) =
          table.newKeys hash keys +
            if (args.key.valid &&
                (table.get hash args.key).isNone) = true
            then 1 else 0 :=
      List.countP_cons
    rcases hWrote.old with hNone | hGet
    · have hFill := used_fill entry hWrote.slot_lt hNone
      cases hGet : table.get hash args.key with
      | none =>
          rw [hValid, hGet] at hCons
          have hNext := hHasRoom (m + 1)
            (by rw [hCons]; simp; omega)
          rw [show after.count + m = table.count + (m + 1) by
            omega]
          exact hNext
      | some j =>
          rcases get_used hInv hGet with ⟨hj, s, hSome, hKey⟩
          have hjs : j ≠ slot := by
            intro hEq
            rw [hEq, hNone] at hSome
            cases hSome
          have hOther := hWrote.others j hj s hSome hjs
          rw [hKey] at hOther
          cases hOther
    · rcases get_used hInv hGet with ⟨_, s, hSome, _⟩
      have hSame := used_replace (n := table.capacity) entry
        hSome
      rw [show after.count = table.count by omega]
      exact hHasRoom m (by rw [hCons]; omega)
  unfold Calm pressureEvictNeeded at hCalm ⊢
  rw [hCapacity]
  exact hCalm

/-
  Puts of these keys, in their order, leave the entry of
  slot `i` there: none of them evicts, or all of them evict
  before the slot.
-/
def Undisturbed
    (hash : Bytes → Nat)
    (table : SessionTable)
    (i : Nat)
    (keys : List SessionKey) : Prop :=
  table.HasRoom hash keys ∨
    table.Sheltered i (2 * keys.length) keys.length

instance
    (keys : List SessionKey) :
    Decidable (table.Undisturbed hash i keys) := by
  unfold Undisturbed
  infer_instance

/- A put that is refused leaves the others their room. -/
theorem Undisturbed.tail
    (hCalm : table.Undisturbed hash i (key :: keys)) :
    table.Undisturbed hash i keys := by
  rcases hCalm with hHasRoom | hShelter
  · left
    intro m hm
    apply hHasRoom m
    unfold newKeys at hm ⊢
    rw [List.countP_cons]
    omega
  · right
    rw [List.length_cons] at hShelter
    have hFewer :=
      hShelter.fewer
        (show 2 * keys.length ≤ 2 * (keys.length + 1) by
          omega)
    exact Nat.le_of_succ_le hFewer

/- What one of the puts does to the slot. -/
structure LeavesSlot
    (hash : Bytes → Nat)
    (table : SessionTable)
    (args : PutArgs)
    (i : Nat)
    (after : SessionTable) : Prop where
  capacity : after.capacity = table.capacity
  room :
    (table.roomFor hash args).sessions i = table.sessions i
  used : after.sessions i ≠ none
  slot :
    after.sessions i = table.sessions i ∨
      (table.get hash args.key = some i ∧
        after.backendAt i = table.backendOf args)

theorem Wrote.leavesSlot
    (hInv : table.Inv hash)
    (hAccepts : table.Accepts args)
    (hi : i < table.capacity)
    (hUsed : table.sessions i ≠ none)
    (hRoom :
      (table.makeRoom hash args).sessions i =
        table.sessions i)
    (hWrote :
      Wrote hash (table.makeRoom hash args) args after slot
        entry) :
    LeavesSlot hash table args i after := by
  have hThin := makeRoom_thinned args hInv
  refine
    ⟨hWrote.frame.capacity.trans hThin.frame.capacity, ?_,
      ?_, ?_⟩
  · unfold roomFor
    rw [if_pos hAccepts]
    exact hRoom
  · rw [hWrote.sessions]
    by_cases hSlot : i = slot
    · rw [hSlot, fill_self]
      exact Option.some_ne_none _
    · rw [fill_of_ne _ _ hSlot, hRoom]
      exact hUsed
  · by_cases hSlot : i = slot
    · subst hSlot
      right
      rcases hWrote.old with hNone | hFound
      · rw [hRoom] at hNone
        exact absurd hNone hUsed
      · -- The room has the key where the table has it.
        rcases get_used hThin.inv hFound with
          ⟨_, s, hCell, hKey⟩
        rw [hRoom] at hCell
        have hGet :=
          (get_eq_some hInv hAccepts.2.1).mpr
            ⟨hi, s, hCell, hKey⟩
        refine ⟨hGet, ?_⟩
        rw [(hWrote.get hAccepts.2.1).2, makeRoom_of_get hGet]
    · left
      rw [hWrote.sessions, fill_of_ne _ _ hSlot, hRoom]

/- One put leaves the slot, and hands the condition on. -/
theorem Undisturbed.put
    {keys : List SessionKey}
    (hCalm : table.Undisturbed hash i (args.key :: keys))
    (hInv : table.Inv hash)
    (hi : i < table.capacity)
    (hUsed : table.sessions i ≠ none) :
    let after := (putInternal hash 2 table args).2
    LeavesSlot hash table args i after ∧
      after.Undisturbed hash i keys := by
  by_cases hAccepts : table.Accepts args
  · rcases putInternal_ok hInv hAccepts with
      ⟨after, slot, entry, hPut, hWrote⟩
    rw [hPut]
    rcases hCalm with hHasRoom | hShelter
    · have hRoom := hHasRoom.makeRoom hInv hAccepts.2.1
      refine ⟨hWrote.leavesSlot hInv hAccepts hi hUsed
        (by rw [hRoom]), Or.inl ?_⟩
      rw [hRoom] at hWrote
      exact hHasRoom.wrote hInv hAccepts.2.1 hWrote
    · have hMade :=
        @Sheltered.makeRoom hash table i (2 * keys.length)
          keys.length args hInv hi hUsed hShelter
      have hRoomCapacity :=
        (makeRoom_thinned args hInv).frame.capacity
      exact ⟨hWrote.leavesSlot hInv hAccepts hi hUsed hMade.1,
        Or.inr (hMade.2.wrote hWrote
          (by rw [hRoomCapacity]; exact hi))⟩
  · rw [putInternal_refused hash hAccepts]
    refine ⟨⟨rfl, ?_, hUsed, Or.inl rfl⟩, hCalm.tail⟩
    unfold roomFor
    rw [if_neg hAccepts]

/- A touched entry is as undisturbed as before. -/
theorem Undisturbed.touch
    (hCalm : table.Undisturbed hash i keys)
    (hInv : table.Inv hash)
    (now : Int) :
    (table.touch i now).Undisturbed hash i keys := by
  cases hCell : table.sessions i with
  | none =>
      unfold SessionTable.touch
      rw [hCell]
      exact hCalm
  | some s =>
      have hSame :
          table.touch i now =
            { table with
              sessions :=
                fill table.sessions i
                  { s with lastSeen := now } } := by
        unfold SessionTable.touch
        rw [hCell]
      rcases hCalm with hHasRoom | hShelter
      · left
        intro m hm
        have hFewer :
            (table.touch i now).newKeys hash keys ≤
              table.newKeys hash keys := by
          apply List.countP_mono_left
          intro key _ hNew
          rw [Bool.and_eq_true,
            Option.isNone_iff_eq_none] at hNew ⊢
          refine ⟨hNew.1, ?_⟩
          cases hGet : table.get hash key with
          | none => rfl
          | some p =>
              rw [touch_get i now hInv hGet] at hNew
              cases hNew.2
        have hCalm := hHasRoom m (by omega)
        rw [hSame]
        exact hCalm
      · right
        have hUnused :
            ∀ x,
              (fill table.sessions i
                { s with lastSeen := now } x).isNone =
                (table.sessions x).isNone := by
          intro x
          by_cases hx : x = i
          · rw [hx, fill_self, hCell]
            rfl
          · rw [fill_of_ne _ _ hx]
        rw [hSame]
        unfold Sheltered unusedBetween at hShelter ⊢
        simp only [hUnused]
        exact hShelter

/-
  The put of a new key evicts the entry of slot `i` first,
  and no other entry has its address.
-/
structure Displaced
    (hash : Bytes → Nat)
    (table : SessionTable)
    (i : Nat)
    (key : SessionKey) : Prop where
  valid : key.valid = true
  absent : table.get hash key = none
  crowded : ¬ table.Calm table.count
  victim : table.evictVictim = some i
  alone :
    ∀ j < table.capacity, j ≠ i →
      ∀ s, table.sessions j = some s →
        s.backend.storage ≠ (table.backendAt i).storage

/- Whatever is in the slot then, it is not the address. -/
theorem Displaced.makeRoom
    {backend : Sockaddr}
    (hDisplaced : table.Displaced hash i args.key)
    (hInv : table.Inv hash)
    (hPressure : args.allowPressureEvict = true)
    (hValid : backend.valid = true)
    (hSlot : (table.backendAt i).storage = backend.storage) :
    ((table.makeRoom hash args).backendAt i).storage ≠
      (table.backendAt i).storage := by
  rcases evictOldest_of_some hInv hDisplaced.victim with
    ⟨hi, session, hCell, _⟩
  have hOnce := evictOldest_thinned hInv
  have hGone :=
    evictOldest_victim hInv hDisplaced.victim hCell
  have hRest :
      ∀ s, (table.makeRoom hash args).sessions i = some s →
        Holds table.capacity (table.evictOldest hash).sessions
          s := by
    intro s hSome
    rcases makeRoom_cases args hInv hDisplaced.valid with
      ⟨hFound, _⟩ | ⟨_, _, hRoom⟩ | ⟨_, _, _, hRoom⟩ |
        ⟨_, hLess, hLow, _⟩
    · rw [hDisplaced.absent] at hFound
      cases hFound
    · rw [hRoom] at hSome
      exact ⟨i, hi, hSome⟩
    · rw [hRoom] at hSome
      have hTwice := (evictOldest_thinned hOnce.inv).holds s
      rw [hOnce.frame.capacity] at hTwice
      exact hTwice ⟨i, hi, hSome⟩
    · rw [hPressure, Bool.true_and] at hLow
      exact absurd ⟨hLess, hLow⟩ hDisplaced.crowded
  intro hSame
  cases hNow : (table.makeRoom hash args).sessions i with
  | none =>
      exact used_of_storage hValid (hSame.trans hSlot) hNow
  | some s =>
      rcases hOnce.holds s (hRest s hNow) with ⟨j, hj, hOld⟩
      by_cases hji : j = i
      · rw [hji, hCell] at hOld
        cases hOld
        exact hGone (hRest session hNow)
      · apply hDisplaced.alone j hj hji s hOld
        rw [← hSame]
        unfold backendAt
        rw [hNow]

end SessionTable

end QuicSniRouter
