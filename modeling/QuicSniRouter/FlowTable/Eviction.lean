import QuicSniRouter.FlowTable.Operations

/-
  When the eviction of a flow comes to something.  It scans
  a window at its cursor; where that has a flow, the oldest
  one of it goes, and where it has none nothing happens,
  however many flows there are elsewhere.

  Main declarations:
    * `FlowTable.Access` and `FlowTable.access`
    * `FlowTable.EvictsOne`
    * `FlowTable.evict_progress_iff`
-/

------------------------------------------------------------
-- The Window
------------------------------------------------------------

namespace QuicSniRouter

open LinearProbing

namespace FlowTable

variable {hash : Bytes → Nat} {table : FlowTable}

/- Some slot that the eviction scans is used. -/
def WindowUsed
    (table : FlowTable) : Prop :=
  ∃ i < table.evictScans,
    table.flows
      ((table.evictCursor + i) % table.capacity) ≠ none

/-
  One flow is removed and reported, and if the whole table
  is scanned none of its flows is older.
-/
def EvictsOne
    (hash : Bytes → Nat)
    (table : FlowTable) : Prop :=
  ∃ s < table.capacity, ∃ flow, table.flows s = some flow ∧
    (table.evictOldest hash).1 = 1 ∧
    (table.evictOldest hash).2.1.flows =
      vacate table.flows s ∧
    (table.evictOldest hash).2.1.count + 1 = table.count ∧
    (table.evictOldest hash).2.2 =
      .onClose flow .evicted :: closeFd flow.fd ∧
    (table.capacity ≤ flowEvictScanBudget →
      ∀ other, Holds table.capacity table.flows other →
        flow.lastSeen ≤ other.lastSeen)

theorem evictScans_small
    (hSmall : table.capacity ≤ flowEvictScanBudget) :
    table.evictScans = table.capacity := by
  unfold evictScans
  split
  · rfl
  · omega

theorem evictOldest_evictsOne
    (hInv : table.Inv hash)
    (hSome : 0 < table.count)
    (hUsed : table.WindowUsed) :
    table.EvictsOne hash := by
  rcases hUsed with ⟨i, hi, hCell⟩
  rcases Option.ne_none_iff_exists'.mp
      (oldest_ne_none hi hCell) with
    ⟨victim, hVictim⟩
  rcases oldest_used hInv.pos hVictim with ⟨hLt, flow, hFlow⟩
  have hPos := hInv.pos
  have hEq :
      table.evictOldest hash =
        (1, table.scanned.removeSlot hash victim
          .evicted) := by
    unfold evictOldest evictVictim
    rw [if_neg (by omega), hVictim]
  rcases removeSlot_spec .evicted (scanned_inv hInv) hLt
      hFlow with
    ⟨hAfter, hRemoved, hEvents⟩
  have hFlows : (table.scanned.removeSlot hash victim
      .evicted).1.flows = vacate table.flows victim :=
    hRemoved.flows
  have hVacate := used_vacate hLt hFlow
  have hCapacity : (table.scanned.removeSlot hash victim
      .evicted).1.capacity = table.capacity :=
    hRemoved.capacity
  refine ⟨victim, hLt, flow, hFlow, ?_⟩
  rw [hEq]
  refine ⟨rfl, hFlows, ?_, hEvents, ?_⟩
  · rw [hAfter.count, hInv.count, hFlows, hCapacity]
    exact hVacate
  · intro hSmall
    rw [evictScans_small hSmall] at hVictim
    exact oldest_ring_min hVictim hFlow

/- Without a flow in the window nothing is evicted. -/
theorem evictOldest_idle
    (hUsed : ¬ table.WindowUsed) :
    (table.evictOldest hash).1 = 0 := by
  have hNone : table.evictVictim = none := by
    apply oldest_eq_none.mpr
    intro i hi
    by_contra hCell
    exact hUsed ⟨i, hi, hCell⟩
  unfold evictOldest
  split
  · rfl
  · rw [hNone]

theorem evictsOne_iff
    (hInv : table.Inv hash)
    (hSome : 0 < table.count) :
    table.EvictsOne hash ↔ table.WindowUsed := by
  constructor
  · rintro ⟨_, _, _, _, hOne, _⟩
    by_contra hUsed
    rw [evictOldest_idle hUsed] at hOne
    cases hOne
  · exact evictOldest_evictsOne hInv hSome

/- A window that goes round the table has all its flows. -/
theorem windowUsed_of_small
    (hInv : table.Inv hash)
    (hSome : 0 < table.count)
    (hSmall : table.capacity ≤ flowEvictScanBudget) :
    table.WindowUsed := by
  rw [hInv.count] at hSome
  rcases exists_used hSome with ⟨p, hp, hCell⟩
  rcases exists_window table.evictCursor hp with
    ⟨i, hi, hHere⟩
  refine ⟨i, ?_, ?_⟩
  · rw [evictScans_small hSmall]
    exact hi
  · rw [hHere]
    exact hCell

/- A caller's write to a flow that it has looked up. -/
def writeFlow
    (table : FlowTable)
    (s : Nat)
    (backend : Sockaddr)
    (now : Int) : FlowTable :=
  match table.flows s with
  | none => table
  | some flow =>
      table.setFlow s
        { flow with backend, lastSeen := now }

/- What callers do with the table. -/
inductive Access
  | op (op : Op)
  | write
      (s : Nat)
      (backend : Sockaddr)
      (now : Int)

/- One access. -/
def access
    (hash : Bytes → Nat)
    (table : FlowTable) :
    Access → FlowTable
| .op op => (table.apply hash op).1
| .write s backend now => table.writeFlow s backend now

variable {hash : Bytes → Nat} {table : FlowTable}

theorem access_inv
    (a : Access)
    (hInv : table.Inv hash) :
    (table.access hash a).Inv hash := by
  cases a with
  | op op => exact (apply_spec op hInv).1
  | write s backend now =>
      have hAccess :
          table.access hash (.write s backend now) =
            table.writeFlow s backend now := rfl
      rw [hAccess]
      unfold writeFlow
      cases hFlow : table.flows s with
      | none => exact hInv
      | some flow => exact setFlow_inv hInv hFlow rfl

theorem accesses_inv
    (accesses : List Access)
    (hInv : table.Inv hash) :
    (accesses.foldl (access hash) table).Inv hash := by
  induction accesses generalizing table with
  | nil => exact hInv
  | cons a rest ih => exact ih (access_inv a hInv)

/-
  On every table that is reached, at any position of the
  cursor, an eviction removes one flow if and only if the
  scanned window has one; a table of up to 4096 slots always
  gives up an oldest one.
-/
theorem evict_progress_iff
    (hash : Bytes → Nat)
    (capacity : Nat)
    (start : FlowTable)
    (accesses : List Access)
    (evictCursor : Nat)
    (hStart : init capacity = .ok start) :
    let table :=
      { accesses.foldl (access hash) start with evictCursor }
    0 < table.count →
      (table.EvictsOne hash ↔ table.WindowUsed) ∧
        (table.capacity ≤ flowEvictScanBudget →
          table.EvictsOne hash) := by
  intro table hSome
  have hReached :=
    accesses_inv accesses (@init_inv hash capacity start
      hStart)
  have hInv : table.Inv hash :=
    ⟨hReached.pos, hReached.double, hReached.clients,
      hReached.slots, hReached.indexed, hReached.chain,
      hReached.distinct, hReached.load, hReached.count,
      hReached.freeNodup, hReached.free, hReached.cursor⟩
  refine ⟨evictsOne_iff hInv hSome, ?_⟩
  intro hSmall
  exact evictOldest_evictsOne hInv hSome
    (windowUsed_of_small hInv hSome hSmall)

/- One flow at most, in slot `s`, which is used next. -/
structure Lone
    (hash : Bytes → Nat)
    (s capacity evictCursor : Nat)
    (stored : Bool)
    (table : FlowTable) : Prop where
  inv : table.Inv hash
  capacity : table.capacity = capacity
  cursor : table.evictCursor = evictCursor
  slot : (table.flows s).isSome = stored
  others : ∀ t, t ≠ s → table.flows t = none
  free :
    stored = false → ∃ rest, table.freeSlots = s :: rest

variable {s capacity evictCursor : Nat}

theorem Lone.put
    {client backend : Sockaddr}
    {fd now : Int}
    (hLone : Lone hash s capacity evictCursor false table)
    (hPut : putValid client backend fd = true) :
    Lone hash s capacity evictCursor true
      (table.put hash client backend fd now).2.1 := by
  have hEmpty : ∀ t, table.flows t = none := by
    intro t
    by_cases hts : t = s
    · rw [hts]
      simpa using hLone.slot
    · exact hLone.others t hts
  rcases hLone.free rfl with ⟨rest, hFree⟩
  have hStored :
      Stored hash table client backend fd now
        (table.put hash client backend fd now) :=
    put_cases hLone.inv hPut
  generalize hResult :
    table.put hash client backend fd now = result
    at hStored ⊢
  cases hStored with
  | updated t flow ht hFlow hClient =>
      rw [hEmpty t] at hFlow
      cases hFlow
  | inserted base events t p rest' hAbsent hRoom hFree'
      hInv =>
      rcases hRoom with ⟨_, hBase, _⟩ | ⟨hFull, _⟩
      · subst hBase
        rw [hFree] at hFree'
        cases hFree'
        refine ⟨hInv, hLone.capacity, hLone.cursor, ?_, ?_,
          by simp⟩
        · simp [inserted]
        · intro u hu
          simp only [inserted]
          rw [fill_of_ne _ _ hu]
          exact hEmpty u
      · rw [hFree] at hFull
        cases hFull

/- A removal leaves the eviction cursor where it is. -/
theorem removeSlot_evictCursor
    {flow : Flow}
    (reason : FlowCloseReason)
    (hInv : table.Inv hash)
    (hs : s < table.capacity)
    (hFlow : table.flows s = some flow) :
    (table.removeSlot hash s reason).1.evictCursor =
      table.evictCursor := by
  rcases indexDelete_spec hInv hs hFlow with
    ⟨_, _, _, final, hDelete, _⟩
  unfold removeSlot
  rw [hFlow]
  simp only [hDelete]
  rfl

theorem Lone.evict
    (hLone : Lone hash s capacity evictCursor true table)
    (hCount : 0 < table.count)
    (hUsed : table.WindowUsed) :
    Lone hash s capacity
      ((evictCursor + table.evictScans) % capacity) false
      (table.evictOldest hash).2.1 := by
  have hInv := hLone.inv
  rcases evictOldest_evictsOne hInv hCount hUsed with
    ⟨_, _, _, _, hOne, _⟩
  rcases evictOldest_cases hInv with
    hEq | hEq | ⟨victim, hLt, flow, hFlow, hEq⟩
  · rw [hEq] at hOne
    cases hOne
  · rw [hEq] at hOne
    cases hOne
  · have hVictim : victim = s := by
      by_contra hNe
      rw [hLone.others victim hNe] at hFlow
      cases hFlow
    subst hVictim
    rw [hEq]
    rcases evicted_spec hInv hLt hFlow with
      ⟨hAfter, _, hRemoved⟩
    constructor
    · exact hAfter
    · rw [hRemoved.capacity]
      exact hLone.capacity
    · rw [removeSlot_evictCursor .evicted (scanned_inv hInv)
        hLt hFlow, ← hLone.capacity, ← hLone.cursor]
      rfl
    · rw [hRemoved.flows, vacate_self]
      rfl
    · intro t hts
      rw [hRemoved.flows, vacate_of_ne _ hts]
      exact hLone.others t hts
    · intro _
      exact ⟨_, hRemoved.freeSlots⟩

theorem Lone.count_pos
    (hLone : Lone hash s capacity evictCursor true table)
    (hs : s < capacity) :
    0 < table.count := by
  rcases Option.isSome_iff_exists.mp hLone.slot with
    ⟨flow, hFlow⟩
  have hVacate := used_vacate (hLone.capacity.symm ▸ hs) hFlow
  rw [hLone.inv.count]
  omega

theorem init_lone
    (hInit : init capacity = .ok table) :
    Lone hash 0 capacity 0 false table := by
  have hInv := @init_inv hash capacity table hInit
  unfold init at hInit
  split at hInit
  · cases hInit
  · rename_i hNonzero
    cases hInit
    refine ⟨hInv, rfl, rfl, rfl, fun _ _ => rfl, ?_⟩
    intro _
    rcases Nat.exists_eq_succ_of_ne_zero hNonzero with ⟨n, hn⟩
    rw [hn]
    exact ⟨_, List.range_succ_eq_map⟩

/- A client by its last byte. -/
def peer
    (host : UInt8) : Sockaddr where
  storage :=
    SockaddrStorage.ofBytes [2, 0, 0, 0, 10, 0, 0, host]
  len := 16

/-
  A flow is stored in slot 0 and evicted, which moves the
  cursor to slot 4096.  The next flow is stored in slot 0
  again, and the scan from there does not see it.
-/
def unseenAccesses : List Access :=
  [.op (.put (peer 1) (peer 9) 4 0), .op .evictOldest,
    .op (.put (peer 1) (peer 9) 5 1)]

theorem unseen_lone
    {start : FlowTable}
    (hStart : init 8192 = .ok start) :
    Lone (fun _ => 1) 0 8192 4096 true
      (unseenAccesses.foldl (access (fun _ => 1)) start) := by
  have hFirst :
      Lone (fun _ => 1) 0 8192 0 true
        (start.put (fun _ => 1) (peer 1) (peer 9) 4 0).2.1 :=
    (init_lone hStart).put rfl
  have hScans :
      (start.put (fun _ => 1) (peer 1) (peer 9) 4
        0).2.1.evictScans = 4096 := by
    unfold evictScans
    rw [hFirst.capacity]
    rfl
  have hEvicted :=
    hFirst.evict (hFirst.count_pos (by omega))
      ⟨0, by rw [hScans]; omega, by
        rw [hFirst.cursor, hFirst.capacity]
        exact Option.isSome_iff_ne_none.mp hFirst.slot⟩
  rw [hScans] at hEvicted
  exact hEvicted.put rfl

/- A flow out of the window is not evicted. -/
theorem unseen_flow_not_evicted :
    ∃ start table, init 8192 = .ok start ∧
      table =
        unseenAccesses.foldl (access (fun _ => 1)) start ∧
      0 < table.count ∧ ¬ table.EvictsOne (fun _ => 1) := by
  have hInit : ∃ start, init 8192 = .ok start := by
    unfold init
    rw [if_neg (by omega)]
    exact ⟨_, rfl⟩
  rcases hInit with ⟨start, hStart⟩
  have hLone := unseen_lone hStart
  have hCount := hLone.count_pos (by omega)
  refine ⟨start, _, hStart, rfl, hCount, ?_⟩
  rw [evictsOne_iff hLone.inv hCount]
  rintro ⟨i, hi, hUsed⟩
  rw [hLone.cursor, hLone.capacity] at hUsed
  have hScan : i < 4096 := by
    unfold evictScans at hi
    rw [hLone.capacity] at hi
    exact hi
  exact hUsed (hLone.others ((4096 + i) % 8192) (by omega))

/- Two flows of which the first was used again. -/
def reusedAccesses : List Access :=
  [.op (.put (peer 1) (peer 9) 4 0),
    .op (.put (peer 2) (peer 9) 5 1), .write 0 (peer 9) 2]

/- A table within the window gives up one flow. -/
theorem small_table_evicts :
    ∃ start table, init 2 = .ok start ∧
      table =
        reusedAccesses.foldl (access (fun _ => 1)) start ∧
      table.EvictsOne (fun _ => 1) :=
  ⟨_, _, rfl, rfl,
    (evict_progress_iff (fun _ => 1) 2 _ reusedAccesses 0
      rfl (by decide +kernel)).2 (by decide +kernel)⟩

end FlowTable

end QuicSniRouter
