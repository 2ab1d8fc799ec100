import QuicSniRouter.FlowTable.Invariant

/-
  What the operations on a flow table do to its slots, and
  that every sequence of them keeps the representation.

  Main declarations:
    * `FlowTable.Shrinks`
    * `FlowTable.put_cases`
    * `FlowTable.evictIf_spec`
    * `FlowTable.Op` and `FlowTable.apply`
    * `FlowTable.operations_represent_flows`
-/

------------------------------------------------------------
-- Removing Flows
------------------------------------------------------------

namespace QuicSniRouter

open LinearProbing

namespace FlowTable

variable {hash : Bytes → Nat}
variable {before after table base : FlowTable}
variable {events : List FlowEvent} {s : Nat}
variable {backend : Sockaddr} {fd now : Int}
variable {result : Option Nat × FlowTable × List FlowEvent}

/-
  Flows stay as they are or are removed; removed flows are
  reported with their descriptor, and nothing else is
  closed.
-/
structure Shrinks
    (before after : FlowTable)
    (events : List FlowEvent) : Prop where
  capacity : after.capacity = before.capacity
  nextId : after.nextId = before.nextId
  slots :
    ∀ s, after.flows s = before.flows s ∨
      (after.flows s = none ∧ ∃ flow reason,
        before.flows s = some flow ∧
        .onClose flow reason ∈ events ∧
        (flow.fd ≥ 0 → .close flow.fd ∈ events))
  closed :
    ∀ fd, .close fd ∈ events →
      ∃ s < before.capacity, ∃ flow,
        before.flows s = some flow ∧ flow.fd = fd ∧
          after.flows s = none

theorem Shrinks.refl
    (table : FlowTable) :
    Shrinks table table [] where
  capacity := rfl
  nextId := rfl
  slots := fun _ => Or.inl rfl
  closed := by simp

theorem Shrinks.flow
    {flow : Flow}
    (hShrinks : Shrinks before after events)
    (hFlow : after.flows s = some flow) :
    before.flows s = some flow := by
  rcases hShrinks.slots s with hSame | ⟨hNone, _⟩
  · rw [← hSame, hFlow]
  · rw [hNone] at hFlow
    cases hFlow

theorem Shrinks.none
    (hShrinks : Shrinks before after events)
    (hNone : before.flows s = none) :
    after.flows s = none := by
  cases hAfter : after.flows s with
  | none => rfl
  | some flow =>
      rw [hShrinks.flow hAfter] at hNone
      cases hNone

/- Removals in sequence. -/
theorem Shrinks.trans
    {a b c : FlowTable}
    {events' : List FlowEvent}
    (hab : Shrinks a b events)
    (hbc : Shrinks b c events') :
    Shrinks a c (events ++ events') where
  capacity := hbc.capacity.trans hab.capacity
  nextId := hbc.nextId.trans hab.nextId
  slots := by
    intro s
    rcases hab.slots s with
      hSame | ⟨hNone, flow, reason, hFlow, hOn, hFd⟩
    · rcases hbc.slots s with
        hSame' | ⟨hNone', flow, reason, hFlow, hOn, hFd⟩
      · exact Or.inl (hSame'.trans hSame)
      · right
        rw [hSame] at hFlow
        exact ⟨hNone', flow, reason, hFlow,
          List.mem_append_right _ hOn,
          fun h => List.mem_append_right _ (hFd h)⟩
    · right
      exact ⟨hbc.none hNone, flow, reason, hFlow,
        List.mem_append_left _ hOn,
        fun h => List.mem_append_left _ (hFd h)⟩
  closed := by
    intro fd hMem
    rcases List.mem_append.mp hMem with hFirst | hSecond
    · rcases hab.closed fd hFirst with
        ⟨s, hs, flow, hFlow, hFd, hNone⟩
      exact ⟨s, hs, flow, hFlow, hFd, hbc.none hNone⟩
    · rcases hbc.closed fd hSecond with
        ⟨s, hs, flow, hFlow, hFd, hNone⟩
      rw [hab.capacity] at hs
      exact ⟨s, hs, flow, hab.flow hFlow, hFd, hNone⟩

/- A removal only removes. -/
theorem removeSlot_shrinks
    {flow : Flow}
    (reason : FlowCloseReason)
    (hInv : table.Inv hash)
    (hs : s < table.capacity)
    (hFlow : table.flows s = some flow) :
    Shrinks table (table.removeSlot hash s reason).1
      (table.removeSlot hash s reason).2 := by
  rcases removeSlot_spec reason hInv hs hFlow with
    ⟨_, hRemoved, hEvents⟩
  rw [hEvents]
  refine
    { capacity := hRemoved.capacity
      nextId := hRemoved.nextId
      slots := ?_
      closed := ?_ }
  · intro t
    rw [hRemoved.flows]
    by_cases hts : t = s
    · subst hts
      right
      refine ⟨vacate_self _ _, flow, reason, hFlow, by simp,
        ?_⟩
      intro hFd
      simp [closeFd, hFd]
    · left
      exact vacate_of_ne _ hts
  · intro fd hMem
    refine ⟨s, hs, flow, hFlow, ?_, ?_⟩
    · rcases List.mem_cons.mp hMem with hOn | hClose
      · cases hOn
      · unfold closeFd at hClose
        split at hClose
        · simp only [List.mem_singleton,
            FlowEvent.close.injEq] at hClose
          exact hClose.symm
        · cases hClose
    · rw [hRemoved.flows]
      exact vacate_self _ _

theorem scanned_shrinks
    (table : FlowTable) :
    Shrinks table table.scanned [] where
  capacity := rfl
  nextId := rfl
  slots := fun _ => Or.inl rfl
  closed := by simp

/- The removal that follows a scan for the oldest flow. -/
theorem evicted_spec
    {victim : Nat}
    {flow : Flow}
    (hInv : table.Inv hash)
    (hLt : victim < table.capacity)
    (hFlow : table.flows victim = some flow) :
    let result :=
      table.scanned.removeSlot hash victim .evicted
    result.1.Inv hash ∧ Shrinks table result.1 result.2 ∧
      RemovedAt table victim result.1 := by
  have hScanned := scanned_inv hInv
  rcases removeSlot_spec .evicted hScanned hLt hFlow with
    ⟨hAfter, hRemoved, _⟩
  have hShrinks :=
    (scanned_shrinks table).trans
      (removeSlot_shrinks .evicted hScanned hLt hFlow)
  exact ⟨hAfter, hShrinks,
    ⟨hRemoved.flows, hRemoved.capacity, hRemoved.nextId,
      hRemoved.expireCursor, hRemoved.freeSlots⟩⟩

/- What an eviction does. -/
theorem evictOldest_spec
    (hInv : table.Inv hash) :
    let result := table.evictOldest hash
    result.2.1.Inv hash ∧
      Shrinks table result.2.1 result.2.2 := by
  rcases evictOldest_cases hInv with
    hEq | hEq | ⟨victim, hLt, flow, hFlow, hEq⟩
  · rw [hEq]
    exact ⟨hInv, Shrinks.refl table⟩
  · rw [hEq]
    exact ⟨scanned_inv hInv, scanned_shrinks table⟩
  · rw [hEq]
    rcases evicted_spec hInv hLt hFlow with
      ⟨hAfter, hShrinks, _⟩
    exact ⟨hAfter, hShrinks⟩

/- At most one of the flows is gone. -/
def LosesAtMostOne
    (before after : Nat → Option Flow) : Prop :=
  after = before ∨ ∃ v, after = vacate before v

/- No flow is gone, or one is and its slot is free. -/
def Spared
    (before after : FlowTable) : Prop :=
  after.flows = before.flows ∨
    (after.freeSlots ≠ [] ∧
      ∃ v, after.flows = vacate before.flows v)

theorem Spared.losesAtMostOne
    (hSpared : Spared before after) :
    LosesAtMostOne before.flows after.flows := by
  rcases hSpared with hSame | ⟨_, hGone⟩
  · exact Or.inl hSame
  · exact Or.inr hGone

/- An eviction spares all but one flow. -/
theorem evictOldest_spared
    (hInv : table.Inv hash) :
    Spared table (table.evictOldest hash).2.1 := by
  rcases evictOldest_cases hInv with
    hEq | hEq | ⟨victim, hLt, flow, hFlow, hEq⟩
  · rw [hEq]
    exact Or.inl rfl
  · rw [hEq]
    exact Or.inl rfl
  · rw [hEq]
    rcases evicted_spec hInv hLt hFlow with ⟨_, _, hRemoved⟩
    right
    refine ⟨?_, victim, hRemoved.flows⟩
    rw [hRemoved.freeSlots]
    exact List.cons_ne_nil _ _

/- What closing a flow does. -/
theorem remove_spec
    (s : Nat)
    (hInv : table.Inv hash) :
    let result := table.remove hash s
    result.1.Inv hash ∧ Shrinks table result.1 result.2 := by
  unfold remove
  by_cases hs : s < table.capacity
  · rw [if_pos hs]
    cases hFlow : table.flows s with
    | none =>
        simp only [removeSlot, hFlow]
        exact ⟨hInv, Shrinks.refl table⟩
    | some flow =>
        exact ⟨(removeSlot_spec .removed hInv hs hFlow).1,
          removeSlot_shrinks .removed hInv hs hFlow⟩
  · rw [if_neg hs]
    exact ⟨hInv, Shrinks.refl table⟩

/- What sweeping a slot does. -/
theorem sweepSlot_spec
    (pred : Flow → Bool)
    (reason : FlowCloseReason)
    (hInv : table.Inv hash)
    (hs : s < table.capacity) :
    let result := sweepSlot hash pred reason table s
    result.2.1.Inv hash ∧
      Shrinks table result.2.1 result.2.2 ∧
      (∀ t, t ≠ s → result.2.1.flows t = table.flows t) ∧
      result.2.1.flows s =
        (table.flows s).filter (fun flow => !pred flow) ∧
      result.2.1.expireCursor = table.expireCursor := by
  unfold sweepSlot
  cases hFlow : table.flows s with
  | none =>
      exact ⟨hInv, Shrinks.refl table, fun _ _ => rfl,
        by simp [hFlow], rfl⟩
  | some flow =>
      by_cases hPred : pred flow = true
      · simp only [hPred, if_true]
        rcases removeSlot_spec reason hInv hs hFlow with
          ⟨hAfter, hRemoved, _⟩
        refine ⟨hAfter,
          removeSlot_shrinks reason hInv hs hFlow, ?_, ?_,
          hRemoved.expireCursor⟩
        · intro t hts
          rw [hRemoved.flows, vacate_of_ne _ hts]
        · rw [hRemoved.flows, vacate_self]
          simp [Option.filter_some, hPred]
      · simp only [hPred]
        exact ⟨hInv, Shrinks.refl table, fun _ _ => rfl,
          by simp [Option.filter_some, hFlow, hPred], rfl⟩

/- One slot of the sweep, with the cursor moved on. -/
theorem expireSlot_inv
    (now idleTimeoutSeconds : Int)
    (hInv : table.Inv hash) :
    Inv hash
      { (sweepSlot hash (idle now idleTimeoutSeconds) .idle
          table table.expireCursor).2.1 with
        expireCursor :=
          next table.capacity table.expireCursor } := by
  rcases sweepSlot_spec (idle now idleTimeoutSeconds)
      .idle hInv hInv.cursor with
    ⟨hSwept, hShrinks, _, _, _⟩
  have hCursor :
      next table.capacity table.expireCursor <
        (sweepSlot hash (idle now idleTimeoutSeconds)
          .idle table table.expireCursor).2.1.capacity := by
    rw [hShrinks.capacity]
    exact next_lt hInv.pos _
  -- Moving the cursor touches no other field.
  exact ⟨hSwept.pos, hSwept.double, hSwept.clients,
    hSwept.slots, hSwept.indexed, hSwept.chain,
    hSwept.distinct, hSwept.load, hSwept.count,
    hSwept.freeNodup, hSwept.free, hCursor⟩

/- What the expiry loop does. -/
theorem expireLoop_spec
    (now idleTimeoutSeconds : Int)
    (scans : Nat)
    (hInv : table.Inv hash) :
    let result :=
      expireLoop hash now idleTimeoutSeconds scans table
    result.2.1.Inv hash ∧
      Shrinks table result.2.1 result.2.2 := by
  induction scans generalizing table with
  | zero => exact ⟨hInv, Shrinks.refl table⟩
  | succ scans ih =>
      rcases sweepSlot_spec (idle now idleTimeoutSeconds)
          .idle hInv hInv.cursor with
        ⟨_, hShrinks, _, _, _⟩
      rcases ih (expireSlot_inv now idleTimeoutSeconds
          hInv) with
        ⟨hAfter, hRest⟩
      refine ⟨hAfter, hShrinks.trans ?_⟩
      exact ⟨hRest.capacity, hRest.nextId, hRest.slots,
        hRest.closed⟩

/- A flow that is not idle survives the sweep. -/
theorem expireLoop_keeps
    (now idleTimeoutSeconds : Int)
    (scans : Nat)
    {flow : Flow}
    (hInv : table.Inv hash)
    (hFlow : table.flows s = some flow)
    (hActive : now - flow.lastSeen < idleTimeoutSeconds) :
    (expireLoop hash now idleTimeoutSeconds scans
      table).2.1.flows s = some flow := by
  induction scans generalizing table with
  | zero => exact hFlow
  | succ scans ih =>
      rcases sweepSlot_spec (idle now idleTimeoutSeconds)
          .idle hInv hInv.cursor with
        ⟨_, _, hOther, hSelf, _⟩
      apply ih (expireSlot_inv now idleTimeoutSeconds hInv)
      by_cases hAt : s = table.expireCursor
      · rw [← hAt] at hSelf ⊢
        dsimp only
        rw [hSelf, hFlow]
        simp [Option.filter_some, idle, hActive]
      · exact (hOther s hAt).trans hFlow

/- What sweeping all slots does. -/
theorem evictSlots_spec
    (pred : Flow → Bool)
    (slots : List Nat)
    (hInv : table.Inv hash)
    (hSlots : ∀ s ∈ slots, s < table.capacity)
    (hNodup : slots.Nodup) :
    let result := evictSlots hash pred slots table
    result.2.1.Inv hash ∧
      Shrinks table result.2.1 result.2.2 ∧
      (∀ s, s ∉ slots → result.2.1.flows s = table.flows s) ∧
      (∀ s ∈ slots, result.2.1.flows s =
        (table.flows s).filter (fun flow => !pred flow)) ∧
      result.2.1.expireCursor = table.expireCursor := by
  induction slots generalizing table with
  | nil =>
      exact ⟨hInv, Shrinks.refl table, fun _ _ => rfl,
        by simp, rfl⟩
  | cons s slots ih =>
      rcases List.nodup_cons.mp hNodup with ⟨hFresh, hNodup'⟩
      rcases sweepSlot_spec pred .filtered hInv
          (hSlots s List.mem_cons_self) with
        ⟨hSwept, hShrinks, hOther, hSelf, hCursor⟩
      have hSlots' :
          ∀ t ∈ slots,
            t < (sweepSlot hash pred .filtered table
              s).2.1.capacity := by
        intro t ht
        rw [hShrinks.capacity]
        exact hSlots t (List.mem_cons_of_mem s ht)
      rcases ih hSwept hSlots' hNodup' with
        ⟨hAfter, hRest, hOut, hIn, hCursor'⟩
      refine ⟨hAfter, hShrinks.trans hRest, ?_, ?_,
        hCursor'.trans hCursor⟩
      · intro t ht
        rw [List.mem_cons, not_or] at ht
        exact (hOut t ht.2).trans (hOther t ht.1)
      · intro t ht
        rcases List.mem_cons.mp ht with hts | hIn'
        · subst hts
          exact (hOut t hFresh).trans hSelf
        · have hts : t ≠ s := by
            intro hEq
            subst hEq
            exact hFresh hIn'
          rw [← hOther t hts]
          exact hIn t hIn'

/- The filtered eviction is an exact filter on the slots. -/
theorem evictIf_spec
    (pred : Flow → Bool)
    (hInv : table.Inv hash) :
    let result := table.evictIf hash pred
    result.2.1.Inv hash ∧
      Shrinks table result.2.1 result.2.2 ∧
      (∀ s < table.capacity, result.2.1.flows s =
        (table.flows s).filter (fun flow => !pred flow)) := by
  rcases evictSlots_spec pred (List.range table.capacity)
      hInv (by simp) List.nodup_range with
    ⟨hAfter, hShrinks, _, hIn, _⟩
  exact ⟨hAfter, hShrinks,
    fun s hs => hIn s (List.mem_range.mpr hs)⟩

------------------------------------------------------------
-- Puts
------------------------------------------------------------

/-
  The table into which a new flow is written: the table
  itself when it has a free slot, else what an eviction
  leaves.
-/
def Room
    (hash : Bytes → Nat)
    (table base : FlowTable)
    (events : List FlowEvent) : Prop :=
  (table.freeSlots ≠ [] ∧ base = table ∧ events = []) ∨
  (table.freeSlots = [] ∧
    ∃ victim < table.capacity, ∃ flow,
      table.flows victim = some flow ∧
      (base, events) =
        table.scanned.removeSlot hash victim .evicted)

/- With room there is a free slot. -/
theorem Room.spec
    (hInv : table.Inv hash)
    (hRoom : Room hash table base events) :
    base.Inv hash ∧ Shrinks table base events ∧
      base.freeSlots ≠ [] := by
  rcases hRoom with
    ⟨hFree, hBase, hEvents⟩ |
      ⟨_, victim, hLt, flow, hFlow, hEq⟩
  · subst hBase
    subst hEvents
    exact ⟨hInv, Shrinks.refl base, hFree⟩
  · rcases evicted_spec hInv hLt hFlow with
      ⟨hAfter, hShrinks, hRemoved⟩
    rw [← hEq] at hAfter hShrinks hRemoved
    refine ⟨hAfter, hShrinks, ?_⟩
    rw [hRemoved.freeSlots]
    exact List.cons_ne_nil _ _

/- A put does not evict again where one has made room. -/
theorem Room.losesAtMostOne
    (hInv : table.Inv hash)
    (hSpared : Spared before table)
    (hRoom : Room hash table base events) :
    LosesAtMostOne before.flows base.flows := by
  rcases hRoom with
    ⟨_, hBase, _⟩ | ⟨hFull, victim, hLt, flow, hFlow, hEq⟩
  · rw [hBase]
    exact hSpared.losesAtMostOne
  · rcases evicted_spec hInv hLt hFlow with ⟨_, _, hRemoved⟩
    rw [← hEq] at hRemoved
    rcases hSpared with hSame | ⟨hFree, _⟩
    · rw [← hSame]
      exact Or.inr ⟨victim, hRemoved.flows⟩
    · exact absurd hFull hFree

/- No used slot carries the tuple. -/
def Absent
    (table : FlowTable)
    (client : Sockaddr) : Prop :=
  ∀ s < table.capacity, ∀ flow,
    table.flows s = some flow →
      flow.client.equals client = false

/- The index tells which clients are absent. -/
theorem absent_iff
    {client : Sockaddr}
    (hInv : table.Inv hash) :
    (table.indexFind hash client).bind table.index = none ↔
      table.Absent client := by
  constructor
  · intro hFind s hs flow hFlow
    by_contra hEquals
    have hSome :=
      (indexFind_bind hInv).mpr
        ⟨hs, flow, hFlow, by simpa using hEquals⟩
    rw [hFind] at hSome
    cases hSome
  · intro hAbsent
    cases hFind :
        (table.indexFind hash client).bind table.index with
    | none => rfl
    | some s =>
        rcases (indexFind_bind hInv).mp hFind with
          ⟨hs, flow, hFlow, hEquals⟩
        rw [hAbsent s hs flow hFlow] at hEquals
        cases hEquals

theorem Shrinks.absent
    {client : Sockaddr}
    (hShrinks : Shrinks before after events)
    (hAbsent : before.Absent client) :
    after.Absent client := by
  intro s hs flow hFlow
  rw [hShrinks.capacity] at hs
  exact hAbsent s hs flow (hShrinks.flow hFlow)

/- The two ways in which a put stores a flow. -/
inductive Stored
    (hash : Bytes → Nat)
    (table : FlowTable)
    (client backend : Sockaddr)
    (fd now : Int) :
    Option Nat × FlowTable × List FlowEvent → Prop
  | updated
      (s : Nat)
      (flow : Flow)
      (hs : s < table.capacity)
      (hFlow : table.flows s = some flow)
      (hClient : flow.client.equals client = true) :
      Stored hash table client backend fd now
        (some s,
          table.setFlow s
            { flow with fd, backend, lastSeen := now },
          if flow.fd ≠ fd then closeFd flow.fd else [])
  | inserted
      (base : FlowTable)
      (events : List FlowEvent)
      (s p : Nat)
      (rest : List Nat)
      (hAbsent : table.Absent client)
      (hRoom : Room hash table base events)
      (hFree : base.freeSlots = s :: rest)
      (hInv :
        (base.inserted
          (base.newFlow client backend fd now) s p
            rest).Inv hash) :
      Stored hash table client backend fd now
        (some s,
          base.inserted
            (base.newFlow client backend fd now) s p rest,
          events)

/- A put into the room that was made. -/
theorem inserted_into_room
    {client : Sockaddr}
    (hInv : table.Inv hash)
    (hValid : client.valid = true)
    (hAbsent : table.Absent client)
    (hRoom : Room hash table base events) :
    Stored hash table client backend fd now
      ((base.insertFlow client backend fd now
          (base.indexFind hash client)).1,
        (base.insertFlow client backend fd now
          (base.indexFind hash client)).2,
        events) := by
  rcases hRoom.spec hInv with ⟨hBase, hShrinks, hFree⟩
  rcases List.exists_cons_of_ne_nil hFree with
    ⟨s, rest, hCons⟩
  have hNew := (absent_iff hBase).mpr (hShrinks.absent hAbsent)
  rcases @insertFlow_spec hash base client backend fd now s
      rest hBase hValid hNew hCons with
    ⟨hSlot, hAfter, p, hEq⟩
  rw [hSlot, hEq]
  rw [hEq] at hAfter
  exact Stored.inserted base events s p rest hAbsent hRoom
    hCons hAfter

theorem valid_of_putValid
    {client : Sockaddr}
    (hPut : putValid client backend fd = true) :
    client.valid = true := by
  simp only [putValid, Bool.and_eq_true] at hPut
  exact hPut.1.1.1

/- A put with valid arguments always stores its flow. -/
theorem put_cases
    {client : Sockaddr}
    (hInv : table.Inv hash)
    (hPut : putValid client backend fd = true) :
    Stored hash table client backend fd now
      (table.put hash client backend fd now) := by
  have hValid := valid_of_putValid hPut
  unfold put
  rw [if_neg (by simp [hPut])]
  dsimp only
  cases hFind :
      (table.indexFind hash client).bind table.index with
  | some s =>
      rcases (indexFind_bind hInv).mp hFind with
        ⟨hs, flow, hFlow, hClient⟩
      simp only [updateSlot, hFlow]
      exact Stored.updated s flow hs hFlow hClient
  | none =>
      have hAbsent := (absent_iff hInv).mp hFind
      by_cases hFull : table.freeSlots.length = 0
      · rw [if_pos hFull]
        rcases evictOldest_full hInv hFull with
          ⟨victim, hLt, flow, hFlow, hEq⟩
        rw [hEq]
        exact inserted_into_room hInv hValid hAbsent
          (Or.inr ⟨List.length_eq_zero_iff.mp hFull, victim,
            hLt, flow, hFlow, rfl⟩)
      · rw [if_neg hFull]
        apply inserted_into_room hInv hValid hAbsent
        left
        refine ⟨?_, rfl, rfl⟩
        intro hNil
        rw [hNil] at hFull
        exact hFull rfl

/- For a client that is not there, a flow is inserted. -/
theorem put_absent
    {table : FlowTable}
    {client backend : Sockaddr}
    {fd now : Int}
    (hInv : table.Inv hash)
    (hPut : putValid client backend fd = true)
    (hAbsent : table.Absent client) :
    ∃ base events s p rest,
      table.put hash client backend fd now =
          (some s,
            base.inserted
              (base.newFlow client backend fd now) s p rest,
            events) ∧
        Room hash table base events ∧
        s < base.capacity ∧
        base.flows s = none ∧
        (base.inserted
          (base.newFlow client backend fd now) s p
            rest).Inv hash := by
  have hStored :
      Stored hash table client backend fd now
        (table.put hash client backend fd now) :=
    put_cases hInv hPut
  generalize table.put hash client backend fd now = result
    at hStored ⊢
  cases hStored with
  | updated s flow hs hFlow hClient =>
      rw [hAbsent s hs flow hFlow] at hClient
      cases hClient
  | inserted base events s p rest _ hRoom hFree hAfter =>
      have hTop :
          s < base.capacity ∧ base.flows s = none := by
        apply ((hRoom.spec hInv).1.free s).mp
        rw [hFree]
        exact List.mem_cons_self
      exact ⟨base, events, s, p, rest, rfl, hRoom, hTop.1,
        hTop.2, hAfter⟩

/- A put keeps the invariant. -/
theorem Stored.inv
    {client : Sockaddr}
    (hInv : table.Inv hash)
    (hStored :
      Stored hash table client backend fd now result) :
    result.2.1.Inv hash ∧
      result.2.1.capacity = table.capacity := by
  cases hStored with
  | updated s flow hs hFlow hClient =>
      exact ⟨setFlow_inv hInv hFlow rfl, rfl⟩
  | inserted base events s p rest hAbsent hRoom hFree
      hAfter =>
      exact ⟨hAfter, (hRoom.spec hInv).2.1.capacity⟩

theorem Stored.slot
    {client : Sockaddr}
    (hStored :
      Stored hash table client backend fd now result) :
    result.1 ≠ none := by
  cases hStored with
  | updated => exact Option.some_ne_none _
  | inserted => exact Option.some_ne_none _

/- A refused put changes nothing. -/
theorem put_refused
    {client : Sockaddr}
    (hPut : putValid client backend fd = false) :
    table.put hash client backend fd now =
      (none, table, []) := by
  unfold put
  rw [if_pos (by simp [hPut])]

------------------------------------------------------------
-- Sequences Of Operations
------------------------------------------------------------

/- The operations that change a flow table. -/
inductive Op
  | put
      (client backend : Sockaddr)
      (fd now : Int)
  | remove (s : Nat)
  | evictOldest
  | expireIncremental
      (now idleTimeoutSeconds : Int)
      (scanBudget : Nat)
  | evictIf (pred : Flow → Bool)

/- One operation, with the flows that it closes. -/
def apply
    (hash : Bytes → Nat)
    (table : FlowTable) :
    Op → FlowTable × List FlowEvent
| .put client backend fd now =>
    (table.put hash client backend fd now).2
| .remove s => table.remove hash s
| .evictOldest => (table.evictOldest hash).2
| .expireIncremental now idleTimeoutSeconds scanBudget =>
    (table.expireIncremental hash now idleTimeoutSeconds
      scanBudget).2
| .evictIf pred => (table.evictIf hash pred).2

/- A flow stays in its slot under its tuple and id. -/
def Kept
    (after : FlowTable)
    (s : Nat)
    (flow : Flow) : Prop :=
  ∃ flow', after.flows s = some flow' ∧
    flow'.client = flow.client ∧ flow'.id = flow.id

/- A flow was removed: reported, and its tuple is gone. -/
def Removed
    (after : FlowTable)
    (events : List FlowEvent)
    (flow : Flow) : Prop :=
  (∃ reason, .onClose flow reason ∈ events) ∧
    after.Absent flow.client

/- Each flow stays, or its removal is reported. -/
def Stable
    (before after : FlowTable)
    (events : List FlowEvent) : Prop :=
  ∀ s < before.capacity, ∀ flow,
    before.flows s = some flow →
      Kept after s flow ∨ Removed after events flow

variable {hash : Bytes → Nat}

/- Removals are reported. -/
theorem Shrinks.stable
    (hInv : before.Inv hash)
    (hShrinks : Shrinks before after events) :
    Stable before after events := by
  intro s hs flow hFlow
  rcases hShrinks.slots s with
    hSame | ⟨hNone, flow', reason, hFlow', hOn, _⟩
  · left
    exact ⟨flow, by rw [hSame, hFlow], rfl, rfl⟩
  · right
    rw [hFlow] at hFlow'
    cases hFlow'
    refine ⟨⟨reason, hOn⟩, ?_⟩
    intro t ht other hOther
    rw [hShrinks.capacity] at ht
    by_contra hEquals
    have hts :=
      hInv.clientsDistinct t ht s hs other flow
        (hShrinks.flow hOther) hFlow
        (by simpa using hEquals)
    subst hts
    rw [hNone] at hOther
    cases hOther

/- A put reports what it removes. -/
theorem Stored.stable
    {client : Sockaddr}
    (hInv : table.Inv hash)
    (hStored :
      Stored hash table client backend fd now result) :
    Stable table result.2.1 result.2.2 := by
  cases hStored with
  | updated s old hs hOld hClient =>
      intro t ht flow hFlow
      left
      by_cases hts : t = s
      · subst hts
        rw [hOld] at hFlow
        cases hFlow
        exact ⟨_, fill_self _ _ _, rfl, rfl⟩
      · exact ⟨flow, by
          simp only [setFlow, fill_of_ne table.flows _ hts,
            hFlow], rfl, rfl⟩
  | inserted base events s p rest hAbsent hRoom hFree
      hAfter =>
      rcases hRoom.spec hInv with ⟨hBase, hShrinks, _⟩
      intro t ht flow hFlow
      have hTop : base.flows s = none := by
        apply ((hBase.free s).mp _).2
        rw [hFree]
        exact List.mem_cons_self
      rcases hShrinks.stable hInv t ht flow hFlow with
        ⟨flow', hFlow', hClient, hId⟩ | ⟨hOn, hGone⟩
      · left
        have hts : t ≠ s := by
          intro hEq
          subst hEq
          rw [hTop] at hFlow'
          cases hFlow'
        refine ⟨flow', ?_, hClient, hId⟩
        simp only [FlowTable.inserted,
          fill_of_ne base.flows _ hts, hFlow']
      · right
        refine ⟨hOn, ?_⟩
        intro u hu other hOther
        rcases fill_eq_some hOther with ⟨_, hNew⟩ | ⟨_, hOld⟩
        · rw [hNew]
          by_contra hEquals
          have hSame : client.equals flow.client = true := by
            simpa [newFlow] using hEquals
          have hMiss := hAbsent t ht flow hFlow
          rw [Sockaddr.equals_symm hSame] at hMiss
          cases hMiss
        · exact hGone u hu other hOld

/- Each operation keeps the invariant and reports. -/
theorem apply_spec
    (op : Op)
    (hInv : table.Inv hash) :
    let result := table.apply hash op
    result.1.Inv hash ∧ Stable table result.1 result.2 := by
  cases op with
  | put client backend fd now =>
      cases hPut : putValid client backend fd with
      | true =>
          have hStored :
              Stored hash table client backend fd now _ :=
            put_cases hInv hPut
          exact ⟨(hStored.inv hInv).1, hStored.stable hInv⟩
      | false =>
          simp only [apply, put_refused hPut]
          exact ⟨hInv, (Shrinks.refl table).stable hInv⟩
  | remove s =>
      rcases remove_spec s hInv with ⟨hAfter, hShrinks⟩
      exact ⟨hAfter, hShrinks.stable hInv⟩
  | evictOldest =>
      rcases evictOldest_spec hInv with ⟨hAfter, hShrinks⟩
      exact ⟨hAfter, hShrinks.stable hInv⟩
  | expireIncremental now idleTimeoutSeconds scanBudget =>
      rcases expireLoop_spec now idleTimeoutSeconds
          (min scanBudget table.capacity) hInv with
        ⟨hAfter, hShrinks⟩
      exact ⟨hAfter, hShrinks.stable hInv⟩
  | evictIf pred =>
      rcases evictIf_spec pred hInv with ⟨hAfter, hShrinks, _⟩
      exact ⟨hAfter, hShrinks.stable hInv⟩

/- A new table has no flows, and its first id is one. -/
theorem init_fresh
    {capacity : Nat}
    (hInit : init capacity = .ok table) :
    table.flows = (fun _ => none) ∧ table.nextId = 1 := by
  unfold init at hInit
  split at hInit
  · cases hInit
  · cases hInit
    exact ⟨rfl, rfl⟩

theorem init_inv
    {capacity : Nat}
    {table : FlowTable}
    (hInit : init capacity = .ok table) :
    table.Inv hash := by
  unfold init at hInit
  by_cases hZero : capacity = 0
  · simp [hZero] at hInit
  · simp only [hZero, if_false, Except.ok.injEq] at hInit
    subst hInit
    constructor
    · simp only
      omega
    · rfl
    · intro s _ flow hFlow
      cases hFlow
    · rintro s ⟨p, _, hCell⟩
      cases hCell
    · intro s _ flow hFlow
      cases hFlow
    · intro p _ s hCell
      cases hCell
    · intro p _ q _ a b hCell
      cases hCell
    · simp [used]
    · simp [used]
    · exact List.nodup_range
    · simp
    · simp only
      omega

/- The table after a sequence of operations. -/
def run
    (hash : Bytes → Nat)
    (ops : List Op)
    (table : FlowTable) : FlowTable :=
  ops.foldl (fun table op => (table.apply hash op).1) table

/- So do operations in sequence. -/
theorem run_inv
    (ops : List Op)
    (hInv : table.Inv hash) :
    (run hash ops table).Inv hash := by
  induction ops generalizing table with
  | nil => exact hInv
  | cons op ops ih => exact ih (apply_spec op hInv).1

/- Slot array, index and free-slot stack describe one map. -/
def Represents
    (hash : Bytes → Nat)
    (table : FlowTable) : Prop :=
  (∀ s < table.capacity, ∀ t < table.capacity,
    ∀ a b, table.flows s = some a →
      table.flows t = some b → s ≠ t →
        a.client.equals b.client = false) ∧
  table.count =
    ((Finset.range table.capacity).filter
      (fun s => (table.flows s).isSome)).card ∧
  table.count + table.freeSlots.length = table.capacity ∧
  table.freeSlots.Nodup ∧
  (∀ s, s ∈ table.freeSlots ↔
    s < table.capacity ∧ table.flows s = none) ∧
  (∀ p < table.indexCapacity, ∀ s, table.index p = some s →
    s < table.capacity ∧ table.flows s ≠ none) ∧
  (∀ s < table.capacity, table.flows s ≠ none →
    ∃! p, p < table.indexCapacity ∧ table.index p = some s) ∧
  (∀ client s, table.get hash client = some s ↔
    client.valid = true ∧ s < table.capacity ∧
      ∃ flow, table.flows s = some flow ∧
        flow.client.equals client = true)

/- The invariant says what is represented. -/
theorem Inv.represents
    (hInv : table.Inv hash) :
    table.Represents hash := by
  refine ⟨?_, hInv.count, hInv.count_add_free,
    hInv.freeNodup, hInv.free, ?_, ?_,
    fun client s => get_eq_some hInv⟩
  · intro s hs t ht a b ha hb hNe
    by_contra hEquals
    exact hNe
      (hInv.clientsDistinct s hs t ht a b ha hb
        (by simpa using hEquals))
  · intro p hp s hCell
    rcases hInv.slots s ⟨p, hp, hCell⟩ with ⟨hs, flow, hFlow⟩
    exact ⟨hs, by simp [hFlow]⟩
  · intro s hs hUsed
    rcases Option.ne_none_iff_exists'.mp hUsed with
      ⟨flow, hFlow⟩
    rcases hInv.indexed s hs flow hFlow with ⟨p, hp, hCell⟩
    refine ⟨p, ⟨hp, hCell⟩, ?_⟩
    rintro q ⟨hq, hCell'⟩
    exact hInv.distinct q hq p hp s s hCell' hCell
      (Sockaddr.equals_refl _)

/-
  Whatever is done to a table of any capacity, its three
  structures agree, flows that are not removed keep slot,
  tuple and id, and valid puts store their flow.
-/
theorem operations_represent_flows
    (hash : Bytes → Nat)
    (capacity : Nat)
    (ops : List Op)
    (hPos : 1 ≤ capacity) :
    ∃ start, init capacity = .ok start ∧
      Represents hash (run hash ops start) ∧
      (∀ op,
        Stable (run hash ops start)
          ((run hash ops start).apply hash op).1
          ((run hash ops start).apply hash op).2) ∧
      (∀ client backend fd now,
        putValid client backend fd = true →
          ((run hash ops start).put hash client backend fd
            now).1 ≠ none) := by
  have hInit : ∃ start, init capacity = .ok start := by
    unfold init
    rw [if_neg (by omega)]
    exact ⟨_, rfl⟩
  rcases hInit with ⟨start, hStart⟩
  have hInv : (run hash ops start).Inv hash :=
    run_inv ops (init_inv hStart)
  refine ⟨start, hStart, hInv.represents,
    fun op => (apply_spec op hInv).2, ?_⟩
  intro client backend fd now hPut
  exact (put_cases hInv hPut).slot

/- Two colliding clients, the first of which is removed. -/
def collidingOps : List Op :=
  let addr := fun host : UInt8 =>
    { storage :=
        SockaddrStorage.ofBytes [2, 0, 0, 0, 10, 0, 0, host]
      len := 16 : Sockaddr }
  [.put (addr 1) (addr 9) 4 0, .put (addr 2) (addr 9) 5 0,
    .remove 0]

/- Two clients of one hash are represented. -/
theorem colliding_flows_represented :
    ∃ start, init 2 = .ok start ∧
      Represents (fun _ => 1)
        (run (fun _ => 1) collidingOps start) := by
  rcases operations_represent_flows (fun _ => 1) 2
      collidingOps (by decide) with
    ⟨start, hStart, hRepresents, _⟩
  exact ⟨start, hStart, hRepresents⟩

end FlowTable

end QuicSniRouter
