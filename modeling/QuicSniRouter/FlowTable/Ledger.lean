import QuicSniRouter.Ledger
import QuicSniRouter.FlowTable.Operations

/-
  The descriptors of a flow table as a ledger: what a put
  takes over is closed once, by a removal, by a put that
  replaces it, or at the end.

  Main declarations:
    * `FlowTable.Removes`
    * `FlowTable.SoleOwners`
    * `FlowTable.Accounted`
    * `FlowTable.history`
    * `FlowTable.descriptor_ledger`
-/

------------------------------------------------------------
-- Removals In Order
------------------------------------------------------------

namespace QuicSniRouter

open LinearProbing

namespace FlowTable

variable {hash : Bytes → Nat} {n : Nat}
variable {flows after : Nat → Option Flow}
variable {events : List FlowEvent} {fd now : Int}
variable {table : FlowTable} {s : Nat} {flow : Flow}
variable {client backend : Sockaddr}

/-
  Flows are removed one by one: the callback sees the flow
  as it is stored, then its descriptor is closed.
-/
inductive Removes
    (n : Nat) :
    (Nat → Option Flow) → List FlowEvent →
      (Nat → Option Flow) → Prop
  | done
      (flows : Nat → Option Flow) :
      Removes n flows [] flows
  | remove
      {flows after : Nat → Option Flow}
      {events : List FlowEvent}
      (s : Nat)
      (flow : Flow)
      (reason : FlowCloseReason)
      (hs : s < n)
      (hFlow : flows s = some flow)
      (hRest : Removes n (vacate flows s) events after) :
      Removes n flows
        (.onClose flow reason :: .close flow.fd :: events)
        after

theorem Removes.trans
    {mid : Nat → Option Flow}
    {events' : List FlowEvent}
    (hFirst : Removes n flows events mid)
    (hSecond : Removes n mid events' after) :
    Removes n flows (events ++ events') after := by
  induction hFirst with
  | done _ => exact hSecond
  | remove s flow reason hs hFlow _ ih =>
      exact Removes.remove s flow reason hs hFlow (ih hSecond)

/- Every flow has a descriptor, and no two share one. -/
structure SoleOwners
    (n : Nat)
    (flows : Nat → Option Flow) : Prop where
  open_ :
    ∀ s < n, ∀ flow, flows s = some flow → 0 ≤ flow.fd
  distinct :
    ∀ s < n, ∀ t < n, ∀ a b,
      flows s = some a → flows t = some b →
        a.fd = b.fd → s = t

theorem SoleOwners.vacate
    (hSole : SoleOwners n flows)
    (s : Nat) :
    SoleOwners n (vacate flows s) where
  open_ := fun t ht flow hFlow =>
    hSole.open_ t ht flow (vacate_eq_some hFlow).2
  distinct := fun t ht u hu a b ha hb =>
    hSole.distinct t ht u hu a b (vacate_eq_some ha).2
      (vacate_eq_some hb).2

theorem Removes.soleOwners
    (hRemoves : Removes n flows events after)
    (hSole : SoleOwners n flows) :
    SoleOwners n after := by
  induction hRemoves with
  | done _ => exact hSole
  | remove s _ _ _ _ _ ih => exact ih (hSole.vacate s)

theorem closeFd_open
    (hOpen : 0 ≤ fd) :
    closeFd fd = [.close fd] := by
  simp [closeFd, hOpen]

theorem removeSlot_removes
    (reason : FlowCloseReason)
    (hInv : table.Inv hash)
    (hSole : SoleOwners table.capacity table.flows)
    (hs : s < table.capacity)
    (hFlow : table.flows s = some flow) :
    Removes table.capacity table.flows
      (table.removeSlot hash s reason).2
      (table.removeSlot hash s reason).1.flows := by
  rcases removeSlot_spec reason hInv hs hFlow with
    ⟨_, hRemoved, hEvents⟩
  rw [hEvents, hRemoved.flows,
    closeFd_open (hSole.open_ s hs flow hFlow)]
  exact Removes.remove s flow reason hs hFlow (Removes.done _)

theorem remove_removes
    (s : Nat)
    (hInv : table.Inv hash)
    (hSole : SoleOwners table.capacity table.flows) :
    Removes table.capacity table.flows (table.remove hash s).2
      (table.remove hash s).1.flows := by
  unfold remove
  by_cases hs : s < table.capacity
  · rw [if_pos hs]
    cases hFlow : table.flows s with
    | none =>
        simp only [removeSlot, hFlow]
        exact Removes.done _
    | some flow =>
        exact removeSlot_removes .removed hInv hSole hs hFlow
  · rw [if_neg hs]
    exact Removes.done _

theorem evictOldest_removes
    (hInv : table.Inv hash)
    (hSole : SoleOwners table.capacity table.flows) :
    Removes table.capacity table.flows
      (table.evictOldest hash).2.2
      (table.evictOldest hash).2.1.flows := by
  rcases evictOldest_cases hInv with
    hEq | hEq | ⟨victim, hLt, flow, hFlow, hEq⟩
  · rw [hEq]
    exact Removes.done _
  · rw [hEq]
    exact Removes.done _
  · rw [hEq]
    exact removeSlot_removes .evicted (scanned_inv hInv)
      hSole hLt hFlow

theorem sweepSlot_removes
    (pred : Flow → Bool)
    (reason : FlowCloseReason)
    (hInv : table.Inv hash)
    (hSole : SoleOwners table.capacity table.flows)
    (hs : s < table.capacity) :
    Removes table.capacity table.flows
      (sweepSlot hash pred reason table s).2.2
      (sweepSlot hash pred reason table s).2.1.flows := by
  unfold sweepSlot
  cases hFlow : table.flows s with
  | none => exact Removes.done _
  | some flow =>
      by_cases hPred : pred flow = true
      · simp only [hPred, if_true]
        exact removeSlot_removes reason hInv hSole hs hFlow
      · simp only [hPred]
        exact Removes.done _

theorem expireLoop_removes
    (now idleTimeoutSeconds : Int)
    (scans : Nat)
    (hInv : table.Inv hash)
    (hSole : SoleOwners table.capacity table.flows) :
    Removes table.capacity table.flows
      (expireLoop hash now idleTimeoutSeconds scans table).2.2
      (expireLoop hash now idleTimeoutSeconds scans
        table).2.1.flows := by
  induction scans generalizing table with
  | zero => exact Removes.done _
  | succ scans ih =>
      have hSwept :=
        sweepSlot_removes (idle now idleTimeoutSeconds)
          .idle hInv hSole hInv.cursor
      have hMoved :=
        (expireLoop_spec now idleTimeoutSeconds 1 hInv).1
      have hCapacity :=
        (sweepSlot_spec (idle now idleTimeoutSeconds) .idle
          hInv hInv.cursor).2.1.capacity
      have hRest := ih hMoved (by
        show SoleOwners
          (sweepSlot hash (idle now idleTimeoutSeconds)
            .idle table table.expireCursor).2.1.capacity _
        rw [hCapacity]
        exact hSwept.soleOwners hSole)
      refine hSwept.trans ?_
      have hSame :
          (expireLoop hash now idleTimeoutSeconds 1
            table).2.1.capacity = table.capacity :=
        hCapacity
      rw [hSame] at hRest
      exact hRest

theorem evictSlots_removes
    (pred : Flow → Bool)
    (slots : List Nat)
    (hInv : table.Inv hash)
    (hSole : SoleOwners table.capacity table.flows)
    (hSlots : ∀ s ∈ slots, s < table.capacity) :
    Removes table.capacity table.flows
      (evictSlots hash pred slots table).2.2
      (evictSlots hash pred slots table).2.1.flows := by
  induction slots generalizing table with
  | nil => exact Removes.done _
  | cons s slots ih =>
      have hs := hSlots s List.mem_cons_self
      have hSwept :=
        sweepSlot_removes pred .filtered hInv hSole hs
      rcases sweepSlot_spec pred .filtered hInv hs with
        ⟨hAfter, hShrinks, _⟩
      have hCapacity := hShrinks.capacity
      have hRest := ih hAfter
        (by
          rw [hCapacity]
          exact hSwept.soleOwners hSole)
        (by
          intro t ht
          rw [hCapacity]
          exact hSlots t (List.mem_cons_of_mem s ht))
      rw [hCapacity] at hRest
      exact hSwept.trans hRest

/- A put is given a descriptor that no flow owns. -/
def Offers
    (table : FlowTable) :
    Op → Prop
| .put _ _ fd _ =>
    0 ≤ fd ∧ ∀ s < table.capacity,
      (table.flows s).map Flow.fd ≠ some fd
| _ => True

instance
    (table : FlowTable)
    (op : Op) :
    Decidable (table.Offers op) := by
  cases op <;> unfold Offers <;> infer_instance

/- The flow of a tuple changes its descriptor. -/
def Replaced
    (table : FlowTable)
    (client backend : Sockaddr)
    (fd now : Int)
    (s : Nat)
    (result : FlowTable × List FlowEvent) : Prop :=
  ∃ old, table.flows s = some old ∧
    old.client.equals client = true ∧ old.fd ≠ fd ∧
    result.1.flows =
      fill table.flows s
        { old with fd, backend, lastSeen := now } ∧
    result.2 = [.close old.fd]

/- A flow is created, perhaps after an eviction. -/
def Created
    (table : FlowTable)
    (client backend : Sockaddr)
    (fd now : Int)
    (s : Nat)
    (result : FlowTable × List FlowEvent) : Prop :=
  table.Absent client ∧ ∃ room,
    Removes table.capacity table.flows result.2 room ∧
    room s = none ∧
    result.1.flows =
      fill room s (table.newFlow client backend fd now)

/- A refused put reports nothing and changes nothing. -/
def PutAccounted
    (table : FlowTable)
    (client backend : Sockaddr)
    (fd now : Int) :
    Option Nat × FlowTable × List FlowEvent → Prop
| (none, result) => result = (table, [])
| (some s, result) =>
    s < table.capacity ∧
      (table.Replaced client backend fd now s result ∨
        table.Created client backend fd now s result)

/- Every other operation reports its removals. -/
def Accounted
    (hash : Bytes → Nat)
    (table : FlowTable) :
    Op → Prop
| .put client backend fd now =>
    table.PutAccounted client backend fd now
      (table.put hash client backend fd now)
| op =>
    Removes table.capacity table.flows
      (table.apply hash op).2 (table.apply hash op).1.flows

theorem put_accounted
    (hInv : table.Inv hash)
    (hSole : SoleOwners table.capacity table.flows)
    (hOffers : table.Offers (.put client backend fd now)) :
    table.PutAccounted client backend fd now
      (table.put hash client backend fd now) := by
  cases hPut : putValid client backend fd with
  | false =>
      rw [put_refused hPut]
      rfl
  | true =>
      have hStored :
          Stored hash table client backend fd now _ :=
        put_cases hInv hPut
      generalize table.put hash client backend fd now =
        result at hStored
      cases hStored with
      | updated s old hs hOld hClient =>
          have hFd : old.fd ≠ fd := by
            intro hEq
            exact hOffers.2 s hs (by simp [hOld, hEq])
          refine ⟨hs, Or.inl
            ⟨old, hOld, hClient, hFd, rfl, ?_⟩⟩
          simp only [if_pos hFd]
          exact closeFd_open (hSole.open_ s hs old hOld)
      | inserted base events s p rest hAbsent hRoom hFree
          hAfter =>
          rcases hRoom.spec hInv with ⟨hBase, hShrinks, _⟩
          have hTop := (hBase.free s).mp (by simp [hFree])
          rw [hShrinks.capacity] at hTop
          refine ⟨hTop.1, Or.inr
            ⟨hAbsent, base.flows, ?_, hTop.2, ?_⟩⟩
          · rcases hRoom with
              ⟨_, hEq, hEvents⟩ |
                ⟨_, victim, hLt, flow, hFlow, hEq⟩
            · subst hEq
              subst hEvents
              exact Removes.done _
            · have hRemoves :=
                removeSlot_removes .evicted
                  (scanned_inv hInv) hSole hLt hFlow
              rw [← hEq] at hRemoves
              exact hRemoves
          · show fill base.flows s _ = _
            unfold newFlow
            rw [hShrinks.nextId]

/- Each operation accounts for its descriptors. -/
theorem apply_accounted
    (op : Op)
    (hInv : table.Inv hash)
    (hSole : SoleOwners table.capacity table.flows)
    (hOffers : table.Offers op) :
    table.Accounted hash op := by
  cases op with
  | put client backend fd now =>
      exact put_accounted hInv hSole hOffers
  | remove s => exact remove_removes s hInv hSole
  | evictOldest => exact evictOldest_removes hInv hSole
  | expireIncremental now idleTimeoutSeconds scanBudget =>
      exact expireLoop_removes now idleTimeoutSeconds _ hInv
        hSole
  | evictIf pred =>
      exact evictSlots_removes pred _ hInv hSole (by simp)

/- Tearing the table down removes the flows that are left. -/
theorem free_removes
    (hSole : SoleOwners table.capacity table.flows) :
    ∃ after,
      Removes table.capacity table.flows table.free.2 after ∧
      ∀ s < table.capacity, after s = none := by
  have hFirst :
      ∀ m ≤ table.capacity, ∃ after,
        Removes table.capacity table.flows
          ((List.range m).flatMap table.freeSlot) after ∧
        (∀ s < m, after s = none) ∧
        ∀ s, m ≤ s → after s = table.flows s := by
    intro m
    induction m with
    | zero =>
        intro _
        exact ⟨table.flows, Removes.done _, by omega,
          fun _ _ => rfl⟩
    | succ m ih =>
        intro hm
        rcases ih (by omega) with
          ⟨mid, hRemoves, hGone, hLeft⟩
        rw [List.range_succ, List.flatMap_append,
          List.flatMap_singleton]
        cases hFlow : table.flows m with
        | none =>
            refine ⟨mid, ?_, ?_, ?_⟩
            · simpa [freeSlot, hFlow] using hRemoves
            · intro s hs
              by_cases hEq : s = m
              · subst hEq
                rw [hLeft s (Nat.le_refl s), hFlow]
              · exact hGone s (by omega)
            · intro s hs
              exact hLeft s (by omega)
        | some flow =>
            have hMid : mid m = some flow := by
              rw [hLeft m (Nat.le_refl m), hFlow]
            refine ⟨vacate mid m, hRemoves.trans ?_, ?_, ?_⟩
            · simp only [freeSlot, hFlow,
                closeFd_open
                  (hSole.open_ m (by omega) flow hFlow)]
              exact Removes.remove m flow .shutdown
                (by omega) hMid (Removes.done _)
            · intro s hs
              by_cases hEq : s = m
              · subst hEq
                exact vacate_self mid s
              · rw [vacate_of_ne mid hEq]
                exact hGone s (by omega)
            · intro s hs
              rw [vacate_of_ne mid (by omega)]
              exact hLeft s (by omega)
  rcases hFirst table.capacity (Nat.le_refl _) with
    ⟨after, hRemoves, hGone, _⟩
  exact ⟨after, hRemoves, hGone⟩

------------------------------------------------------------
-- The Ledger Of A Run
------------------------------------------------------------

open LinearProbing Ledger

/- The descriptors that the flows own. -/
def liveFds
    (n : Nat)
    (flows : Nat → Option Flow) : Set Int :=
  fun fd => ∃ s < n, (flows s).map Flow.fd = some fd

theorem mem_liveFds
    (hs : s < n)
    (hFlow : flows s = some flow) :
    flow.fd ∈ liveFds n flows :=
  ⟨s, hs, by rw [hFlow]; rfl⟩

theorem liveFds_vacate
    (hSole : SoleOwners n flows)
    (hs : s < n)
    (hFlow : flows s = some flow) :
    liveFds n (vacate flows s) =
      liveFds n flows \ {flow.fd} := by
  ext fd
  constructor
  · rintro ⟨t, ht, hFd⟩
    rcases Option.map_eq_some_iff.mp hFd with
      ⟨other, hOther, rfl⟩
    rcases vacate_eq_some hOther with ⟨hNe, hOld⟩
    refine ⟨mem_liveFds ht hOld, ?_⟩
    intro hEq
    exact hNe
      (hSole.distinct t ht s hs other flow hOld hFlow hEq)
  · rintro ⟨⟨t, ht, hFd⟩, hNe⟩
    refine ⟨t, ht, ?_⟩
    have hts : t ≠ s := by
      intro hEq
      subst hEq
      rw [hFlow] at hFd
      exact hNe (Option.some.inj hFd).symm
    rw [vacate_of_ne flows hts, hFd]

theorem liveFds_fill
    (new : Flow)
    (hs : s < n)
    (hNone : flows s = none) :
    liveFds n (fill flows s new) =
      insert new.fd (liveFds n flows) := by
  ext fd
  constructor
  · rintro ⟨t, ht, hFd⟩
    rcases Option.map_eq_some_iff.mp hFd with
      ⟨other, hOther, rfl⟩
    rcases fill_eq_some hOther with ⟨_, hNew⟩ | ⟨_, hOld⟩
    · exact Or.inl (by rw [hNew])
    · exact Or.inr (mem_liveFds ht hOld)
  · rintro (hEq | ⟨t, ht, hFd⟩)
    · exact ⟨s, hs, by rw [fill_self, hEq]; rfl⟩
    · refine ⟨t, ht, ?_⟩
      have hts : t ≠ s := by
        intro hEq
        subst hEq
        rw [hNone] at hFd
        cases hFd
      rw [fill_of_ne flows new hts, hFd]

theorem SoleOwners.fill
    {new : Flow}
    (hSole : SoleOwners n flows)
    (hOpen : 0 ≤ new.fd)
    (hNew : new.fd ∉ liveFds n flows) :
    SoleOwners n (fill flows s new) where
  open_ := by
    intro t ht flow hFlow
    rcases fill_eq_some hFlow with ⟨_, hEq⟩ | ⟨_, hOld⟩
    · rw [hEq]
      exact hOpen
    · exact hSole.open_ t ht flow hOld
  distinct := by
    intro t ht u hu a b ha hb hFd
    rcases fill_eq_some ha with ⟨hts, hEq⟩ | ⟨_, hOldA⟩
    · rcases fill_eq_some hb with ⟨hus, _⟩ | ⟨_, hOldB⟩
      · rw [hts, hus]
      · rw [hEq] at hFd
        rw [hFd] at hNew
        exact absurd (mem_liveFds hu hOldB) hNew
    · rcases fill_eq_some hb with ⟨_, hEq⟩ | ⟨_, hOldB⟩
      · rw [hEq] at hFd
        rw [← hFd] at hNew
        exact absurd (mem_liveFds ht hOldA) hNew
      · exact hSole.distinct t ht u hu a b hOldA hOldB hFd

/- What a callback or a close means for the ledger. -/
def FlowEvent.use :
    FlowEvent → Option (Use Int)
| .onClose _ _ => none
| .close fd => some (.release fd)

/- What a put takes over. -/
def accepts
    (hash : Bytes → Nat)
    (table : FlowTable) :
    Op → List (Use Int)
| .put client backend fd now =>
    if (table.put hash client backend fd now).1 = none then
      []
    else
      [.acquire fd]
| _ => []

/- The new descriptor is stored after the old is closed. -/
def opUses
    (hash : Bytes → Nat)
    (table : FlowTable)
    (op : Op) : List (Use Int) :=
  (table.apply hash op).2.filterMap FlowEvent.use ++
    table.accepts hash op

/- The uses of descriptors, in order. -/
def history
    (hash : Bytes → Nat) :
    FlowTable → List Op → List (Use Int)
| _, [] => []
| table, op :: ops =>
    table.opUses hash op ++
      history hash (table.apply hash op).1 ops

theorem Removes.settles
    (hRemoves : Removes n flows events after)
    (hSole : SoleOwners n flows) :
    Settles (liveFds n flows) (events.filterMap FlowEvent.use)
      (liveFds n after) := by
  induction hRemoves with
  | done _ => exact Settles.nil _
  | remove s flow reason hs hFlow _ ih =>
      have hRest := ih (hSole.vacate s)
      rw [liveFds_vacate hSole hs hFlow] at hRest
      exact Settles.release flow.fd (mem_liveFds hs hFlow)
        hRest

/- An accepted descriptor joins the owned ones. -/
theorem settles_fill
    {room : Nat → Option Flow}
    {uses : List (Use Int)}
    (new : Flow)
    (hUses : Settles (liveFds n flows) uses (liveFds n room))
    (hSole : SoleOwners n room)
    (hs : s < n)
    (hNone : room s = none)
    (hOpen : 0 ≤ new.fd)
    (hNew : new.fd ∉ liveFds n room) :
    Settles (liveFds n flows) (uses ++ [.acquire new.fd])
        (liveFds n (fill room s new)) ∧
      SoleOwners n (fill room s new) := by
  refine ⟨?_, hSole.fill hOpen hNew⟩
  rw [liveFds_fill new hs hNone]
  exact hUses.append
    (Settles.acquire new.fd hNew (Settles.nil _))

theorem Removes.liveFds
    (hRemoves : Removes n flows events after) :
    liveFds n after ⊆ liveFds n flows := by
  induction hRemoves with
  | done _ => exact fun _ h => h
  | remove s flow reason hs hFlow _ ih =>
      intro fd hMem
      rcases ih hMem with ⟨t, ht, hFd⟩
      rcases Option.map_eq_some_iff.mp hFd with
        ⟨other, hOther, rfl⟩
      exact mem_liveFds ht (vacate_eq_some hOther).2

theorem put_settles
    (hInv : table.Inv hash)
    (hSole : SoleOwners table.capacity table.flows)
    (hOffers : table.Offers (.put client backend fd now)) :
    let after :=
      (table.put hash client backend fd now).2.1.flows
    Settles (liveFds table.capacity table.flows)
        (table.opUses hash (.put client backend fd now))
        (liveFds table.capacity after) ∧
      SoleOwners table.capacity after := by
  have hAccounted := put_accounted hInv hSole hOffers
  have hUnowned :
      fd ∉ liveFds table.capacity table.flows := by
    rintro ⟨s, hs, hFd⟩
    exact hOffers.2 s hs hFd
  simp only [opUses, accepts, apply]
  rcases hPut : table.put hash client backend fd now with
    ⟨_ | s, result⟩
  · rw [hPut] at hAccounted
    have hSame : result = (table, []) := hAccounted
    rw [hSame]
    exact ⟨Settles.nil _, hSole⟩
  · rw [hPut] at hAccounted
    rcases hAccounted with
      ⟨hs, ⟨old, hOld, _, _, hFlows, hEvents⟩ |
        ⟨_, room, hRemoves, hNone, hFlows⟩⟩
    · -- The old descriptor leaves before the new one comes.
      have hVacate := hSole.vacate s
      have hLive := liveFds_vacate hSole hs hOld
      have hReleased :
          Settles (liveFds table.capacity table.flows)
            [.release old.fd]
            (liveFds table.capacity
              (vacate table.flows s)) := by
        rw [hLive]
        exact Settles.release old.fd (mem_liveFds hs hOld)
          (Settles.nil _)
      have hFilled :=
        settles_fill
          { old with fd, backend, lastSeen := now }
          hReleased hVacate hs (vacate_self _ s) hOffers.1
          (by
            rw [hLive]
            exact fun h => hUnowned h.1)
      simp only [hFlows, hEvents]
      simpa [FlowEvent.use, LinearProbing.fill,
        LinearProbing.vacate] using hFilled
    · have hFilled :=
        settles_fill (table.newFlow client backend fd now)
          (hRemoves.settles hSole)
          (hRemoves.soleOwners hSole) hs hNone hOffers.1
          (fun h => hUnowned (hRemoves.liveFds h))
      simp only [hFlows]
      exact hFilled

theorem apply_capacity
    (op : Op)
    (hInv : table.Inv hash) :
    (table.apply hash op).1.capacity = table.capacity := by
  cases op with
  | put client backend fd now =>
      cases hPut : putValid client backend fd with
      | true =>
          have hStored :
              Stored hash table client backend fd now _ :=
            put_cases hInv hPut
          exact (hStored.inv hInv).2
      | false => simp only [apply, put_refused hPut]
  | remove s => exact (remove_spec s hInv).2.capacity
  | evictOldest => exact (evictOldest_spec hInv).2.capacity
  | expireIncremental now idleTimeoutSeconds scanBudget =>
      exact (expireLoop_spec now idleTimeoutSeconds _
        hInv).2.capacity
  | evictIf pred => exact (evictIf_spec pred hInv).2.1.capacity

/- Each operation settles what it uses. -/
theorem apply_settles
    (op : Op)
    (hInv : table.Inv hash)
    (hSole : SoleOwners table.capacity table.flows)
    (hOffers : table.Offers op) :
    let after := (table.apply hash op).1
    Settles (liveFds table.capacity table.flows)
        (table.opUses hash op)
        (liveFds table.capacity after.flows) ∧
      SoleOwners table.capacity after.flows := by
  have hAccounted := apply_accounted op hInv hSole hOffers
  have hRemoval :
      ∀ events flows,
        Removes table.capacity table.flows events flows →
          Settles (liveFds table.capacity table.flows)
              (events.filterMap FlowEvent.use ++ [])
              (liveFds table.capacity flows) ∧
            SoleOwners table.capacity flows := by
    intro events flows hRemoves
    rw [List.append_nil]
    exact ⟨hRemoves.settles hSole, hRemoves.soleOwners hSole⟩
  cases op with
  | put client backend fd now =>
      exact put_settles hInv hSole hOffers
  | remove s => exact hRemoval _ _ hAccounted
  | evictOldest => exact hRemoval _ _ hAccounted
  | expireIncremental now idleTimeoutSeconds scanBudget =>
      exact hRemoval _ _ hAccounted
  | evictIf pred => exact hRemoval _ _ hAccounted

/- Every put of a sequence is given an unowned descriptor. -/
def Offered
    (hash : Bytes → Nat) :
    FlowTable → List Op → Prop
| _, [] => True
| table, op :: ops =>
    table.Offers op ∧ Offered hash (table.apply hash op).1 ops

/- A run settles what it uses. -/
theorem run_settles
    (ops : List Op)
    (hInv : table.Inv hash)
    (hSole : SoleOwners table.capacity table.flows)
    (hOffered : Offered hash table ops) :
    let final := run hash ops table
    Settles (liveFds table.capacity table.flows)
        (history hash table ops)
        (liveFds final.capacity final.flows) ∧
      SoleOwners final.capacity final.flows := by
  induction ops generalizing table with
  | nil => exact ⟨Settles.nil _, hSole⟩
  | cons op ops ih =>
      rcases apply_settles op hInv hSole hOffered.1 with
        ⟨hFirst, hSole'⟩
      have hCapacity := apply_capacity op hInv
      rw [← hCapacity] at hSole'
      rcases ih (apply_spec op hInv).1 hSole' hOffered.2 with
        ⟨hRest, hFinal⟩
      rw [hCapacity] at hRest
      exact ⟨hFirst.append hRest, hFinal⟩

/- Nothing is owned where there are no flows. -/
theorem liveFds_none
    (hNone : ∀ s < n, flows s = none) :
    liveFds n flows = ∅ := by
  ext fd
  constructor
  · rintro ⟨s, hs, hFd⟩
    rw [hNone s hs] at hFd
    cases hFd
  · exact fun h => h.elim

/-
  Over every sequence of operations that is given unowned
  descriptors, and the end of the table after it.
-/
theorem descriptor_ledger
    (hash : Bytes → Nat)
    (capacity : Nat)
    (start : FlowTable)
    (ops : List Op)
    (hInit : init capacity = .ok start)
    (hOffered : Offered hash start ops) :
    let table := run hash ops start
    -- No two flows share a descriptor.
    (∀ s < table.capacity, ∀ t < table.capacity, ∀ a b,
      table.flows s = some a → table.flows t = some b →
        a.fd = b.fd → s = t) ∧
    -- What the next operation closes, and when.
    (∀ op, table.Offers op → table.Accounted hash op) ∧
    -- The end of the table removes every flow.
    (∃ after,
      Removes table.capacity table.flows table.free.2 after ∧
      ∀ s < table.capacity, after s = none) ∧
    -- Taken over and closed in turns, and closed at the end.
    Matched
      (history hash start ops ++
        table.free.2.filterMap FlowEvent.use) := by
  have hInv : start.Inv hash := init_inv hInit
  have hEmpty := (init_fresh hInit).1
  have hNone :
      ∀ s < start.capacity, start.flows s = none := by
    intro s _
    rw [hEmpty]
  have hStart :
      SoleOwners start.capacity start.flows := by
    rw [hEmpty]
    constructor
    · intro _ _ _ hFlow
      cases hFlow
    · intro _ _ _ _ _ _ hFlow
      cases hFlow
  rcases run_settles ops hInv hStart hOffered with
    ⟨hSettles, hSole⟩
  intro table
  rcases free_removes hSole with ⟨after, hRemoves, hGone⟩
  refine ⟨hSole.distinct, ?_, ⟨after, hRemoves, hGone⟩, ?_⟩
  · intro op hOffers
    exact apply_accounted op (run_inv ops hInv) hSole hOffers
  · apply Settles.matched
    have hFreed := hRemoves.settles hSole
    rw [liveFds_none hGone] at hFreed
    rw [liveFds_none hNone] at hSettles
    exact hSettles.append hFreed

/- An eviction, a replaced descriptor and the end. -/
def recycledOps : List Op :=
  let addr := fun host : UInt8 =>
    { storage :=
        SockaddrStorage.ofBytes [2, 0, 0, 0, 10, 0, 0, host]
      len := 16 : Sockaddr }
  [.put (addr 1) (addr 9) 4 0, .put (addr 2) (addr 9) 5 1,
    .put (addr 2) (addr 9) 4 2, .evictIf fun _ => false]

/- A number that is used again is matched again. -/
theorem recycled_descriptors_matched :
    ∃ start, init 1 = .ok start ∧
      Matched
        (history (fun _ => 1) start recycledOps ++
          (run (fun _ => 1) recycledOps
            start).free.2.filterMap FlowEvent.use) :=
  ⟨_, rfl,
    (descriptor_ledger (fun _ => 1) 1 _ recycledOps rfl
      ⟨by decide, by decide, by decide, trivial,
        trivial⟩).2.2.2⟩

end FlowTable

end QuicSniRouter
