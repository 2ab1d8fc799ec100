import QuicSniRouter.FlowTable.Basic
import QuicSniRouter.LinearProbing.Cut

/-
  The representation invariant of the flow table: slot
  array, index and free-slot stack agree.

  Main declarations:
    * `FlowTable.Inv`
    * `FlowTable.get_eq_some`
    * `FlowTable.removeSlot_spec`
    * `FlowTable.insertFlow_inv`
    * `FlowTable.setFlow_inv`
-/

------------------------------------------------------------
-- The Invariant
------------------------------------------------------------

namespace QuicSniRouter

open LinearProbing

namespace FlowTable

variable (hash : Bytes → Nat) {t : Nat} {new : Flow}

theorem tupleHash_eq
    {a b : Sockaddr}
    (capacity : Nat)
    (hEquals : a.equals b = true) :
    tupleHash hash a capacity = tupleHash hash b capacity := by
  rcases Sockaddr.equals_iff.mp hEquals with ⟨hLen, hBytes⟩
  unfold tupleHash
  rw [hLen, hBytes]

/- The index cell where the walk of a slot's tuple starts. -/
def home
    (table : FlowTable)
    (slot : Nat) : Nat :=
  tupleHash hash (table.clientAt slot) table.indexCapacity

/- Two slots for one client. -/
def SameClient
    (table : FlowTable)
    (a b : Nat) : Prop :=
  (table.clientAt a).equals (table.clientAt b) = true

theorem SameClient.symm
    {table : FlowTable}
    (a b : Nat)
    (h : table.SameClient a b) :
    table.SameClient b a :=
  Sockaddr.equals_symm h

theorem clientAt_of_flow
    {table : FlowTable}
    {slot : Nat}
    {flow : Flow}
    (hFlow : table.flows slot = some flow) :
    table.clientAt slot = flow.client := by
  simp [clientAt, hFlow]

theorem slotMatches_of_flow
    {table : FlowTable}
    {slot : Nat}
    {flow : Flow}
    (client : Sockaddr)
    (hFlow : table.flows slot = some flow) :
    table.slotMatches client slot =
      flow.client.equals client := by
  simp [slotMatches, hFlow]

theorem slotMatches_eq_true
    {table : FlowTable}
    {client : Sockaddr}
    {slot : Nat}
    (hMatch : table.slotMatches client slot = true) :
    ∃ flow, table.flows slot = some flow ∧
      flow.client.equals client = true := by
  unfold slotMatches at hMatch
  cases hFlow : table.flows slot with
  | none => simp [hFlow] at hMatch
  | some flow => exact ⟨flow, rfl, by simpa [hFlow] using hMatch⟩

/- What all operations keep. -/
structure Inv
    (table : FlowTable) : Prop where
  pos : 0 < table.capacity
  double : table.indexCapacity = table.capacity * 2
  clients :
    ∀ s < table.capacity, ∀ flow,
      table.flows s = some flow → flow.client.valid = true
  slots :
    ∀ s, Holds table.indexCapacity table.index s →
      s < table.capacity ∧ ∃ flow, table.flows s = some flow
  indexed :
    ∀ s < table.capacity, ∀ flow,
      table.flows s = some flow →
        Holds table.indexCapacity table.index s
  chain :
    Chain table.indexCapacity (table.home hash) table.index
  distinct :
    Distinct table.indexCapacity table.SameClient table.index
  load :
    used table.indexCapacity table.index ≤
      used table.capacity table.flows
  count : table.count = used table.capacity table.flows
  freeNodup : table.freeSlots.Nodup
  free :
    ∀ s, s ∈ table.freeSlots ↔
      s < table.capacity ∧ table.flows s = none
  cursor : table.expireCursor < table.capacity

variable {hash} {table : FlowTable}

/- There is an index. -/
theorem Inv.indexPos
    (hInv : table.Inv hash) :
    0 < table.indexCapacity := by
  have hPos := hInv.pos
  have hDouble := hInv.double
  omega

theorem Inv.homed
    (hInv : table.Inv hash) :
    Homed table.indexCapacity (table.home hash) :=
  fun _ => Nat.mod_lt _ hInv.indexPos

theorem tupleHash_lt
    (hInv : table.Inv hash)
    (client : Sockaddr) :
    tupleHash hash client table.indexCapacity <
      table.indexCapacity :=
  Nat.mod_lt _ hInv.indexPos

/- The index always has room. -/
theorem Inv.indexVacant
    (hInv : table.Inv hash) :
    ∃ v < table.indexCapacity, table.index v = none := by
  apply exists_vacant
  have hPos := hInv.pos
  have hDouble := hInv.double
  have hLoad := hInv.load
  have hUsed := used_le table.capacity table.flows
  omega

/- Used slots carry pairwise different tuples. -/
theorem Inv.clientsDistinct
    (hInv : table.Inv hash) :
    Distinct table.capacity
      (fun a b : Flow => a.client.equals b.client = true)
      table.flows := by
  intro s hs t ht a b ha hb hSame
  rcases hInv.indexed s hs a ha with ⟨p, hp, hps⟩
  rcases hInv.indexed t ht b hb with ⟨q, hq, hqt⟩
  have hpq : p = q := by
    apply hInv.distinct p hp q hq s t hps hqt
    unfold SameClient
    rw [clientAt_of_flow ha, clientAt_of_flow hb]
    exact hSame
  subst hpq
  rw [hps] at hqt
  exact Option.some.inj hqt

/- The walk of a stored tuple ends at its index cell. -/
theorem indexProbe_eq_hit
    {client : Sockaddr}
    {s : Nat}
    {flow : Flow}
    (hInv : table.Inv hash)
    (hs : s < table.capacity)
    (hFlow : table.flows s = some flow)
    (hEquals : flow.client.equals client = true) :
    ∃ p < table.indexCapacity,
      table.index p = some s ∧
        table.indexProbe hash client = .hit p := by
  rcases hInv.indexed s hs flow hFlow with ⟨p, hp, hCell⟩
  refine ⟨p, hp, hCell, ?_⟩
  apply walk_eq_hit (tupleHash_lt hInv client) hInv.chain hp
    hCell
  · unfold home
    rw [clientAt_of_flow hFlow]
    exact tupleHash_eq hash _ hEquals
  · rw [slotMatches_of_flow client hFlow]
    exact hEquals
  · intro q hq s' hCell' hMatch
    rcases slotMatches_eq_true hMatch with
      ⟨flow', hFlow', hEquals'⟩
    apply hInv.distinct q hq p hp s' s hCell' hCell
    unfold SameClient
    rw [clientAt_of_flow hFlow', clientAt_of_flow hFlow]
    exact Sockaddr.equals_trans hEquals'
      (Sockaddr.equals_symm hEquals)

/- The slot that a walk over the index reports. -/
theorem indexFind_bind
    {client : Sockaddr}
    {s : Nat}
    (hInv : table.Inv hash) :
    (table.indexFind hash client).bind table.index = some s ↔
      s < table.capacity ∧ ∃ flow,
        table.flows s = some flow ∧
          flow.client.equals client = true := by
  constructor
  · intro hFind
    unfold indexFind at hFind
    cases hProbe : table.indexProbe hash client with
    | exhausted =>
        rw [hProbe] at hFind
        cases hFind
    | vacant p =>
        rcases walk_vacant (tupleHash_lt hInv client)
            hProbe with
          ⟨_, hNone, _⟩
        rw [hProbe] at hFind
        simp [Probe.position, hNone] at hFind
    | hit p =>
        rcases walk_hit (tupleHash_lt hInv client) hProbe with
          ⟨hp, ⟨s', hCell, hMatch⟩, _⟩
        rw [hProbe] at hFind
        have hss : s' = s := by
          simpa [Probe.position, hCell] using hFind
        subst hss
        exact ⟨(hInv.slots s' ⟨p, hp, hCell⟩).1,
          slotMatches_eq_true hMatch⟩
  · rintro ⟨hs, flow, hFlow, hEquals⟩
    rcases indexProbe_eq_hit hInv hs hFlow hEquals with
      ⟨p, _, hCell, hProbe⟩
    simp [indexFind, hProbe, Probe.position, hCell]

/- What a lookup finds, and nothing else. -/
theorem get_eq_some
    {client : Sockaddr}
    {s : Nat}
    (hInv : table.Inv hash) :
    table.get hash client = some s ↔
      client.valid = true ∧ s < table.capacity ∧
        ∃ flow, table.flows s = some flow ∧
          flow.client.equals client = true := by
  unfold get
  by_cases hValid : client.valid = true
  · rw [if_neg (by simp [hValid]), indexFind_bind hInv]
    simp [hValid]
  · rw [if_pos hValid]
    simp [hValid]

/- A client has one flow. -/
theorem Inv.slot_unique
    {s : Nat}
    {a b : Flow}
    (hInv : table.Inv hash)
    (hs : s < table.capacity)
    (ht : t < table.capacity)
    (hA : table.flows s = some a)
    (hB : table.flows t = some b)
    (hEquals : a.client.equals b.client = true) :
    s = t := by
  have hValid := hInv.clients t ht b hB
  have hFirst :=
    (get_eq_some hInv).mpr ⟨hValid, hs, a, hA, hEquals⟩
  have hSecond :=
    (get_eq_some hInv).mpr
      ⟨hValid, ht, b, hB, Sockaddr.equals_refl _⟩
  exact Option.some.inj (hFirst.symm.trans hSecond)

------------------------------------------------------------
-- Removal
------------------------------------------------------------

variable {hash : Bytes → Nat}

/- A table with another index over the same flows. -/
def withIndex
    (table : FlowTable)
    (index : Nat → Option Nat) : FlowTable :=
  { table with index }

/- One reinsertion of an index cluster. -/
theorem indexStore_spec
    (hash : Bytes → Nat)
    {c s : Nat}
    (hc : c < table.indexCapacity)
    (hCell : table.index c = some s)
    (hDistinct :
      Distinct table.indexCapacity table.SameClient
        table.index) :
    let cleared := table.withIndex (vacate table.index c)
    ∃ mid,
      cleared.indexStore s
          (cleared.indexFind hash (table.clientAt s)) =
        table.withIndex mid ∧
      Reinsert table.indexCapacity (table.home hash)
        (fun _ => True) (vacate table.index c) s mid := by
  intro cleared
  have hHome :
      tupleHash hash (table.clientAt s)
          table.indexCapacity < table.indexCapacity :=
    Nat.mod_lt _ (by omega)
  cases hProbe :
      cleared.indexProbe hash (table.clientAt s) with
  | vacant f =>
      rcases walk_vacant hHome hProbe with
        ⟨hf, hNone, hPassed⟩
      refine ⟨fill (vacate table.index c) f s, ?_, ?_⟩
      · unfold indexFind
        rw [hProbe]
        rfl
      · apply Reinsert.place f trivial hf hNone
        intro q hq hLt
        rcases hPassed q hq hLt with ⟨e, hSome, _⟩
        rw [hSome]
        exact Option.some_ne_none e
  | hit j =>
      rcases walk_hit hHome hProbe with
        ⟨hj, ⟨s', hSome, hMatch⟩, _⟩
      rcases vacate_eq_some hSome with ⟨hjc, hOld⟩
      rcases slotMatches_eq_true hMatch with
        ⟨flow, hFlow, hEquals⟩
      have hSame : table.SameClient s' s := by
        unfold SameClient
        have hClient : table.clientAt s' = flow.client :=
          clientAt_of_flow hFlow
        rw [hClient]
        exact hEquals
      exact absurd
        (hDistinct j hj c hc s' s hOld hCell hSame) hjc
  | exhausted =>
      rcases walk_exhausted hHome hProbe c hc with
        ⟨e, hSome, _⟩
      have hNone : cleared.index c = none :=
        vacate_self table.index c
      rw [hNone] at hSome
      cases hSome

/- The loop moves up what the gap cuts off. -/
theorem indexCloseGap_spec
    (fuel : Nat)
    {table : FlowTable}
    {c v : Nat}
    (hc : c < table.indexCapacity)
    (hv : v < table.indexCapacity)
    (hvNone : table.index v = none)
    (hDistinct :
      Distinct table.indexCapacity table.SameClient
        table.index)
    (hRank :
      gapRank table.indexCapacity (table.home hash)
        table.index c v < fuel) :
    ∃ final,
      indexCloseGap hash fuel table c =
        table.withIndex final ∧
      CloseGap table.indexCapacity (table.home hash)
        (fun _ => True) table.index c final := by
  induction fuel generalizing table c v with
  | zero => omega
  | succ fuel ih =>
      unfold indexCloseGap
      cases hCell : table.index c with
      | none =>
          exact ⟨table.index, rfl, CloseGap.stop hCell⟩
      | some s =>
          rcases indexStore_spec hash hc hCell hDistinct with
            ⟨mid, hStore, hPut⟩
          have hHomed :
              Homed table.indexCapacity (table.home hash) :=
            fun _ => Nat.mod_lt _ (by omega)
          rcases gapRank_step hc hv hvNone hCell hHomed
              hPut with
            ⟨v', hv', hvNone', hLess⟩
          have hRest :
              ∃ final,
                indexCloseGap hash fuel (table.withIndex mid)
                    (next table.indexCapacity c) =
                  table.withIndex final ∧
                CloseGap table.indexCapacity
                  (table.home hash) (fun _ => True) mid
                  (next table.indexCapacity c) final :=
            @ih (table.withIndex mid)
              (next table.indexCapacity c) v'
              (next_lt (by omega) c) hv' hvNone'
              (hPut.distinct SameClient.symm hc hCell
                hDistinct)
              (Nat.lt_of_lt_of_le hLess (by omega))
          rcases hRest with ⟨final, hEq, hRun⟩
          refine ⟨final, ?_, CloseGap.step hCell hPut hRun⟩
          rw [← hEq, ← hStore]
          rfl

/-
  Dropping the index cell of a stored tuple closes the gap
  it leaves; the fuel is enough for that.
-/
theorem indexDelete_spec
    {s : Nat}
    {flow : Flow}
    (hInv : table.Inv hash)
    (hs : s < table.capacity)
    (hFlow : table.flows s = some flow) :
    ∃ p < table.indexCapacity,
      table.index p = some s ∧ ∃ final,
        table.indexDelete hash flow.client =
          table.withIndex final ∧
        CloseGap table.indexCapacity (table.home hash)
          (fun _ => True) (vacate table.index p)
          (next table.indexCapacity p) final := by
  rcases indexProbe_eq_hit hInv hs hFlow
      (Sockaddr.equals_refl flow.client) with
    ⟨p, hp, hCell, hProbe⟩
  refine ⟨p, hp, hCell, ?_⟩
  have hNext := next_lt hInv.indexPos p
  have hRank :=
    gapRank_lt hInv.homed (vacate table.index p) hNext hp
  rcases @indexCloseGap_spec hash table.indexGapFuel
      (table.withIndex (vacate table.index p))
      (next table.indexCapacity p) p hNext hp
      (vacate_self table.index p)
      (distinct_vacate hInv.distinct) hRank with
    ⟨final, hEq, hRun⟩
  refine ⟨final, ?_, hRun⟩
  unfold indexDelete indexFind
  rw [hProbe]
  simp only [Probe.position, hCell]
  rw [if_pos (Option.some_ne_none s)]
  exact hEq

/- What removing the flow of a slot does to the table. -/
structure RemovedAt
    (before : FlowTable)
    (s : Nat)
    (after : FlowTable) : Prop where
  flows : after.flows = vacate before.flows s
  capacity : after.capacity = before.capacity
  nextId : after.nextId = before.nextId
  expireCursor : after.expireCursor = before.expireCursor
  freeSlots : after.freeSlots = s :: before.freeSlots

/- The table without the flow of slot `s`. -/
def removed
    (table : FlowTable)
    (s : Nat)
    (index : Nat → Option Nat) : FlowTable :=
  { table with
    index
    flows := vacate table.flows s
    freeSlots := s :: table.freeSlots
    count := table.count - 1 }

/-
  The flow of slot `s` goes, and with it the index cell `p`;
  closing the gap leaves the index `final`.
-/
structure Unindexes
    (hash : Bytes → Nat)
    (table : FlowTable)
    (s p : Nat)
    (flow : Flow)
    (final : Nat → Option Nat) : Prop where
  inv : table.Inv hash
  slot : s < table.capacity
  flow : table.flows s = some flow
  pos : p < table.indexCapacity
  cell : table.index p = some s
  gap :
    CloseGap table.indexCapacity (table.home hash)
      (fun _ => True) (vacate table.index p)
      (next table.indexCapacity p) final

namespace Unindexes

variable {s p : Nat} {flow : Flow} {final : Nat → Option Nat}
variable (hGone : Unindexes hash table s p flow final)
variable {t : Nat}

include hGone

theorem next_lt :
    next table.indexCapacity p < table.indexCapacity :=
  LinearProbing.next_lt hGone.inv.indexPos p

/- The remaining index cells name other used slots. -/
theorem holds
    (hHolds : Holds table.indexCapacity final t) :
    t ≠ s ∧ Holds table.indexCapacity table.index t := by
  rcases hGone.gap.holds hGone.next_lt hHolds with
    ⟨q, hq, hSome⟩
  rcases vacate_eq_some hSome with ⟨hqp, hIndex⟩
  refine ⟨?_, q, hq, hIndex⟩
  intro hEq
  subst hEq
  exact hqp
    (hGone.inv.distinct q hq p hGone.pos t t hIndex
      hGone.cell (Sockaddr.equals_refl _))

theorem clientAt
    (hHolds : Holds table.indexCapacity final t) :
    (table.removed s final).clientAt t =
      table.clientAt t := by
  simp only [FlowTable.clientAt, removed,
    vacate_of_ne table.flows (hGone.holds hHolds).1]

theorem slots
    (t : Nat)
    (hHolds : Holds table.indexCapacity final t) :
    t < table.capacity ∧
      ∃ other, vacate table.flows s t = some other := by
  rcases hGone.holds hHolds with ⟨hNe, hIndex⟩
  rcases hGone.inv.slots t hIndex with ⟨ht, other, hOther⟩
  refine ⟨ht, other, ?_⟩
  rw [vacate_of_ne table.flows hNe, hOther]

theorem indexed
    (t : Nat)
    (ht : t < table.capacity)
    (other : Flow)
    (hOther : vacate table.flows s t = some other) :
    Holds table.indexCapacity final t := by
  rcases vacate_eq_some hOther with ⟨hNe, hFlow⟩
  rcases hGone.inv.indexed t ht other hFlow with
    ⟨q, hq, hIndex⟩
  have hqp : q ≠ p := by
    intro hEq
    rw [hEq, hGone.cell] at hIndex
    exact hNe (Option.some.inj hIndex).symm
  apply hGone.gap.holds_keep hGone.next_lt trivial
  refine ⟨q, hq, ?_⟩
  rw [vacate_of_ne table.index hqp, hIndex]

/- The chains stay whole. -/
theorem chain :
    Chain table.indexCapacity
      ((table.removed s final).home hash) final := by
  apply Chain.congr
    (hGone.gap.chain hGone.inv.homed hGone.next_lt
      (pending_vacate hGone.inv.chain hGone.pos))
  intro q hq t hSome
  unfold home
  rw [hGone.clientAt ⟨q, hq, hSome⟩]
  rfl

/- No client gets a second slot. -/
theorem distinct :
    Distinct table.indexCapacity
      (table.removed s final).SameClient final := by
  apply Distinct.congr
    (hGone.gap.distinct SameClient.symm hGone.next_lt
      (distinct_vacate hGone.inv.distinct))
  intro a b ha hb hSame
  unfold SameClient at hSame ⊢
  rw [hGone.clientAt ha, hGone.clientAt hb] at hSame
  exact hSame

theorem freeNodup :
    (s :: table.freeSlots).Nodup := by
  apply List.nodup_cons.mpr
  refine ⟨?_, hGone.inv.freeNodup⟩
  intro hMem
  have hNone := ((hGone.inv.free s).mp hMem).2
  rw [hGone.flow] at hNone
  cases hNone

/- The slot is free, and no other becomes so. -/
theorem free
    (t : Nat) :
    t ∈ s :: table.freeSlots ↔
      t < table.capacity ∧ vacate table.flows s t = none := by
  by_cases hts : t = s
  · subst hts
    simp [hGone.slot]
  · simp only [List.mem_cons, hts, false_or,
      vacate_of_ne table.flows hts]
    exact hGone.inv.free t

/- A removal keeps the invariant. -/
theorem removed_inv :
    (table.removed s final).Inv hash := by
  have hInv := hGone.inv
  have hUsed := used_vacate hGone.slot hGone.flow
  exact {
    pos := hInv.pos
    double := hInv.double
    clients := fun t ht other hOther =>
      hInv.clients t ht other (vacate_eq_some hOther).2
    slots := hGone.slots
    indexed := hGone.indexed
    chain := hGone.chain
    distinct := hGone.distinct
    load := by
      have hLe := hGone.gap.used_le hGone.next_lt
      have hVacate := used_vacate hGone.pos hGone.cell
      have hLoad := hInv.load
      simp only [removed]
      omega
    count := by
      have hCount := hInv.count
      simp only [removed]
      omega
    freeNodup := hGone.freeNodup
    free := hGone.free
    cursor := hInv.cursor }

end Unindexes

/- What a removal does. -/
theorem removeSlot_spec
    {s : Nat}
    {flow : Flow}
    (reason : FlowCloseReason)
    (hInv : table.Inv hash)
    (hs : s < table.capacity)
    (hFlow : table.flows s = some flow) :
    let result := table.removeSlot hash s reason
    result.1.Inv hash ∧ RemovedAt table s result.1 ∧
      result.2 = .onClose flow reason :: closeFd flow.fd := by
  rcases indexDelete_spec hInv hs hFlow with
    ⟨p, hp, hCell, final, hDelete, hGap⟩
  have hGone : Unindexes hash table s p flow final :=
    ⟨hInv, hs, hFlow, hp, hCell, hGap⟩
  have hResult :
      table.removeSlot hash s reason =
        (table.removed s final,
          .onClose flow reason :: closeFd flow.fd) := by
    unfold removeSlot
    rw [hFlow]
    simp only [hDelete]
    rfl
  intro result
  have hEq : result = table.removeSlot hash s reason := rfl
  rw [hResult] at hEq
  rw [hEq]
  exact ⟨hGone.removed_inv, ⟨rfl, rfl, rfl, rfl, rfl⟩,
    rfl⟩

variable {hash : Bytes → Nat} {table : FlowTable}

theorem scanned_inv
    (hInv : table.Inv hash) :
    table.scanned.Inv hash :=
  ⟨hInv.pos, hInv.double, hInv.clients, hInv.slots,
    hInv.indexed, hInv.chain, hInv.distinct, hInv.load,
    hInv.count, hInv.freeNodup, hInv.free, hInv.cursor⟩

/- An eviction removes one flow of the table, or none. -/
theorem evictOldest_cases
    (hInv : table.Inv hash) :
    table.evictOldest hash = (0, table, []) ∨
      table.evictOldest hash = (0, table.scanned, []) ∨
      ∃ victim < table.capacity, ∃ flow,
        table.flows victim = some flow ∧
        table.evictOldest hash =
          (1, table.scanned.removeSlot hash victim
            .evicted) := by
  unfold evictOldest
  by_cases hEmpty : table.capacity = 0 ∨ table.count = 0
  · left
    rw [if_pos hEmpty]
  · right
    rw [if_neg hEmpty]
    cases hVictim : table.evictVictim with
    | none =>
        left
        rfl
    | some victim =>
        right
        rcases oldest_used hInv.pos hVictim with
          ⟨hLt, flow, hFlow⟩
        exact ⟨victim, hLt, flow, hFlow, rfl⟩

/- Used and unused slots make up the table. -/
theorem Inv.count_add_free
    (hInv : table.Inv hash) :
    table.count + table.freeSlots.length =
      table.capacity := by
  have hFree :
      table.freeSlots.toFinset =
        (Finset.range table.capacity).filter
          (fun s => ¬ (table.flows s).isSome = true) := by
    ext s
    simp [hInv.free s]
  have hLength :
      table.freeSlots.length =
        ((Finset.range table.capacity).filter
          (fun s => ¬ (table.flows s).isSome = true)).card := by
    rw [← hFree, List.toFinset_card_of_nodup hInv.freeNodup]
  have hSplit :=
    Finset.card_filter_add_card_filter_not
      (s := Finset.range table.capacity)
      (p := fun s => (table.flows s).isSome = true)
  rw [hInv.count, hLength]
  unfold used
  simpa using hSplit

/- A full table always has a flow to evict. -/
theorem evictOldest_full
    (hInv : table.Inv hash)
    (hFull : table.freeSlots.length = 0) :
    ∃ victim < table.capacity, ∃ flow,
      table.flows victim = some flow ∧
      table.evictOldest hash =
        (1, table.scanned.removeSlot hash victim
          .evicted) := by
  have hPos := hInv.pos
  have hSum := hInv.count_add_free
  have hNil : table.freeSlots = [] :=
    List.length_eq_zero_iff.mp hFull
  have hScans : 0 < table.evictScans := by
    unfold evictScans flowEvictScanBudget
    split <;> omega
  have hFirst :
      (table.evictCursor + 0) % table.capacity <
        table.capacity :=
    Nat.mod_lt _ hPos
  have hUsed :
      table.flows ((table.evictCursor + 0) % table.capacity) ≠
        none := by
    intro hNone
    have hMem := (hInv.free _).mpr ⟨hFirst, hNone⟩
    rw [hNil] at hMem
    cases hMem
  have hVictim : table.evictVictim ≠ none :=
    oldest_ne_none hScans hUsed
  rcases Option.ne_none_iff_exists'.mp hVictim with
    ⟨victim, hSome⟩
  rcases oldest_used hPos hSome with ⟨hLt, flow, hFlow⟩
  refine ⟨victim, hLt, flow, hFlow, ?_⟩
  have hBusy : ¬ (table.capacity = 0 ∨ table.count = 0) := by
    omega
  unfold evictOldest
  rw [if_neg hBusy, hSome]

------------------------------------------------------------
-- Insertion
------------------------------------------------------------

variable {hash : Bytes → Nat} {table : FlowTable}

/- Rewriting a flow under its own tuple. -/
def setFlow
    (table : FlowTable)
    (s : Nat)
    (new : Flow) : FlowTable :=
  { table with flows := fill table.flows s new }

theorem setFlow_clientAt
    {s : Nat}
    {flow : Flow}
    (hFlow : table.flows s = some flow)
    (hClient : new.client = flow.client) :
    (table.setFlow s new).clientAt = table.clientAt := by
  funext t
  by_cases hts : t = s
  · subst hts
    simp [clientAt, setFlow, hFlow, hClient]
  · simp [clientAt, setFlow, fill_of_ne table.flows new hts]

/- Writing a flow for its client keeps it. -/
theorem setFlow_inv
    {s : Nat}
    {flow : Flow}
    (hInv : table.Inv hash)
    (hFlow : table.flows s = some flow)
    (hClient : new.client = flow.client) :
    (table.setFlow s new).Inv hash := by
  have hAt := setFlow_clientAt hFlow hClient
  have hHome :
      (table.setFlow s new).home hash = table.home hash := by
    funext t
    unfold home
    rw [hAt]
    rfl
  have hSame :
      (table.setFlow s new).SameClient =
        table.SameClient := by
    funext a b
    unfold SameClient
    rw [hAt]
  have hUsed := used_replace (n := table.capacity) new hFlow
  constructor
  · exact hInv.pos
  · exact hInv.double
  · intro t ht other hOther
    rcases fill_eq_some hOther with ⟨hts, hNew⟩ | ⟨_, hOld⟩
    · subst hts
      rw [hNew, hClient]
      exact hInv.clients t ht flow hFlow
    · exact hInv.clients t ht other hOld
  · intro t hHolds
    rcases hInv.slots t hHolds with ⟨ht, other, hOther⟩
    refine ⟨ht, ?_⟩
    apply Option.ne_none_iff_exists'.mp
    intro hNone
    rw [(replace_eq_none hFlow).mp hNone] at hOther
    cases hOther
  · intro t ht other hOther
    rcases fill_eq_some hOther with ⟨hts, _⟩ | ⟨_, hOld⟩
    · subst hts
      exact hInv.indexed t ht flow hFlow
    · exact hInv.indexed t ht other hOld
  · rw [hHome]
    exact hInv.chain
  · rw [hSame]
    exact hInv.distinct
  · have hLoad := hInv.load
    simp only [setFlow, hUsed]
    exact hLoad
  · simp only [setFlow, hUsed]
    exact hInv.count
  · exact hInv.freeNodup
  · intro t
    simp only [setFlow, replace_eq_none hFlow]
    exact hInv.free t
  · exact hInv.cursor

/- The flow that an insertion writes. -/
def newFlow
    (table : FlowTable)
    (client backend : Sockaddr)
    (fd : Int)
    (now : Int) : Flow :=
  { fd, client, backend
    lastSeen := now
    id := table.nextId }

/- The table with a new flow in slot `s`, index cell `p`. -/
def inserted
    (table : FlowTable)
    (flow : Flow)
    (s p : Nat)
    (rest : List Nat) : FlowTable :=
  { table with
    flows := fill table.flows s flow
    index := fill table.index p s
    freeSlots := rest
    count := table.count + 1
    nextId := (table.nextId + 1) % 2 ^ 64 }

theorem inserted_clientAt_self
    (flow : Flow)
    (s p : Nat)
    (rest : List Nat) :
    (table.inserted flow s p rest).clientAt s =
      flow.client := by
  simp [clientAt, inserted]

theorem inserted_clientAt_of_ne
    (flow : Flow)
    (p : Nat)
    (rest : List Nat)
    {s : Nat}
    (hts : t ≠ s) :
    (table.inserted flow s p rest).clientAt t =
      table.clientAt t := by
  simp only [clientAt, inserted,
    fill_of_ne table.flows flow hts]

/- The walk of a tuple without a flow ends at a vacant cell. -/
theorem indexProbe_vacant
    {client : Sockaddr}
    (hInv : table.Inv hash)
    (hNew :
      (table.indexFind hash client).bind table.index = none) :
    ∃ p, table.indexProbe hash client = .vacant p := by
  have hHome := tupleHash_lt hInv client
  cases hProbe : table.indexProbe hash client with
  | vacant p => exact ⟨p, rfl⟩
  | hit p =>
      rcases walk_hit hHome hProbe with ⟨_, ⟨t, hCell, _⟩, _⟩
      simp [indexFind, hProbe, Probe.position, hCell] at hNew
  | exhausted =>
      rcases hInv.indexVacant with ⟨v, hv, hvNone⟩
      rcases walk_exhausted hHome hProbe v hv with
        ⟨t, hCell, _⟩
      rw [hvNone] at hCell
      cases hCell

/-
  A new flow takes slot `s` from the stack and the index
  cell `p` at the end of its walk.
-/
structure Indexes
    (hash : Bytes → Nat)
    (table : FlowTable)
    (flow : Flow)
    (s p : Nat)
    (rest : List Nat) : Prop where
  inv : table.Inv hash
  valid : flow.client.valid = true
  probe : table.indexProbe hash flow.client = .vacant p
  free : table.freeSlots = s :: rest

namespace Indexes

variable {flow : Flow} {s p : Nat} {rest : List Nat}
variable (hNewcomer : Indexes hash table flow s p rest)
variable {t : Nat}

include hNewcomer

theorem slot :
    s < table.capacity ∧ table.flows s = none := by
  apply (hNewcomer.inv.free s).mp
  rw [hNewcomer.free]
  exact List.mem_cons_self

theorem cell :
    p < table.indexCapacity ∧ table.index p = none := by
  rcases walk_vacant (tupleHash_lt hNewcomer.inv flow.client)
      hNewcomer.probe with
    ⟨hp, hNone, _⟩
  exact ⟨hp, hNone⟩

/- Indexed slots are used, so none of them is the new one. -/
theorem ne
    (hHolds : Holds table.indexCapacity table.index t) :
    t ≠ s := by
  intro hEq
  rcases hNewcomer.inv.slots t hHolds with ⟨_, old, hOld⟩
  rw [hEq, hNewcomer.slot.2] at hOld
  cases hOld

theorem clientAt
    (hHolds : Holds table.indexCapacity table.index t) :
    (table.inserted flow s p rest).clientAt t =
      table.clientAt t :=
  inserted_clientAt_of_ne flow p rest (hNewcomer.ne hHolds)

theorem slots
    (t : Nat)
    (hHolds :
      Holds table.indexCapacity (fill table.index p s) t) :
    t < table.capacity ∧
      ∃ other, fill table.flows s flow t = some other := by
  rcases hHolds with ⟨q, hq, hCell⟩
  rcases fill_eq_some hCell with ⟨_, hts⟩ | ⟨_, hOld⟩
  · subst hts
    exact ⟨hNewcomer.slot.1, flow, fill_self _ _ _⟩
  · have hHolds :
        Holds table.indexCapacity table.index t :=
      ⟨q, hq, hOld⟩
    rcases hNewcomer.inv.slots t hHolds with ⟨ht, old, hFlow⟩
    refine ⟨ht, old, ?_⟩
    rw [fill_of_ne table.flows flow (hNewcomer.ne hHolds),
      hFlow]

theorem indexed
    (t : Nat)
    (ht : t < table.capacity)
    (other : Flow)
    (hOther : fill table.flows s flow t = some other) :
    Holds table.indexCapacity (fill table.index p s) t := by
  rcases hNewcomer.cell with ⟨hp, hNone⟩
  rcases fill_eq_some hOther with ⟨hts, _⟩ | ⟨_, hOld⟩
  · subst hts
    exact ⟨p, hp, fill_self _ _ _⟩
  · rcases hNewcomer.inv.indexed t ht other hOld with
      ⟨q, hq, hCell⟩
    have hqp : q ≠ p := by
      intro hEq
      rw [hEq, hNone] at hCell
      cases hCell
    refine ⟨q, hq, ?_⟩
    rw [fill_of_ne table.index s hqp, hCell]

/- The chains stay whole. -/
theorem chain :
    Chain table.indexCapacity
      ((table.inserted flow s p rest).home hash)
      (fill table.index p s) := by
  rcases walk_vacant (tupleHash_lt hNewcomer.inv flow.client)
      hNewcomer.probe with
    ⟨_, _, hPassed⟩
  apply chain_fill
  · apply hNewcomer.inv.chain.congr
    intro q hq t hCell
    unfold home
    rw [hNewcomer.clientAt ⟨q, hq, hCell⟩]
    rfl
  · intro q hq hLt
    unfold home at hLt
    rw [inserted_clientAt_self flow s p rest] at hLt
    rcases hPassed q hq hLt with ⟨t, hCell, _⟩
    rw [hCell]
    exact Option.some_ne_none t

/- The walk would have met another flow of the client. -/
theorem client_new
    {q : Nat}
    (hq : q < table.indexCapacity)
    (hCell : table.index q = some t) :
    ¬ (table.inserted flow s p rest).SameClient t s := by
  intro hSame
  have hHolds : Holds table.indexCapacity table.index t :=
    ⟨q, hq, hCell⟩
  rcases hNewcomer.inv.slots t hHolds with ⟨_, old, hFlow⟩
  unfold SameClient at hSame
  rw [inserted_clientAt_self flow s p rest,
    hNewcomer.clientAt hHolds, clientAt_of_flow hFlow]
    at hSame
  have hHome :
      table.home hash t =
        tupleHash hash flow.client table.indexCapacity := by
    unfold home
    rw [clientAt_of_flow hFlow]
    exact tupleHash_eq hash _ hSame
  have hMiss :=
    not_hit_of_walk_vacant
      (tupleHash_lt hNewcomer.inv flow.client)
      hNewcomer.inv.chain hNewcomer.probe hq hCell hHome
  rw [slotMatches_of_flow flow.client hFlow, hSame] at hMiss
  cases hMiss

/- The client had no slot before. -/
theorem distinct :
    Distinct table.indexCapacity
      (table.inserted flow s p rest).SameClient
      (fill table.index p s) := by
  apply distinct_fill SameClient.symm
  · apply hNewcomer.inv.distinct.congr
    intro a b ha hb hSame
    unfold SameClient at hSame ⊢
    rw [hNewcomer.clientAt ha, hNewcomer.clientAt hb] at hSame
    exact hSame
  · intro q hq t hCell hSame
    exact hNewcomer.client_new hq hCell
      (SameClient.symm s t hSame)

theorem freeSlots :
    rest.Nodup ∧
      ∀ t, t ∈ rest ↔
        t < table.capacity ∧
          fill table.flows s flow t = none := by
  have hNodup := hNewcomer.inv.freeNodup
  rw [hNewcomer.free, List.nodup_cons] at hNodup
  refine ⟨hNodup.2, ?_⟩
  intro t
  by_cases hts : t = s
  · subst hts
    simp [hNodup.1]
  · have hMem := hNewcomer.inv.free t
    rw [hNewcomer.free] at hMem
    simp only [List.mem_cons, hts, false_or] at hMem
    rw [fill_of_ne table.flows flow hts]
    exact hMem

/- An insertion keeps the invariant. -/
theorem inserted_inv :
    (table.inserted flow s p rest).Inv hash := by
  have hInv := hNewcomer.inv
  have hFill :=
    used_fill flow hNewcomer.slot.1 hNewcomer.slot.2
  exact {
    pos := hInv.pos
    double := hInv.double
    clients := by
      intro t ht other hOther
      rcases fill_eq_some hOther with ⟨_, hEq⟩ | ⟨_, hOld⟩
      · rw [hEq]
        exact hNewcomer.valid
      · exact hInv.clients t ht other hOld
    slots := hNewcomer.slots
    indexed := hNewcomer.indexed
    chain := hNewcomer.chain
    distinct := hNewcomer.distinct
    load := by
      have hFillIndex :=
        used_fill s hNewcomer.cell.1 hNewcomer.cell.2
      have hLoad := hInv.load
      simp only [inserted]
      omega
    count := by
      have hCount := hInv.count
      simp only [inserted]
      omega
    freeNodup := hNewcomer.freeSlots.1
    free := hNewcomer.freeSlots.2
    cursor := hInv.cursor }

end Indexes

/-
  A tuple without a flow gets the top of the stack and the
  vacant index cell at the end of its walk.
-/
theorem insertFlow_spec
    {client backend : Sockaddr}
    {fd now : Int}
    {s : Nat}
    {rest : List Nat}
    (hInv : table.Inv hash)
    (hValid : client.valid = true)
    (hNew :
      (table.indexFind hash client).bind table.index = none)
    (hFree : table.freeSlots = s :: rest) :
    let result :=
      table.insertFlow client backend fd now
        (table.indexFind hash client)
    let flow := table.newFlow client backend fd now
    result.1 = some s ∧ result.2.Inv hash ∧
      ∃ p, result.2 = table.inserted flow s p rest := by
  rcases indexProbe_vacant hInv hNew with ⟨p, hProbe⟩
  have hResult :
      table.insertFlow client backend fd now
          (table.indexFind hash client) =
        (some s,
          table.inserted
            (table.newFlow client backend fd now) s p
            rest) := by
    unfold insertFlow indexFind
    rw [hProbe, hFree]
    rfl
  rw [hResult]
  have hNewcomer :
      Indexes hash table
        (table.newFlow client backend fd now) s p rest :=
    ⟨hInv, hValid, hProbe, hFree⟩
  exact ⟨rfl, hNewcomer.inserted_inv, p, rfl⟩

end FlowTable

end QuicSniRouter
