import QuicSniRouter.Dataplane.Destination
import QuicSniRouter.Dataplane.Transport

/-
  The descriptors of live flows: open, pairwise different in
  every reachable state, and of the family of the backend as
  long as no flow is re-aimed at the other family.

  Main declarations:
    * `Dataplane.Owned` and `Dataplane.ReachableWhere.owned`
    * `Dataplane.KeepsFamily`
    * `Dataplane.families_match`
-/

------------------------------------------------------------
-- Ownership
------------------------------------------------------------

namespace QuicSniRouter

open LinearProbing

namespace Dataplane

variable {s : Nat} {fd now : Int} {dp : Dataplane}
variable {backend source : Sockaddr}
variable {result : Option Nat × Dataplane} {event : Event}
variable {answers : Answers}

/- Every live flow has an open descriptor to itself. -/
structure Owned
    (flows : FlowTable)
    (sockets : List Socket) : Prop where
  nodup : (sockets.map Socket.fd).Nodup
  opened :
    ∀ s < flows.capacity, ∀ flow,
      flows.flows s = some flow →
        flow.fd ∈ sockets.map Socket.fd
  nonneg :
    ∀ s < flows.capacity, ∀ flow,
      flows.flows s = some flow → 0 ≤ flow.fd
  distinct :
    ∀ s < flows.capacity, ∀ t < flows.capacity, ∀ a b,
      flows.flows s = some a → flows.flows t = some b →
        a.fd = b.fd → s = t

variable {env : Env} {flows after : FlowTable}
variable {sockets : List Socket} {events : List FlowEvent}

/- Nothing that survives a removal is closed by it. -/
theorem Owned.survives
    {flow : Flow}
    (hOwned : Owned flows sockets)
    (hShrinks : FlowTable.Shrinks flows after events)
    (hs : s < flows.capacity)
    (hFlow : after.flows s = some flow) :
    .close flow.fd ∉ events := by
  intro hClosed
  rcases hShrinks.closed flow.fd hClosed with
    ⟨t, ht, other, hOther, hFd, hNone⟩
  have hts :=
    hOwned.distinct t ht s hs other flow hOther
      (hShrinks.flow hFlow) hFd
  subst hts
  rw [hNone] at hFlow
  cases hFlow

theorem fd_mem_closeSockets
    (hOpen : fd ∈ sockets.map Socket.fd)
    (hKept : .close fd ∉ events) :
    fd ∈ (closeSockets sockets events).map Socket.fd := by
  rcases List.mem_map.mp hOpen with ⟨socket, hIn, hFd⟩
  subst hFd
  exact List.mem_map.mpr
    ⟨socket, mem_closeSockets.mpr ⟨hIn, hKept⟩, rfl⟩

theorem Owned.shrinks
    (hOwned : Owned flows sockets)
    (hShrinks : FlowTable.Shrinks flows after events) :
    Owned after (closeSockets sockets events) := by
  have hCapacity := hShrinks.capacity
  refine ⟨?_, ?_, ?_, ?_⟩
  · rw [closeSockets_eq_filter]
    exact hOwned.nodup.sublist
      (List.filter_sublist.map Socket.fd)
  · intro s hs flow hFlow
    rw [hCapacity] at hs
    exact fd_mem_closeSockets
      (hOwned.opened s hs flow (hShrinks.flow hFlow))
      (hOwned.survives hShrinks hs hFlow)
  · intro s hs flow hFlow
    rw [hCapacity] at hs
    exact hOwned.nonneg s hs flow (hShrinks.flow hFlow)
  · intro s hs t ht a b ha hb hFd
    rw [hCapacity] at hs ht
    exact hOwned.distinct s hs t ht a b (hShrinks.flow ha)
      (hShrinks.flow hb) hFd

/- Only slots, tuples and descriptors matter. -/
theorem Owned.of_flows
    (hOwned : Owned flows sockets)
    (hCapacity : after.capacity = flows.capacity)
    (hFlows :
      ∀ s flow, after.flows s = some flow →
        ∃ old, flows.flows s = some old ∧ old.fd = flow.fd) :
    Owned after sockets := by
  refine ⟨hOwned.nodup, ?_, ?_, ?_⟩
  · intro s hs flow hFlow
    rcases hFlows s flow hFlow with ⟨old, hOld, hFd⟩
    rw [hCapacity] at hs
    rw [← hFd]
    exact hOwned.opened s hs old hOld
  · intro s hs flow hFlow
    rcases hFlows s flow hFlow with ⟨old, hOld, hFd⟩
    rw [hCapacity] at hs
    rw [← hFd]
    exact hOwned.nonneg s hs old hOld
  · intro s hs t ht a b ha hb hFd
    rcases hFlows s a ha with ⟨a', ha', hFdA⟩
    rcases hFlows t b hb with ⟨b', hb', hFdB⟩
    rw [hCapacity] at hs ht
    exact hOwned.distinct s hs t ht a' b' ha' hb'
      (by rw [hFdA, hFdB, hFd])

theorem Owned.setFlow
    {slot : Nat}
    {flow new : Flow}
    (hOwned : Owned flows sockets)
    (hFlow : flows.flows slot = some flow)
    (hFd : new.fd = flow.fd) :
    Owned (flows.setFlow slot new) sockets := by
  refine @Owned.of_flows flows (flows.setFlow slot new)
    sockets hOwned rfl ?_
  intro s other hOther
  rcases fill_eq_some hOther with ⟨hs, hEq⟩ | ⟨_, hOld⟩
  · subst hs
    subst hEq
    exact ⟨flow, hFlow, hFd.symm⟩
  · exact ⟨other, hOld, rfl⟩

theorem Owned.open
    (family : Nat)
    (hOwned : Owned flows sockets)
    (hFresh : fd ∉ sockets.map Socket.fd) :
    Owned flows ({ fd, family } :: sockets) :=
  ⟨List.nodup_cons.mpr ⟨hFresh, hOwned.nodup⟩,
    fun s hs flow hFlow =>
      List.mem_cons_of_mem _ (hOwned.opened s hs flow hFlow),
    hOwned.nonneg, hOwned.distinct⟩

/- A flow on a descriptor that no other flow has. -/
theorem Owned.insert
    {flow : Flow}
    {p : Nat}
    {rest : List Nat}
    (hOwned : Owned flows sockets)
    (hOpen : flow.fd ∈ sockets.map Socket.fd)
    (hNonneg : 0 ≤ flow.fd)
    (hUnused :
      ∀ t < flows.capacity, ∀ other,
        flows.flows t = some other → other.fd ≠ flow.fd) :
    Owned (flows.inserted flow s p rest) sockets := by
  refine ⟨hOwned.nodup, ?_, ?_, ?_⟩
  · intro t ht other hOther
    rcases fill_eq_some hOther with ⟨_, hEq⟩ | ⟨_, hOld⟩
    · rw [hEq]
      exact hOpen
    · exact hOwned.opened t ht other hOld
  · intro t ht other hOther
    rcases fill_eq_some hOther with ⟨_, hEq⟩ | ⟨_, hOld⟩
    · rw [hEq]
      exact hNonneg
    · exact hOwned.nonneg t ht other hOld
  · intro t ht u hu a b ha hb hFd
    rcases fill_eq_some ha with ⟨hts, haEq⟩ | ⟨_, ha'⟩
    · rcases fill_eq_some hb with ⟨hus, hbEq⟩ | ⟨_, hb'⟩
      · rw [hts, hus]
      · rw [haEq] at hFd
        exact absurd hFd.symm (hUnused u hu b hb')
    · rcases fill_eq_some hb with ⟨hus, hbEq⟩ | ⟨_, hb'⟩
      · rw [hbEq] at hFd
        exact absurd hFd (hUnused t ht a ha')
      · exact hOwned.distinct t ht u hu a b ha' hb' hFd

/- The new descriptor is not closed by the eviction. -/
theorem Owned.not_closed
    {middle base : FlowTable}
    (hOwned : Owned middle sockets)
    (hFresh : fd ∉ sockets.map Socket.fd)
    (hShrinks : FlowTable.Shrinks middle base events) :
    .close fd ∉ events := by
  intro hClosed
  rcases hShrinks.closed fd hClosed with
    ⟨t, ht, flow, hFlow, hFd, _⟩
  apply hFresh
  rw [← hFd]
  exact hOwned.opened t ht flow hFlow

theorem Acquired.owned
    {client : Sockaddr}
    (hAcquired :
      Acquired env.hash dp client backend now result)
    (hOwned : Owned dp.flows dp.sockets) :
    Owned result.2.flows result.2.sockets := by
  cases hAcquired with
  | reaimed slot flow hSlot hFlow hClient hGet =>
      exact hOwned.setFlow hFlow rfl
  | failed flows events answers hInv hShrinks hGet =>
      exact hOwned.shrinks hShrinks
  | dropped base flows events answers fd s p rest hInv
      hShrinks hBase hRemoved hGet =>
      apply (hOwned.shrinks hShrinks).of_flows
        hRemoved.capacity
      intro t flow hFlow
      rw [hRemoved.flows] at hFlow
      rcases vacate_eq_some hFlow with ⟨hNe, hIn⟩
      rcases fill_eq_some hIn with ⟨hts, _⟩ | ⟨_, hKept⟩
      · exact absurd hts hNe
      · exact ⟨flow, hKept, rfl⟩
  | created middle base first second answers fd s p rest
      hValid hAbsent hFirst hSecond hSlot hBase hInv hAnswer
      hFresh hGet =>
      have hMiddle := hOwned.shrinks hFirst
      have hNotClosed := hMiddle.not_closed hFresh hSecond
      have hOpened :=
        (hMiddle.open backend.storage.ssFamily
          hFresh).shrinks hSecond
      apply hOpened.insert
      · exact fd_mem_closeSockets List.mem_cons_self
          hNotClosed
      · exact Int.natCast_nonneg fd
      · intro t ht other hOther hEq
        rw [hSecond.capacity] at ht
        apply hFresh
        have hFd : other.fd = (fd : Int) := hEq
        rw [← hFd]
        exact hMiddle.opened t ht other (hSecond.flow hOther)

theorem FlowStep.owned
    (hStep : FlowStep env dp event after sockets)
    (hOwned : Owned dp.flows dp.sockets) :
    Owned after sockets := by
  cases hStep with
  | kept => exact hOwned
  | touched _ slot flow now hSlot hFlow =>
      exact hOwned.setFlow hFlow rfl
  | shrunk _ flows events hInv hShrinks =>
      exact hOwned.shrinks hShrinks
  | acquired datagram source answers sessions pending
      backend result hChosen hAcquired =>
      exact hAcquired.owned hOwned

theorem ReachableWhere.owned
    {allowed : Dataplane → Event → Prop}
    (hReach : ReachableWhere env allowed dp) :
    Owned dp.flows dp.sockets := by
  induction hReach with
  | start hStarts =>
      rcases hStarts.started.sockets with ⟨listen, hSockets⟩
      refine ⟨by simp [hSockets], ?_, ?_, ?_⟩
      · intro s _ flow hFlow
        rw [hStarts.no_flows s] at hFlow
        cases hFlow
      · intro s _ flow hFlow
        rw [hStarts.no_flows s] at hFlow
        cases hFlow
      · intro s _ t _ a b ha
        rw [hStarts.no_flows s] at ha
        cases ha
  | step event hReach _ ih =>
      rcases step_transport event hReach.tables.flows with
        ⟨_, _, hFlows, _⟩
      exact hFlows.owned ih

------------------------------------------------------------
-- Address Families
------------------------------------------------------------

/-
  The socket of each live flow was opened with the family of
  the flow's current backend.
-/
def FamiliesMatch
    (flows : FlowTable)
    (sockets : List Socket) : Prop :=
  ∀ s < flows.capacity, ∀ flow,
    flows.flows s = some flow →
      flow.fd ∈ sockets.map Socket.fd ∧
      ∀ socket ∈ sockets, socket.fd = flow.fd →
        socket.family = flow.backend.storage.ssFamily

/-
  The flow of the client, if it has one, is aimed at the
  family of the backend that is chosen now.
-/
def KeepsFamily
    (env : Env)
    (dp : Dataplane) :
    Event → Prop
| .client datagram source _ =>
    ∀ backend,
      dp.chosenBackend env datagram.packet source
        datagram.now = some backend →
      ∀ s < dp.flows.capacity, ∀ flow,
        dp.flows.flows s = some flow →
        flow.client.equals source = true →
        flow.backend.storage.ssFamily =
          backend.storage.ssFamily
| _ => True

/-
  The table in which a session is selected has room for the
  aliases of the datagram, or evicts for them at a distance
  from the selected slot.
-/
def KeepsSelection
    (env : Env)
    (dp : Dataplane) :
    Event → Prop
| .client datagram source answers =>
    ∀ i sessions,
      (dp.withAnswers answers).fastPath env datagram.packet
        source datagram.now = none →
      selectSession env dp.config dp.sessions
        datagram.packet source datagram.now =
          (some i, sessions) →
      (sessions.touch i datagram.now).Undisturbed env.hash i
        (aliasKeys datagram.packet)
| _ => True

variable {env : Env} {flows after : FlowTable}
variable {sockets : List Socket} {events : List FlowEvent}
variable {datagram : Datagram} {flow : Flow}

/- What the learning of the aliases asks of the table. -/
theorem KeepsSelection.selected
    {i : Nat}
    {sessions : SessionTable}
    (hKept :
      KeepsSelection env dp (.client datagram source answers))
    (hInv : dp.sessions.Inv env.hash)
    (hFast :
      (dp.withAnswers answers).fastPath env datagram.packet
        source datagram.now = none)
    (hSelect :
      selectSession env dp.config dp.sessions
        datagram.packet source datagram.now =
          (some i, sessions)) :
    let selected := sessions.touch i datagram.now
    selected.Inv env.hash ∧ i < selected.capacity ∧
      selected.Undisturbed env.hash i
        (aliasKeys datagram.packet) := by
  rcases selected_lt hInv hSelect with ⟨hSelected, hi⟩
  refine ⟨SessionTable.touch_inv env.hash i datagram.now
    hSelected, ?_, hKept i sessions hFast hSelect⟩
  rw [(SessionTable.touch_inherits sessions i
    datagram.now).capacity]
  exact hi

theorem FamiliesMatch.shrinks
    (hMatch : FamiliesMatch flows sockets)
    (hOwned : Owned flows sockets)
    (hShrinks : FlowTable.Shrinks flows after events) :
    FamiliesMatch after (closeSockets sockets events) := by
  intro s hs flow hFlow
  rw [hShrinks.capacity] at hs
  rcases hMatch s hs flow (hShrinks.flow hFlow) with
    ⟨hOpen, hFamily⟩
  refine ⟨fd_mem_closeSockets hOpen
    (hOwned.survives hShrinks hs hFlow), ?_⟩
  intro socket hIn hFd
  exact hFamily socket (mem_closeSockets.mp hIn).1 hFd

theorem reaim_family
    (now : Int)
    (hSame :
      flow.backend.storage.ssFamily =
        backend.storage.ssFamily) :
    (reaim flow backend now).backend.storage.ssFamily =
      flow.backend.storage.ssFamily := by
  unfold reaim
  dsimp only
  split
  · rfl
  · exact hSame.symm

theorem Acquired.familiesMatch
    {client : Sockaddr}
    (hAcquired :
      Acquired env.hash dp client backend now result)
    (hOwned : Owned dp.flows dp.sockets)
    (hKeeps :
      ∀ s < dp.flows.capacity, ∀ flow,
        dp.flows.flows s = some flow →
        flow.client.equals client = true →
        flow.backend.storage.ssFamily =
          backend.storage.ssFamily)
    (hMatch : FamiliesMatch dp.flows dp.sockets) :
    FamiliesMatch result.2.flows result.2.sockets := by
  cases hAcquired with
  | reaimed slot flow hSlot hFlow hClient hGet =>
      intro s hs new hNew
      rcases fill_eq_some hNew with ⟨hEq, hReaimed⟩ | ⟨_, hOld⟩
      · subst hEq
        subst hReaimed
        rw [reaim_family now (hKeeps s hs flow hFlow hClient)]
        exact hMatch s hs flow hFlow
      · exact hMatch s hs new hOld
  | failed flows events answers hInv hShrinks hGet =>
      exact hMatch.shrinks hOwned hShrinks
  | dropped base flows events answers fd s p rest hInv
      hShrinks hBase hRemoved hGet =>
      intro t ht flow hFlow
      rw [hRemoved.flows] at hFlow
      rcases vacate_eq_some hFlow with ⟨hNe, hIn⟩
      rcases fill_eq_some hIn with ⟨hts, _⟩ | ⟨_, hKept⟩
      · exact absurd hts hNe
      · have hCapacity : flows.capacity = base.capacity :=
          hRemoved.capacity
        have ht' : t < base.capacity := by
          rw [← hCapacity]
          exact ht
        exact hMatch.shrinks hOwned hShrinks t ht' flow hKept
  | created middle base first second answers fd s p rest
      hValid hAbsent hFirst hSecond hSlot hBase hInv hAnswer
      hFresh hGet =>
      have hMiddle := hOwned.shrinks hFirst
      have hMatch' := hMatch.shrinks hOwned hFirst
      have hNotClosed := hMiddle.not_closed hFresh hSecond
      intro t ht flow hFlow
      rcases fill_eq_some hFlow with ⟨_, hNew⟩ | ⟨_, hKept⟩
      · subst hNew
        refine ⟨fd_mem_closeSockets List.mem_cons_self
          hNotClosed, ?_⟩
        intro socket hIn hFd
        rcases List.mem_cons.mp
            (mem_closeSockets.mp hIn).1 with hEq | hOld
        · rw [hEq]
          rfl
        · exact absurd
            (List.mem_map.mpr ⟨socket, hOld, hFd⟩) hFresh
      · have ht' : t < middle.capacity := by
          rw [← hSecond.capacity]
          exact ht
        have hOld := hSecond.flow hKept
        rcases hMatch' t ht' flow hOld with ⟨hOpen, hFamily⟩
        refine ⟨fd_mem_closeSockets
          (List.mem_cons_of_mem _ hOpen)
          (hMiddle.survives hSecond ht' hKept), ?_⟩
        intro socket hIn hFd
        rcases List.mem_cons.mp
            (mem_closeSockets.mp hIn).1 with hEq | hSocket
        · exfalso
          apply hFresh
          rw [hEq] at hFd
          have hSame : (fd : Int) = flow.fd := hFd
          rw [hSame]
          exact hOpen
        · exact hFamily socket hSocket hFd

theorem FlowStep.familiesMatch
    (hStep : FlowStep env dp event after sockets)
    (hOwned : Owned dp.flows dp.sockets)
    (hKeeps : KeepsFamily env dp event)
    (hMatch : FamiliesMatch dp.flows dp.sockets) :
    FamiliesMatch after sockets := by
  cases hStep with
  | kept => exact hMatch
  | touched _ slot flow now hSlot hFlow =>
      intro s hs new hNew
      rcases fill_eq_some hNew with ⟨hEq, hTouched⟩ | ⟨_, hOld⟩
      · subst hEq
        subst hTouched
        exact hMatch s hs flow hFlow
      · exact hMatch s hs new hOld
  | shrunk _ flows events hInv hShrinks =>
      exact hMatch.shrinks hOwned hShrinks
  | acquired datagram source answers sessions pending
      backend result hChosen hAcquired =>
      exact hAcquired.familiesMatch hOwned
        (hKeeps backend hChosen) hMatch

theorem reachable_familiesMatch
    (hReach : ReachableWhere env (KeepsFamily env) dp) :
    FamiliesMatch dp.flows dp.sockets := by
  induction hReach with
  | start hStarts =>
      intro s _ flow hFlow
      rw [hStarts.no_flows s] at hFlow
      cases hFlow
  | step event hReach hKeeps ih =>
      rcases step_transport event hReach.tables.flows with
        ⟨_, _, hFlows, _⟩
      exact hFlows.familiesMatch hReach.owned hKeeps ih

/- With the selection kept, the aim is the chosen backend. -/
theorem Aimed.dest
    {dest : Sockaddr}
    (hAimed : Aimed env dp datagram source answers flow dest)
    (hTables : Tables env dp)
    (hKept :
      KeepsSelection env dp
        (.client datagram source answers)) :
    (dp.config.cidCodec.enabled = false ∧
        dest = flow.backend) ∨
      (dp.chosenBackend env datagram.packet source
          datagram.now = some dest ∧
        AimsAt dp source dest flow) := by
  cases hAimed with
  | fast hCodec => exact Or.inl ⟨hCodec, rfl⟩
  | fresh backend hChosen hFlow =>
      exact Or.inr ⟨hChosen, hFlow⟩
  | session i slot sessions acquired hFast hSelect hAcquire
      hFlow =>
      right
      rcases hKept.selected hTables.sessions hFast
          hSelect with
        ⟨hTouched, hi, hCalm⟩
      rw [(learned_of_undisturbed datagram.now slot
        (acquired.flowId slot) hTouched hi hCalm).1]
      exact ⟨Handled.chosen_session
        ((fastPath_withAnswers _ _ _ _ _).mp hFast) hSelect,
        hFlow⟩

theorem Aimed.family
    {dest : Sockaddr}
    (hAimed : Aimed env dp datagram source answers flow dest)
    (hTables : Tables env dp)
    (hKeeps :
      KeepsFamily env dp (.client datagram source answers))
    (hKept :
      KeepsSelection env dp
        (.client datagram source answers)) :
    dest.storage.ssFamily =
      flow.backend.storage.ssFamily := by
  rcases hAimed.dest hTables hKept with
    ⟨_, hEq⟩ | ⟨hChosen, hEq | ⟨_, s, hs, old, hOld,
      hClient, hBackend⟩⟩
  · rw [hEq]
  · rw [hEq]
  · rw [hBackend]
    exact (hKeeps dest hChosen s hs old hOld hClient).symm

/-
  In every run in which flows are only re-aimed within one
  family, the socket of each live flow has the family of the
  flow's backend; and what is queued on it goes there, if
  the selected entry survives the alias insertions.
-/
theorem families_match
    {dp : Dataplane}
    (hReach : ReachableWhere env (KeepsFamily env) dp) :
    FamiliesMatch dp.flows dp.sockets ∧
      ∀ event, KeepsFamily env dp event →
        KeepsSelection env dp event →
        ∀ item ∈ dp.queuedBy env event, item.origin ≠ none →
          item.fd ∈
              (dp.step env event).sockets.map Socket.fd ∧
            ∀ socket ∈ (dp.step env event).sockets,
              socket.fd = item.fd →
                socket.family =
                  item.dest.storage.ssFamily := by
  refine ⟨reachable_familiesMatch hReach, ?_⟩
  intro event hKeeps hKept item hItem hOrigin
  rcases step_transport event hReach.tables.flows with
    ⟨items, hQueue, hFlows, hItems⟩
  rw [queuedBy_eq hQueue] at hItem
  have hAfter :=
    hFlows.familiesMatch hReach.owned hKeeps
      (reachable_familiesMatch hReach)
  rcases hItems item hItem with
    hNone | ⟨datagram, source, answers, hEvent, hUp⟩
  · exact absurd hNone hOrigin
  · rcases hUp.flow with
      ⟨slot, hSlot, flow, hFlow, _, hFd, hAimed⟩
    subst hEvent
    rw [hFd, hAimed.family hReach.tables hKeeps hKept]
    exact hAfter slot hSlot flow hFlow

end Dataplane

namespace Deployment

open Dataplane

/- An IPv4 server and an IPv6 server. -/
def bothFamilies : Dataplane :=
  okValue (booted { maxSessions := [52], servers := [1, 8] })
    (by decide +kernel)

/- One client visits the first server, then the second. -/
def visitBoth : Dataplane :=
  bothFamilies.run env
    [.client (datagram 1) (client 4) (opens 4),
      .client (datagram 8) (client 4) (opens 5)]

/-
  The flow keeps its IPv4 socket although it is aimed at an
  IPv6 address now.
-/
theorem family_mismatch :
    Reachable env visitBoth ∧
      ¬ FamiliesMatch visitBoth.flows visitBoth.sockets := by
  refine ⟨reachable_okValue _ _ _, ?_⟩
  intro hMatch
  have hSlot :
      (visitBoth.flows.flows 0).map
          (fun flow =>
            (flow.fd, flow.backend.storage.ssFamily)) =
        some (4, afInet6) := by
    decide +kernel
  rcases Option.map_eq_some_iff.mp hSlot with
    ⟨flow, hFlow, hPair⟩
  rcases Prod.mk.inj hPair with ⟨hFd, hFamily⟩
  have hSocket :=
    (hMatch 0 (by decide +kernel) flow hFlow).2
      { fd := 4, family := afInet } (by decide +kernel)
      hFd.symm
  rw [hFamily] at hSocket
  cases hSocket

/- The same with two IPv4 servers. -/
def firstOfTwo : Dataplane :=
  (okValue (booted { maxSessions := [52], servers := [1, 2] })
    (by decide +kernel)).step env
      (.client (datagram 1) (client 4) (opens 4))

/- The client has gone on to the second server. -/
def secondOfTwo : Dataplane :=
  firstOfTwo.step env
    (.client (datagram 2) (client 4) (opens 5))

/- The flow is aimed at the second server and matches. -/
theorem families_match_second_visit :
    (secondOfTwo.flows.flows 0).map
        (fun flow => (flow.fd, flow.backend)) =
      some (4,
        { storage := SockaddrStorage.ofBytes (inet 2)
          len := 16 }) ∧
      FamiliesMatch secondOfTwo.flows
        secondOfTwo.sockets := by
  have hFirst :
      ReachableWhere env (KeepsFamily env) firstOfTwo := by
    refine ReachableWhere.step _
      (ReachableWhere.start (starts_okValue _ _)) ?_
    intro backend _ s _ flow hFlow
    cases hFlow
  have hChosen :
      (firstOfTwo.chosenBackend env (datagram 2).packet
        (client 4) (datagram 2).now).all
          (fun backend =>
            backend.storage.ssFamily == afInet) = true := by
    decide +kernel
  have hFlows :
      ∀ s < firstOfTwo.flows.capacity,
        (firstOfTwo.flows.flows s).all
          (fun flow =>
            flow.backend.storage.ssFamily == afInet) =
              true := by
    decide +kernel
  have hSecond :
      ReachableWhere env (KeepsFamily env) secondOfTwo := by
    refine ReachableWhere.step _ hFirst ?_
    intro backend hBackend s hs flow hFlow _
    have hAimed := hFlows s hs
    rw [hFlow] at hAimed
    rw [hBackend] at hChosen
    exact (eq_of_beq hAimed).trans (eq_of_beq hChosen).symm
  exact ⟨by decide +kernel, (families_match hSecond).1⟩

end Deployment

end QuicSniRouter
