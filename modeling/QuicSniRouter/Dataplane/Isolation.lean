import QuicSniRouter.Dataplane.Sockets

/-
  Whose socket a queued datagram leaves through.  A queue
  item holds the number of a descriptor; between queueing
  and sending the flow may be evicted and the number be
  handed out again.

  Main declarations:
    * `Dataplane.Isolated`
    * `Dataplane.FreshDescriptors`
    * `Dataplane.transmissions_isolated`
-/

namespace QuicSniRouter

open LinearProbing

namespace Dataplane

variable {flows after : FlowTable} {item : SendItem}
variable {event : Event}

/-
  The descriptor of an upstream item is not the socket of a
  live flow of another client.
-/
def Isolated
    (flows : FlowTable)
    (item : SendItem) : Prop :=
  ∀ client, item.origin = some client →
    ∀ s < flows.capacity, ∀ flow,
      flows.flows s = some flow → flow.fd = item.fd →
        flow.client.equals client = true

/-
  A client without a flow is not given a number that is
  still queued for another client.
-/
def FreshDescriptors
    (env : Env)
    (dp : Dataplane) :
    Event → Prop
| .client _ source answers =>
    dp.flows.get env.hash source = none →
      ∀ fd : Nat, answers.descriptor = some fd →
        ∀ item ∈ dp.queue, ∀ client,
          item.origin = some client → item.fd = fd →
            source.equals client = true
| _ => True

variable {env : Env} {dp : Dataplane}

theorem Isolated.of_flows
    {flows after : FlowTable}
    {item : SendItem}
    (hIsolated : Isolated flows item)
    (hCapacity : after.capacity = flows.capacity)
    (hFlows :
      ∀ s flow, after.flows s = some flow →
        ∃ old, flows.flows s = some old ∧
          old.fd = flow.fd ∧ old.client = flow.client) :
    Isolated after item := by
  intro client hOrigin s hs flow hFlow hFd
  rcases hFlows s flow hFlow with ⟨old, hOld, hOldFd, hClient⟩
  rw [hCapacity] at hs
  rw [← hClient]
  exact hIsolated client hOrigin s hs old hOld
    (hOldFd.trans hFd)

theorem Isolated.setFlow
    {slot : Nat}
    {flow new : Flow}
    (hIsolated : Isolated flows item)
    (hFlow : flows.flows slot = some flow)
    (hFd : new.fd = flow.fd)
    (hClient : new.client = flow.client) :
    Isolated (flows.setFlow slot new) item := by
  refine @Isolated.of_flows flows (flows.setFlow slot new)
    item hIsolated rfl ?_
  intro s other hOther
  rcases fill_eq_some hOther with ⟨hs, hEq⟩ | ⟨_, hOld⟩
  · subst hs
    subst hEq
    exact ⟨flow, hFlow, hFd.symm, hClient.symm⟩
  · exact ⟨other, hOld, rfl, rfl⟩

theorem Isolated.shrinks
    {events : List FlowEvent}
    (hIsolated : Isolated flows item)
    (hShrinks : FlowTable.Shrinks flows after events) :
    Isolated after item :=
  hIsolated.of_flows hShrinks.capacity
    (fun _ flow hFlow =>
      ⟨flow, hShrinks.flow hFlow, rfl, rfl⟩)

theorem Acquired.isolated
    {client backend : Sockaddr}
    {now : Int}
    {result : Option Nat × Dataplane}
    (hAcquired :
      Acquired env.hash dp client backend now result)
    (hIsolated : Isolated dp.flows item)
    (hFresh :
      dp.flows.get env.hash client = none →
        ∀ fd : Nat, dp.answers.descriptor = some fd →
          ∀ origin, item.origin = some origin →
            item.fd = fd → client.equals origin = true) :
    Isolated result.2.flows item := by
  cases hAcquired with
  | reaimed slot flow hSlot hFlow hClient hGet =>
      exact hIsolated.setFlow hFlow rfl rfl
  | failed flows events answers hInv hShrinks hGet =>
      exact hIsolated.shrinks hShrinks
  | dropped base flows events answers fd s p rest hInv
      hShrinks hBase hRemoved hGet =>
      apply (hIsolated.shrinks hShrinks).of_flows
        hRemoved.capacity
      intro t flow hFlow
      rw [hRemoved.flows] at hFlow
      rcases vacate_eq_some hFlow with ⟨hNe, hIn⟩
      rcases fill_eq_some hIn with ⟨hts, _⟩ | ⟨_, hKept⟩
      · exact absurd hts hNe
      · exact ⟨flow, hKept, rfl, rfl⟩
  | created middle base first second answers fd s p rest
      hValid hAbsent hFirst hSecond hSlot hBase hInv hAnswer
      hNew hGet hLoses =>
      have hBaseIsolated :=
        (hIsolated.shrinks hFirst).shrinks hSecond
      intro origin hOrigin t ht flow hFlow hFd
      rcases fill_eq_some hFlow with ⟨_, hEq⟩ | ⟨_, hKept⟩
      · subst hEq
        exact hFresh hGet fd hAnswer origin hOrigin hFd.symm
      · exact hBaseIsolated origin hOrigin t ht flow hKept hFd

theorem FlowStep.isolated
    {sockets : List Socket}
    (hStep : FlowStep env dp event after sockets)
    (hFresh : FreshDescriptors env dp event)
    (hItem : item ∈ dp.queue)
    (hIsolated : Isolated dp.flows item) :
    Isolated after item := by
  cases hStep with
  | kept => exact hIsolated
  | touched _ slot flow now hSlot hFlow =>
      exact hIsolated.setFlow hFlow rfl rfl
  | shrunk _ flows events hInv hShrinks =>
      exact hIsolated.shrinks hShrinks
  | acquired datagram source answers sessions pending
      backend result hChosen hAcquired =>
      apply hAcquired.isolated hIsolated
      intro hGet fd hAnswer origin hOrigin hFd
      exact hFresh hGet fd hAnswer item hItem origin hOrigin
        hFd

/- A new item is on the flow of its own client. -/
theorem Upstream.isolated
    {datagram : Datagram}
    {source : Sockaddr}
    {answers : Answers}
    {after : Dataplane}
    (hUp : Upstream env dp datagram source answers after item)
    (hOwned : Owned after.flows after.sockets) :
    Isolated after.flows item := by
  rcases hUp.flow with
    ⟨slot, hSlot, flow, hFlow, hClient, hFd, _⟩
  intro client hOrigin s hs other hOther hSame
  rw [hUp.origin] at hOrigin
  cases hOrigin
  have hEq :=
    hOwned.distinct s hs slot hSlot other flow hOther hFlow
      (hSame.trans hFd)
  subst hEq
  rw [hFlow] at hOther
  cases hOther
  exact hClient

/- Everything queued or sent is isolated. -/
structure QueueIsolated
    (dp : Dataplane) : Prop where
  queue : ∀ item ∈ dp.queue, Isolated dp.flows item
  wire : ∀ sent ∈ dp.wire, Isolated sent.flows sent.item

theorem step_queueIsolated
    (hInv : dp.flows.Inv env.hash)
    (hOwned : Owned dp.flows dp.sockets)
    (hFresh : FreshDescriptors env dp event)
    (hBefore : QueueIsolated dp) :
    QueueIsolated (dp.step env event) := by
  rcases step_transport event hInv with
    ⟨items, hQueue, hFlows, hItems⟩
  have hAfter := hFlows.owned hOwned
  have hAll :
      ∀ item, item ∈ dp.queue ∨ item ∈ items →
        Isolated (dp.step env event).flows item := by
    rintro item (hOld | hNew)
    · exact hFlows.isolated hFresh hOld
        (hBefore.queue item hOld)
    · rcases hItems item hNew with
        hNone | ⟨datagram, source, answers, _, hUp⟩
      · intro client hOrigin
        rw [hNone] at hOrigin
        cases hOrigin
      · exact hUp.isolated hAfter
  constructor
  · intro item hItem
    exact hAll item (hQueue.queue item hItem)
  · intro sent hSent
    rcases hQueue.wire sent hSent with hOld | ⟨hWhen, hFrom⟩
    · exact hBefore.wire sent hOld
    · rw [hWhen]
      exact hAll sent.item hFrom

/-
  In every run in which no descriptor number that is still
  queued for one client is handed out for another, what is
  sent for a client never leaves through the socket of a
  live flow of another client.
-/
theorem transmissions_isolated
    (hReach : ReachableWhere env (FreshDescriptors env) dp) :
    ∀ sent ∈ dp.wire, Isolated sent.flows sent.item := by
  have hIsolated : QueueIsolated dp := by
    induction hReach with
    | start hStarts =>
        constructor
        · rw [hStarts.started.queue]
          simp
        · rw [hStarts.started.wire]
          simp
    | step event hReach hFresh ih =>
        exact step_queueIsolated hReach.tables.flows
          hReach.owned hFresh ih
  exact hIsolated.wire

end Dataplane

namespace Deployment

open Dataplane

/- Out of descriptors, then the number just freed. -/
def reopens
    (fd : Nat) : Answers where
  sockets := [.exhausted, .opened fd]
  epollAdd := true
  sends := []

/- A kernel that sends what it is given. -/
def sends
    (n : Nat) : Answers where
  sockets := []
  epollAdd := true
  sends := [.sent n]

/-
  Two clients in one batch.  The second finds no descriptor
  left, so the flow of the first is evicted and its number
  is used again before the queue is flushed.
-/
def sharedBatch : Dataplane :=
  fourSlots.run env
    [.client (datagram 1) (client 4) (opens 4),
      .client (datagram 1) (client 5) (reopens 4),
      .flush (sends 2)]

/- Two clients are sent over one descriptor. -/
theorem descriptor_reused :
    Reachable env sharedBatch ∧
      ∃ sent ∈ sharedBatch.wire,
        ¬ Isolated sent.flows sent.item := by
  refine ⟨reachable_okValue _ _ _, ?_⟩
  have hLog :
      sharedBatch.wire.map
          (fun sent =>
            (sent.item.origin, sent.item.fd,
              (sent.flows.flows 0).map Flow.fd,
              (sent.flows.flows 0).map
                (fun flow =>
                  flow.client.equals (client 4)))) =
        [(some (client 4), 4, some 4, some false),
          (some (client 5), 4, some 4, some false)] := by
    decide +kernel
  have hCapacity :
      sharedBatch.wire.all
        (fun sent => 0 < sent.flows.capacity) = true := by
    decide +kernel
  cases hWire : sharedBatch.wire with
  | nil =>
      rw [hWire] at hLog
      cases hLog
  | cons sent rest =>
      rw [hWire] at hLog hCapacity
      simp only [List.map_cons, List.cons.injEq,
        Prod.mk.injEq] at hLog
      rcases hLog with ⟨⟨hOrigin, hFd, hFlowFd, hClient⟩, _⟩
      rcases Option.map_eq_some_iff.mp hFlowFd with
        ⟨flow, hFlow, hSame⟩
      rw [hFlow] at hClient
      simp only [Option.map_some, Option.some.injEq]
        at hClient
      have hPos : 0 < sent.flows.capacity := by
        rw [List.all_cons, Bool.and_eq_true] at hCapacity
        exact of_decide_eq_true hCapacity.1
      refine ⟨sent, List.mem_cons_self, ?_⟩
      intro hIsolated
      have hOwn :=
        hIsolated (client 4) hOrigin 0 hPos flow hFlow
          (hSame.trans hFd.symm)
      rw [hClient] at hOwn
      cases hOwn

/- One item leaves through each of two sockets. -/
def sendsEach : Answers :=
  { sends 1 with sends := [.sent 1, .sent 1] }

/- The second client is given a number of its own. -/
def firstQueued : Dataplane :=
  fourSlots.step env
    (.client (datagram 1) (client 4) (opens 4))

/- The state with a second client, all sent. -/
def twoSockets : Dataplane :=
  (firstQueued.step env
    (.client (datagram 1) (client 5) (opens 5))).step env
      (.flush sendsEach)

/- Each item leaves over the socket of its client. -/
theorem two_sockets_isolated :
    firstQueued.queue.map SendItem.fd = [4] ∧
      twoSockets.wire.map
          (fun sent => sent.item.fd) = [4, 5] ∧
      ∀ sent ∈ twoSockets.wire,
        Isolated sent.flows sent.item := by
  have hQueued :
      firstQueued.queue.map SendItem.fd = [4] := by
    decide +kernel
  have hFirst :
      FreshDescriptors env fourSlots
        (.client (datagram 1) (client 4) (opens 4)) := by
    intro _ fd _ item hItem
    cases hItem
  have hSecond :
      FreshDescriptors env firstQueued
        (.client (datagram 1) (client 5) (opens 5)) := by
    intro _ fd hFd item hItem client _ hSame
    have hFour : item.fd ∈ firstQueued.queue.map SendItem.fd :=
      List.mem_map_of_mem hItem
    rw [hQueued, List.mem_singleton] at hFour
    cases hFd
    omega
  have hStart :
      ReachableWhere env (FreshDescriptors env) fourSlots :=
    ReachableWhere.start (starts_okValue _ _)
  have hReach :
      ReachableWhere env (FreshDescriptors env) twoSockets :=
    ReachableWhere.step _
      (ReachableWhere.step _
        (ReachableWhere.step _ hStart hFirst) hSecond)
      trivial
  exact ⟨hQueued, by decide +kernel,
    transmissions_isolated hReach⟩

end Deployment

end QuicSniRouter
