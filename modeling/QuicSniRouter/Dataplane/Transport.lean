import QuicSniRouter.Dataplane.Invariant

/-
  What one event can do to the flows, the open descriptors
  and the send queue, stated once for every event.

  Main declarations:
    * `Dataplane.FlowStep`
    * `Dataplane.QueueStep`
    * `Dataplane.Upstream`
    * `Dataplane.step_transport`
-/

------------------------------------------------------------
-- The Queue During An Event
------------------------------------------------------------

namespace QuicSniRouter

theorem sendRun_subset
    (results : List SendResult)
    (run : List SendItem) :
    (sendRun results run).1 ⊆ run := by
  induction results generalizing run with
  | nil =>
      cases run with
      | nil => exact List.Subset.refl _
      | cons item items => exact List.nil_subset _
  | cons result results ih =>
      cases run with
      | nil => exact List.Subset.refl _
      | cons item items =>
          cases result with
          | interrupted => exact ih (item :: items)
          | failed => exact List.nil_subset _
          | sent n =>
              unfold sendRun
              split
              · exact List.nil_subset _
              · apply List.append_subset.mpr
                exact ⟨List.take_subset n _,
                  List.Subset.trans (ih _)
                    (List.drop_subset n _)⟩

theorem sendRuns_subset
    (fuel : Nat)
    (results : List SendResult)
    (items : List SendItem) :
    (sendRuns fuel results items).1 ⊆ items := by
  induction fuel generalizing results items with
  | zero => exact List.nil_subset _
  | succ fuel ih =>
      cases items with
      | nil => exact List.Subset.refl _
      | cons item items =>
          have hTail :
              items.dropWhile
                  (fun other => other.fd == item.fd) ⊆
                item :: items :=
            List.Subset.trans
              (List.dropWhile_sublist _).subset
              (List.subset_cons_self _ _)
          have hHead :
              item :: items.takeWhile
                  (fun other => other.fd == item.fd) ⊆
                item :: items :=
            List.cons_subset_cons _
              (List.takeWhile_sublist _).subset
          apply List.append_subset.mpr
          exact ⟨List.Subset.trans (sendRun_subset _ _) hHead,
            List.Subset.trans (ih _ _) hTail⟩

namespace Dataplane

variable {dp after : Dataplane}
variable {client backend source : Sockaddr} {now : Int}
variable {slot : Option Nat} {datagram : Datagram}
variable {answers : Answers} {sessions : SessionTable}

/-
  The items that were queued in between, and where queue and
  wire log come from.  Whatever was sent left with the flows
  that the later state has.
-/
structure QueueStep
    (before after : Dataplane)
    (items : List SendItem) : Prop where
  enqueued : after.enqueued = before.enqueued ++ items
  queue :
    ∀ item ∈ after.queue, item ∈ before.queue ∨ item ∈ items
  wire :
    ∀ sent ∈ after.wire,
      sent ∈ before.wire ∨
        (sent.flows = after.flows ∧
          (sent.item ∈ before.queue ∨ sent.item ∈ items))

theorem QueueStep.refl
    (dp : Dataplane) :
    QueueStep dp dp [] :=
  ⟨by simp, fun _ h => Or.inl h, fun _ h => Or.inl h⟩

/- Changes elsewhere may come before. -/
theorem QueueStep.of_eq
    {before middle after : Dataplane}
    {items : List SendItem}
    (hStep : QueueStep middle after items)
    (hEnqueued : middle.enqueued = before.enqueued)
    (hQueue : middle.queue = before.queue)
    (hWire : middle.wire = before.wire) :
    QueueStep before after items := by
  rcases hStep with ⟨hItems, hLeft, hSent⟩
  rw [hEnqueued] at hItems
  rw [hQueue] at hLeft hSent
  rw [hWire] at hSent
  exact ⟨hItems, hLeft, hSent⟩

theorem QueueStep.trans
    {a b c : Dataplane}
    {first second : List SendItem}
    (hab : QueueStep a b first)
    (hbc : QueueStep b c second)
    (hFlows : c.flows = b.flows) :
    QueueStep a c (first ++ second) := by
  have hQueued :
      ∀ item, item ∈ b.queue ∨ item ∈ second →
        item ∈ a.queue ∨ item ∈ first ++ second := by
    rintro item (hOld | hNew)
    · rcases hab.queue item hOld with hIn | hIn
      · exact Or.inl hIn
      · exact Or.inr (List.mem_append_left _ hIn)
    · exact Or.inr (List.mem_append_right _ hNew)
  refine ⟨?_, ?_, ?_⟩
  · rw [hbc.enqueued, hab.enqueued, List.append_assoc]
  · intro item hItem
    exact hQueued item (hbc.queue item hItem)
  · intro sent hSent
    rcases hbc.wire sent hSent with hOld | ⟨hWhen, hFrom⟩
    · rcases hab.wire sent hOld with hIn | ⟨hWhen, hFrom⟩
      · exact Or.inl hIn
      · right
        refine ⟨by rw [hWhen, hFlows], ?_⟩
        rcases hFrom with hIn | hIn
        · exact Or.inl hIn
        · exact Or.inr (List.mem_append_left _ hIn)
    · exact Or.inr ⟨hWhen, hQueued _ hFrom⟩

theorem flush_queueStep
    (dp : Dataplane) :
    QueueStep dp dp.flush [] := by
  refine ⟨(List.append_nil _).symm, ?_, ?_⟩
  · intro item hItem
    cases hItem
  · intro sent hSent
    rcases List.mem_append.mp hSent with hOld | hNew
    · exact Or.inl hOld
    · rcases List.mem_map.mp hNew with ⟨item, hItem, hEq⟩
      subst hEq
      exact Or.inr ⟨rfl, Or.inl (sendRuns_subset _ _ _ hItem)⟩

theorem enqueue_queueStep
    (dp : Dataplane)
    (item : SendItem) :
    QueueStep dp (dp.enqueue item)
      ([item].filter
        (fun item =>
          item.packet.length ≤ maxDatagramSize)) := by
  have hAdd :
      ∀ mid : Dataplane,
        QueueStep mid
          { mid with
            queue := mid.queue ++ [item]
            enqueued := mid.enqueued ++ [item] }
          [item] := by
    intro mid
    refine ⟨rfl, ?_, fun _ h => Or.inl h⟩
    intro other hOther
    exact List.mem_append.mp hOther
  unfold enqueue
  by_cases hLong : item.packet.length > maxDatagramSize
  · rw [if_pos hLong]
    simp only [List.filter_cons, List.filter_nil]
    rw [if_neg (by simpa using hLong)]
    exact QueueStep.refl dp
  · have hKeep :
        [item].filter
          (fun item =>
            decide (item.packet.length ≤ maxDatagramSize)) =
          [item] := by
      simp only [List.filter_cons, List.filter_nil]
      rw [if_pos (by simpa using hLong)]
    rw [if_neg hLong, hKeep]
    dsimp only
    split
    · exact (flush_queueStep dp).trans (hAdd dp.flush) rfl
    · exact hAdd dp

theorem enqueueAll_queueStep
    (dp : Dataplane)
    (fd : Int)
    (dest source : Sockaddr)
    (packets : List Bytes) :
    QueueStep dp (dp.enqueueAll fd dest source packets)
      (itemsFor fd dest source packets) := by
  induction packets generalizing dp with
  | nil => exact QueueStep.refl dp
  | cons packet packets ih =>
      have hItems :
          itemsFor fd dest source (packet :: packets) =
            [({ fd, packet, dest, origin := some source } :
              SendItem)].filter
              (fun item =>
                item.packet.length ≤ maxDatagramSize) ++
            itemsFor fd dest source packets := by
        simp only [itemsFor, List.map_cons]
        rw [← List.filter_append]
        rfl
      have hFirst :=
        enqueue_queueStep dp
          { fd, packet, dest, origin := some source }
      have hFlows :=
        (enqueueAll_frame
          (dp.enqueue
            { fd, packet, dest, origin := some source })
          fd dest source packets).flows
      rw [hItems]
      exact hFirst.trans (ih _) hFlows

theorem sendAll_queueStep
    (dp : Dataplane)
    (fd : Int)
    (dest source : Sockaddr)
    (packets : List Bytes) :
    QueueStep dp (dp.enqueueAll fd dest source packets).flush
      (itemsFor fd dest source packets) := by
  have hSent :=
    (enqueueAll_queueStep dp fd dest source packets).trans
      (flush_queueStep _) rfl
  rw [List.append_nil] at hSent
  exact hSent

------------------------------------------------------------
-- One Event
------------------------------------------------------------

open LinearProbing

/- The flows and descriptors that an event can leave. -/
inductive FlowStep
    (env : Env)
    (dp : Dataplane) :
    Event → FlowTable → List Socket → Prop
  | kept
      (event : Event) :
      FlowStep env dp event dp.flows dp.sockets
  | touched
      (event : Event)
      (slot : Nat)
      (flow : Flow)
      (now : Int)
      (hSlot : slot < dp.flows.capacity)
      (hFlow : dp.flows.flows slot = some flow) :
      FlowStep env dp event
        (dp.flows.setFlow slot { flow with lastSeen := now })
        dp.sockets
  | shrunk
      (event : Event)
      (flows : FlowTable)
      (events : List FlowEvent)
      (hInv : flows.Inv env.hash)
      (hShrinks : FlowTable.Shrinks dp.flows flows events) :
      FlowStep env dp event flows
        (closeSockets dp.sockets events)
  | acquired
      (datagram : Datagram)
      (source : Sockaddr)
      (answers : Answers)
      (sessions : SessionTable)
      (pending : PendingTable)
      (backend : Sockaddr)
      (result : Option Nat × Dataplane)
      (hChosen :
        dp.chosenBackend env datagram.packet source
          datagram.now = some backend)
      (hAcquired :
        Acquired env.hash
          { dp with answers, sessions, pending } source
          backend datagram.now result) :
      FlowStep env dp (.client datagram source answers)
        result.2.flows result.2.sockets

/- Where a datagram of a client is aimed, given its flow. -/
inductive Aimed
    (env : Env)
    (dp : Dataplane)
    (datagram : Datagram)
    (source : Sockaddr)
    (answers : Answers)
    (flow : Flow) :
    Sockaddr → Prop
  | fast
      (hCodec : dp.config.cidCodec.enabled = false) :
      Aimed env dp datagram source answers flow flow.backend
  | fresh
      (backend : Sockaddr)
      (hChosen :
        dp.chosenBackend env datagram.packet source
          datagram.now = some backend)
      (hFlow : AimsAt dp source backend flow) :
      Aimed env dp datagram source answers flow backend
  | session
      (i slot : Nat)
      (sessions : SessionTable)
      (acquired : Dataplane)
      (hFast :
        (dp.withAnswers answers).fastPath env
          datagram.packet source datagram.now = none)
      (hSelect :
        selectSession env dp.config dp.sessions
          datagram.packet source datagram.now =
            (some i, sessions))
      (hAcquire :
        flowAcquire env
          { dp with
            answers
            sessions := sessions.touch i datagram.now }
          source
          ((sessions.touch i datagram.now).backendAt i)
          datagram.now = (some slot, acquired))
      (hFlow :
        AimsAt dp source
          ((sessions.touch i datagram.now).backendAt i)
          flow) :
      Aimed env dp datagram source answers flow
        ((learnClientLongHeaderCids env.hash
          (sessions.touch i datagram.now) datagram.packet
          (.slot i)
          ((sessions.touch i datagram.now).backendAt i).len
          datagram.now slot
          (acquired.flowId slot)).backendAt i)

/- An item queued upstream, on the flow of its client. -/
structure Upstream
    (env : Env)
    (dp : Dataplane)
    (datagram : Datagram)
    (source : Sockaddr)
    (answers : Answers)
    (after : Dataplane)
    (item : SendItem) : Prop where
  origin : item.origin = some source
  flow :
    ∃ slot < after.flows.capacity, ∃ flow,
      after.flows.flows slot = some flow ∧
        flow.client.equals source = true ∧
        item.fd = flow.fd ∧
        Aimed env dp datagram source answers flow item.dest

variable {env : Env}

theorem fastPath_withAnswers
    (dp : Dataplane)
    (answers : Answers)
    (packet : Bytes)
    (source : Sockaddr)
    (now : Int) :
    (dp.withAnswers answers).fastPath env packet source
        now = none ↔
      dp.fastPath env packet source now = none := by
  unfold fastPath withAnswers
  dsimp only
  split
  · cases dp.flows.get env.hash source with
    | none => simp
    | some slot =>
        cases hFlow : dp.flows.flows slot with
        | none => simp [hFlow]
        | some flow => simp [hFlow]
  · simp

theorem filter_single_subset
    {item other : SendItem}
    (hIn :
      other ∈ [item].filter
        (fun item =>
          item.packet.length ≤ maxDatagramSize)) :
    other = item :=
  List.mem_singleton.mp (List.mem_filter.mp hIn).1

/- The flow behind an acquired slot. -/
theorem acquired_flow
    {slot : Nat}
    (hAcquire :
      dp.flowAcquire env client backend now =
        (some slot, after))
    (hInv : dp.flows.Inv env.hash) :
    slot < after.flows.capacity ∧
      ∃ flow, after.flows.flows slot = some flow ∧
        flow.client.equals client = true ∧
        AimsAt dp client backend flow ∧
        after.flowFd slot = flow.fd := by
  have hAcquired := Acquired.of_eq hAcquire hInv
  have hCapacity := hAcquired.capacity
  rcases hAcquired.flow rfl with
    ⟨hSlot, flow, hFlow, hClient, hBackend, _⟩
  dsimp only at hCapacity hFlow
  rw [← hCapacity] at hSlot
  refine ⟨hSlot, flow, hFlow, hClient, hBackend, ?_⟩
  unfold flowFd
  rw [hFlow]

theorem acquired_queueStep
    (hAcquire :
      dp.flowAcquire env client backend now = (slot, after))
    (hInv : dp.flows.Inv env.hash) :
    after.enqueued = dp.enqueued ∧
      after.queue = dp.queue ∧ after.wire = dp.wire := by
  have hAcquired := Acquired.of_eq hAcquire hInv
  exact ⟨hAcquired.frame.enqueued, hAcquired.frame.queue,
    hAcquired.frame.wire⟩

/- A datagram that changes the flows and queues nothing. -/
theorem acquired_unsent
    {reached : Dataplane}
    {pending : PendingTable}
    (hInv : dp.flows.Inv env.hash)
    (hChosen :
      dp.chosenBackend env datagram.packet source
        datagram.now = some backend)
    (hAcquire :
      flowAcquire env { dp with answers, sessions, pending }
        source backend datagram.now = (slot, reached))
    (stored : SessionTable) :
    ∃ items,
      QueueStep dp { reached with sessions := stored } items ∧
      FlowStep env dp (.client datagram source answers)
        reached.flows reached.sockets ∧
      ∀ item ∈ items,
        Upstream env dp datagram source answers
          { reached with sessions := stored } item := by
  rcases acquired_queueStep hAcquire hInv with
    ⟨hEnqueued, hQueue, hWire⟩
  refine ⟨[],
    (QueueStep.refl _).of_eq hEnqueued hQueue hWire, ?_,
    by simp⟩
  exact FlowStep.acquired datagram source answers _ _ _ _
    hChosen (Acquired.of_eq hAcquire hInv)

/- The transport side of a datagram of a known session. -/
theorem forwarded_transport
    {i : Nat}
    (hInv : dp.flows.Inv env.hash)
    (hFast :
      (dp.withAnswers answers).fastPath env
        datagram.packet source datagram.now = none)
    (hSelect :
      selectSession env dp.config dp.sessions
        datagram.packet source datagram.now =
          (some i, sessions))
    (hForwarded :
      Forwarded env { dp with answers, sessions } i
        datagram.packet source datagram.now after) :
    ∃ items, QueueStep dp after items ∧
      FlowStep env dp (.client datagram source answers)
        after.flows after.sockets ∧
      ∀ item ∈ items,
        Upstream env dp datagram source answers after
          item := by
  have hChosen :
      dp.chosenBackend env datagram.packet source
          datagram.now =
        some ((sessions.touch i
          datagram.now).backendAt i) := by
    apply Handled.chosen_session
    · exact (fastPath_withAnswers _ _ _ _ _).mp hFast
    · exact hSelect
  cases hForwarded with
  | noFlow _ hAcquire =>
      exact acquired_unsent hInv hChosen hAcquire
        after.sessions
  | sent slot reached hAcquire =>
      rcases acquired_queueStep hAcquire hInv with
        ⟨hEnqueued, hQueue, hWire⟩
      rcases acquired_flow hAcquire hInv with
        ⟨hSlot, flow, hFlow, hClient, hBackend, hFd⟩
      refine ⟨_,
        (enqueue_queueStep
          { reached with
            sessions :=
              learnClientLongHeaderCids env.hash
                (sessions.touch i datagram.now)
                datagram.packet (.slot i)
                ((sessions.touch i
                  datagram.now).backendAt i).len
                datagram.now slot (reached.flowId slot) }
          _).of_eq hEnqueued hQueue hWire,
        ?_, ?_⟩
      · unfold forward
        dsimp only
        rw [(enqueue_frame _ _).flows,
          (enqueue_frame _ _).sockets]
        exact FlowStep.acquired datagram source answers _ _
          _ _ hChosen (Acquired.of_eq hAcquire hInv)
      · intro item hItem
        rw [filter_single_subset hItem]
        refine ⟨rfl, slot, ?_, flow, ?_, hClient, hFd, ?_⟩
        · unfold forward
          dsimp only
          rw [(enqueue_frame _ _).flows]
          exact hSlot
        · unfold forward
          dsimp only
          rw [(enqueue_frame _ _).flows]
          exact hFlow
        · exact Aimed.session i slot sessions reached hFast
            hSelect hAcquire hBackend

/- The transport side of a fresh datagram. -/
theorem fresh_transport
    (hInv : dp.flows.Inv env.hash)
    (hFast :
      (dp.withAnswers answers).fastPath env
        datagram.packet source datagram.now = none)
    (hSelect :
      selectSession env dp.config dp.sessions
        datagram.packet source datagram.now =
          (none, sessions))
    (hFresh :
      Fresh env { dp with answers, sessions }
        datagram.packet source datagram.now after) :
    ∃ items, QueueStep dp after items ∧
      FlowStep env dp (.client datagram source answers)
        after.flows after.sockets ∧
      ∀ item ∈ items,
        Upstream env dp datagram source answers after
          item := by
  have hChosenEq :
      dp.chosenBackend env datagram.packet source
          datagram.now =
        freshBackend env { dp with answers, sessions }
          datagram.packet source datagram.now :=
    Handled.chosen_fresh
      ((fastPath_withAnswers _ _ _ _ _).mp hFast) hSelect
  cases hFresh with
  | ignored =>
      exact ⟨[], (QueueStep.refl _).of_eq rfl rfl rfl,
        FlowStep.kept _, by simp⟩
  | buffered pending =>
      exact ⟨[], (QueueStep.refl _).of_eq rfl rfl rfl,
        FlowStep.kept _, by simp⟩
  | noFlow pending backend _ hChosen hAcquire =>
      exact acquired_unsent hInv (hChosenEq.trans hChosen)
        hAcquire after.sessions
  | notStored pending backend slot reached hChosen hAcquire
      sessions' status hStatus hPut =>
      exact acquired_unsent hInv (hChosenEq.trans hChosen)
        hAcquire sessions'
  | installed initial pending routed slot reached sessions'
      hSize hInitial hRoute hChosen hAcquire hPut =>
      rcases acquired_queueStep hAcquire hInv with
        ⟨hEnqueued, hQueue, hWire⟩
      rcases acquired_flow hAcquire hInv with
        ⟨hSlot, flow, hFlow, hClient, hBackend, hFd⟩
      have hQueued :=
        sendAll_queueStep
          { reached with
            sessions :=
              installRoute env sessions' datagram.packet
                routed.entry.cidKey routed.backend
                datagram.now slot (reached.flowId slot) }
          (reached.flowFd slot) routed.backend source
          routed.entry.packets
      refine ⟨_,
        QueueStep.of_eq
          ⟨hQueued.enqueued, hQueued.queue, hQueued.wire⟩
          hEnqueued hQueue hWire,
        ?_, ?_⟩
      · dsimp only
        rw [(sendAll_frame _ _ _ _ _).flows,
          (sendAll_frame _ _ _ _ _).sockets]
        exact FlowStep.acquired datagram source answers _ _
          _ _ (hChosenEq.trans hChosen)
          (Acquired.of_eq hAcquire hInv)
      · intro item hItem
        rcases List.mem_map.mp
            (List.mem_filter.mp hItem).1 with
          ⟨packet, _, hEq⟩
        subst hEq
        refine ⟨rfl, slot, ?_, flow, ?_, hClient, hFd, ?_⟩
        · dsimp only
          rw [(sendAll_frame _ _ _ _ _).flows]
          exact hSlot
        · dsimp only
          rw [(sendAll_frame _ _ _ _ _).flows]
          exact hFlow
        · exact Aimed.fresh _ (hChosenEq.trans hChosen)
            hBackend

theorem client_transport
    (datagram : Datagram)
    (source : Sockaddr)
    (answers : Answers)
    (hInv : dp.flows.Inv env.hash) :
    let after :=
      dp.step env (.client datagram source answers)
    ∃ items, QueueStep dp after items ∧
      FlowStep env dp (.client datagram source answers)
        after.flows after.sockets ∧
      ∀ item ∈ items,
        Upstream env dp datagram source answers after
          item := by
  have hHandled :=
    step_client_cases datagram source answers hInv
  generalize
    dp.step env (.client datagram source answers) = after
    at hHandled ⊢
  cases hHandled with
  | fast slot flow hCodec hShort hSlot hFlow hClient =>
      refine ⟨_,
        (enqueue_queueStep
          ((dp.withAnswers answers).setFlow slot
            { flow with lastSeen := datagram.now })
          _).of_eq rfl rfl rfl,
        ?_, ?_⟩
      · rw [(enqueue_frame _ _).flows,
          (enqueue_frame _ _).sockets]
        exact FlowStep.touched _ slot flow datagram.now
          hSlot hFlow
      · intro item hItem
        rw [filter_single_subset hItem]
        refine ⟨rfl, slot, ?_,
          { flow with lastSeen := datagram.now }, ?_,
          hClient, rfl, Aimed.fast hCodec⟩
        · rw [(enqueue_frame _ _).flows]
          exact hSlot
        · rw [(enqueue_frame _ _).flows]
          exact fill_self _ _ _
  | session i sessions _ hFast hSelect hForwarded =>
      exact forwarded_transport hInv hFast hSelect hForwarded
  | fresh sessions _ hFast hSelect hFresh =>
      exact fresh_transport hInv hFast hSelect hFresh

theorem backend_transport
    {P : SendItem → Prop}
    (slot : Nat)
    (datagram : Datagram)
    (answers : Answers) :
    let after :=
      dp.step env (.backend slot datagram answers)
    ∃ items, QueueStep dp after items ∧
      FlowStep env dp (.backend slot datagram answers)
        after.flows after.sockets ∧
      ∀ item ∈ items, item.origin = none ∨ P item := by
  rw [step_backend]
  unfold handleBackendPacket
  cases hSlot : (dp.withAnswers answers).flows.slot slot with
  | none =>
      exact ⟨[], (QueueStep.refl _).of_eq rfl rfl rfl,
        FlowStep.kept _, by simp⟩
  | some flow =>
      have hFlow := FlowTable.slot_eq_some hSlot
      refine ⟨_,
        (enqueue_queueStep _ _).of_eq rfl rfl rfl, ?_, ?_⟩
      · dsimp only
        rw [(enqueue_frame _ _).flows,
          (enqueue_frame _ _).sockets]
        exact FlowStep.touched _ slot flow datagram.now
          hFlow.1 hFlow.2
      · intro item hItem
        rw [filter_single_subset hItem]
        exact Or.inl rfl

/-
  What an event can do to flows, descriptors and queue.  An
  item is either relayed to a client, or belongs to the
  client whose datagram the event is.
-/
theorem step_transport
    (event : Event)
    (hInv : dp.flows.Inv env.hash) :
    ∃ items, QueueStep dp (dp.step env event) items ∧
      FlowStep env dp event (dp.step env event).flows
        (dp.step env event).sockets ∧
      ∀ item ∈ items,
        item.origin = none ∨
          ∃ datagram source answers,
            event = .client datagram source answers ∧
              Upstream env dp datagram source answers
                (dp.step env event) item := by
  cases event with
  | client datagram source answers =>
      rcases client_transport datagram source answers hInv
        with ⟨items, hQueue, hFlows, hItems⟩
      exact ⟨items, hQueue, hFlows, fun item hItem =>
        Or.inr ⟨datagram, source, answers, rfl,
          hItems item hItem⟩⟩
  | backend slot datagram answers =>
      exact backend_transport slot datagram answers
  | flush answers =>
      exact ⟨[],
        (flush_queueStep (dp.withAnswers answers)).of_eq rfl
          rfl rfl,
        FlowStep.kept _, by simp⟩
  | sweep now =>
      rcases FlowTable.expireLoop_spec now
          dp.config.idleTimeoutSeconds
          (min (expireScanBudget dp.flows.capacity)
            dp.flows.capacity) hInv with
        ⟨hAfter, hShrinks⟩
      exact ⟨[], (QueueStep.refl _).of_eq rfl rfl rfl,
        FlowStep.shrunk _ _ _ hAfter hShrinks, by simp⟩
  | reload file resolver =>
      rw [step_reload]
      unfold reloadFromPath
      cases hLoad : loadResolved env.hash file resolver with
      | error status =>
          exact ⟨[], QueueStep.refl _, FlowStep.kept _,
            by simp⟩
      | ok config =>
          rcases FlowTable.evictIf_spec
              (fun flow =>
                shouldEvictOnReload env.hash
                  dp.config.routes config.routes
                  flow.backend) hInv with
            ⟨hAfter, hShrinks, _⟩
          exact ⟨[], (QueueStep.refl _).of_eq rfl rfl rfl,
            FlowStep.shrunk _ _ _ hAfter hShrinks, by simp⟩

/- The datagrams that an event queues. -/
def queuedBy
    (env : Env)
    (dp : Dataplane)
    (event : Event) : List SendItem :=
  (dp.step env event).enqueued.drop dp.enqueued.length

theorem queuedBy_eq
    {event : Event}
    {items : List SendItem}
    (hStep : QueueStep dp (dp.step env event) items) :
    dp.queuedBy env event = items := by
  unfold queuedBy
  rw [hStep.enqueued, List.drop_left]

end Dataplane

end QuicSniRouter
