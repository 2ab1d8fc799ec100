import QuicSniRouter.Dataplane.Transport

/-
  Facts that every step keeps, and the send queue over whole
  runs.  A fact about the queue and its two logs that
  queueing and flushing keep holds in every reachable state;
  so the queue never outgrows its array, and datagrams leave
  in the order in which they were queued.

  Main declarations:
    * `Dataplane.flowAcquire_amid`
    * `Dataplane.StepKept` and `Dataplane.StepKept.step`
    * `Dataplane.ReachableWhere.fitsQueue`
    * `Dataplane.ReachableWhere.inOrder`
-/

------------------------------------------------------------
-- Acquiring A Flow
------------------------------------------------------------

namespace QuicSniRouter

namespace Dataplane

variable (env : Env) (dp rest : Dataplane) {now : Int}
variable {packet : Bytes} {source : Sockaddr}

/- Flows and sockets of one dataplane, all else of another. -/
def amid
    (dp rest : Dataplane) : Dataplane :=
  { rest with
    flows := dp.flows
    sockets := dp.sockets
    answers := dp.answers }

/- Without other items nothing is added. -/
theorem amid_self :
    dp.amid dp = dp :=
  rfl

/- A socket is opened whatever is queued. -/
theorem socket_amid
    (family : Nat) :
    (dp.amid rest).socket family =
      ((dp.socket family).1,
        (dp.socket family).2.amid rest) := by
  unfold socket
  have hAnswers : (dp.amid rest).answers = dp.answers := rfl
  have hSockets : (dp.amid rest).sockets = dp.sockets := rfl
  rw [hAnswers]
  cases dp.answers.sockets with
  | nil => rfl
  | cons result results =>
      cases result with
      | opened fd =>
          dsimp only
          rw [hSockets]
          split <;> rfl
      | exhausted => rfl
      | failed => rfl

/- Its setup does not look at the queue either. -/
theorem flowSocketOpen_amid
    (family : Nat) :
    (dp.amid rest).flowSocketOpen env family =
      ((dp.flowSocketOpen env family).1,
        (dp.flowSocketOpen env family).2.amid rest) := by
  unfold flowSocketOpen
  rw [socket_amid]
  rcases dp.socket family with ⟨result, opened⟩
  cases result with
  | ok fd => rfl
  | error failure =>
      cases failure with
      | opened fd => rfl
      | failed => rfl
      | exhausted =>
          have hFlows :
              (opened.amid rest).flows = opened.flows := rfl
          have hEvict :
              (opened.amid rest).withFlows
                  (opened.flows.evictOldest env.hash).2 =
                (opened.withFlows
                  (opened.flows.evictOldest
                    env.hash).2).amid rest :=
            rfl
          dsimp only
          rw [hFlows, hEvict]
          split
          · rw [socket_amid]
            rcases (opened.withFlows
              (opened.flows.evictOldest
                env.hash).2).socket family with
              ⟨again, retried⟩
            cases again with
            | ok fd => rfl
            | error failure => rfl
          · rfl

/- Acquiring a flow does not depend on the queue. -/
theorem flowAcquire_amid
    (client backend : Sockaddr)
    (now : Int) :
    (dp.amid rest).flowAcquire env client backend now =
      ((dp.flowAcquire env client backend now).1,
        (dp.flowAcquire env client backend now).2.amid
          rest) := by
  unfold flowAcquire
  have hFlows : (dp.amid rest).flows = dp.flows := rfl
  rw [hFlows]
  cases dp.flows.get env.hash client with
  | some slot =>
      dsimp only
      cases dp.flows.flows slot with
      | some flow => rfl
      | none => rfl
  | none =>
      dsimp only
      rw [flowSocketOpen_amid]
      rcases dp.flowSocketOpen env
        backend.storage.ssFamily with ⟨result, opened⟩
      cases result with
      | none => rfl
      | some fd =>
          have hOpened :
              (opened.amid rest).flows = opened.flows := rfl
          dsimp only
          rw [hOpened]
          rcases opened.flows.put env.hash client backend fd
            now with ⟨found, stored⟩
          cases found with
          | none => rfl
          | some slot =>
              have hAdd :
                  ((opened.amid rest).withFlows
                      stored).answers =
                    (opened.withFlows stored).answers :=
                rfl
              dsimp only
              rw [hAdd]
              split <;> rfl

/- It leaves the sessions and the queue alone. -/
theorem flowAcquire_frame
    (client backend : Sockaddr)
    (now : Int) :
    FlowFrame dp
      (dp.flowAcquire env client backend now).2 := by
  have hOwn := dp.flowAcquire_amid env dp client backend now
  rw [amid_self] at hOwn
  rw [hOwn]
  exact ⟨rfl, rfl, rfl, rfl, rfl, rfl, rfl⟩

------------------------------------------------------------
-- Facts That Steps Keep
------------------------------------------------------------

variable {env : Env} {fact : Dataplane → Prop}
variable {dp after : Dataplane}

/- A fact that each part of a step but sweeps keeps. -/
structure StepKept
    (env : Env)
    (fact : Dataplane → Prop) : Prop where
  sessions :
    ∀ dp sessions, fact dp → fact { dp with sessions }
  pending :
    ∀ dp pending, fact dp → fact { dp with pending }
  answers :
    ∀ dp answers, fact dp → fact (dp.withAnswers answers)
  flow :
    ∀ dp slot flow, fact dp → fact (dp.setFlow slot flow)
  acquire :
    ∀ dp client backend now, fact dp →
      fact (dp.flowAcquire env client backend now).2
  enqueue :
    ∀ dp item, fact dp → fact (dp.enqueue item)
  flush : ∀ dp, fact dp → fact dp.flush
  reload :
    ∀ dp file resolver, fact dp →
      fact (dp.reloadFromPath env file resolver)

/- Acquiring a flow keeps such a fact. -/
theorem StepKept.acquired
    {client backend : Sockaddr}
    {slot : Option Nat}
    (hKept : StepKept env fact)
    (hAcquire :
      dp.flowAcquire env client backend now = (slot, after))
    (hFact : fact dp) :
    fact after := by
  have hReached := hKept.acquire dp client backend now hFact
  rw [hAcquire] at hReached
  exact hReached

/- Queueing packets keeps it. -/
theorem StepKept.enqueueAll
    (hKept : StepKept env fact)
    (fd : Int)
    (dest source : Sockaddr)
    (packets : List Bytes)
    (hFact : fact dp) :
    fact (dp.enqueueAll fd dest source packets) := by
  induction packets generalizing dp with
  | nil => exact hFact
  | cons packet packets ih =>
      exact ih (hKept.enqueue dp _ hFact)

/- The path over a session keeps it. -/
theorem StepKept.forwarded
    {i : Nat}
    (hKept : StepKept env fact)
    (hForwarded : Forwarded env dp i packet source now after)
    (hFact : fact dp) :
    fact after := by
  have hTouched :=
    hKept.sessions dp (dp.sessions.touch i now) hFact
  cases hForwarded with
  | noFlow _ hAcquire =>
      exact hKept.acquired hAcquire hTouched
  | sent slot reached hAcquire =>
      exact hKept.enqueue _ _
        (hKept.sessions reached _
          (hKept.acquired hAcquire hTouched))

/- The path of an Initial keeps it. -/
theorem StepKept.fresh
    (hKept : StepKept env fact)
    (hFresh : Fresh env dp packet source now after)
    (hFact : fact dp) :
    fact after := by
  have hPending :
      ∀ pending, fact { dp with pending } :=
    fun _ => hKept.pending dp _ hFact
  cases hFresh with
  | ignored => exact hFact
  | buffered pending => exact hPending pending
  | noFlow pending backend _ hChosen hAcquire =>
      exact hKept.acquired hAcquire (hPending pending)
  | notStored pending backend slot reached hChosen hAcquire
      sessions status hStatus hPut =>
      exact hKept.sessions reached _
        (hKept.acquired hAcquire (hPending pending))
  | installed initial pending routed slot reached sessions
      hSize hInitial hRoute hChosen hAcquire hPut =>
      have hReached :=
        hKept.acquired hAcquire (hPending pending)
      exact hKept.pending _ _
        (hKept.flush _
          (hKept.enqueueAll _ _ _ _
            (hKept.sessions reached _ hReached)))

/- A step keeps it, if sweeps do. -/
theorem StepKept.step
    {event : Event}
    (hKept : StepKept env fact)
    (hSweep :
      ∀ now, event = .sweep now → fact (dp.step env event))
    (hFlows : dp.flows.Inv env.hash)
    (hFact : fact dp) :
    fact (dp.step env event) := by
  cases event with
  | client datagram source answers =>
      have hAnswers := hKept.answers dp answers hFact
      have hHandled :=
        step_client_cases datagram source answers hFlows
      generalize
        dp.step env (.client datagram source answers) = after
        at hHandled ⊢
      cases hHandled with
      | fast slot flow =>
          exact hKept.enqueue _ _
            (hKept.flow _ slot _ hAnswers)
      | session i sessions _ hFast hSelect hForwarded =>
          exact hKept.forwarded hForwarded
            (hKept.sessions _ _ hAnswers)
      | fresh sessions _ hFast hSelect hFresh =>
          exact hKept.fresh hFresh
            (hKept.sessions _ _ hAnswers)
  | backend slot datagram answers =>
      have hAnswers := hKept.answers dp answers hFact
      dsimp only [Dataplane.step]
      unfold handleBackendPacket
      split
      · exact hAnswers
      · exact hKept.enqueue _ _
          (hKept.sessions _ _ (hKept.flow _ slot _ hAnswers))
  | flush answers =>
      exact hKept.flush _ (hKept.answers dp answers hFact)
  | sweep now => exact hSweep now rfl
  | reload file resolver =>
      exact hKept.reload dp file resolver hFact

/- A fact of the queue and its two logs. -/
structure QueueKept
    (fact : Dataplane → Prop) : Prop where
  same :
    ∀ before after : Dataplane, after.queue = before.queue →
      after.enqueued = before.enqueued →
      after.wire = before.wire →
      fact before → fact after
  enqueue :
    ∀ dp item, fact dp → fact (dp.enqueue item)
  flush : ∀ dp, fact dp → fact dp.flush

/- Facts about the queue are such facts. -/
theorem QueueKept.stepKept
    (hKept : QueueKept fact) :
    StepKept env fact where
  sessions := fun dp _ => hKept.same dp _ rfl rfl rfl
  pending := fun dp _ => hKept.same dp _ rfl rfl rfl
  answers := fun dp _ => hKept.same dp _ rfl rfl rfl
  flow := fun dp _ _ => hKept.same dp _ rfl rfl rfl
  acquire := fun dp client backend now =>
    have hFrame := dp.flowAcquire_frame env client backend now
    hKept.same dp _ hFrame.queue hFrame.enqueued hFrame.wire
  enqueue := hKept.enqueue
  flush := hKept.flush
  reload := by
    intro dp file resolver hFact
    unfold reloadFromPath
    split
    · exact hFact
    · exact hKept.same dp _ rfl rfl rfl hFact

/- It holds in each state that is reached. -/
theorem ReachableWhere.queueKept
    {allowed : Dataplane → Event → Prop}
    (hReach : ReachableWhere env allowed dp)
    (hKept : QueueKept fact)
    (hStart : ∀ dp, Starts env dp → fact dp) :
    fact dp := by
  induction hReach with
  | start hStarts => exact hStart _ hStarts
  | @step dp event hReach _ ih =>
      refine hKept.stepKept.step ?_ hReach.tables.flows ih
      rintro now rfl
      exact hKept.same dp _ rfl rfl rfl ih

variable {dp : Dataplane} {allowed : Dataplane → Event → Prop}

/- No more is queued than one batch. -/
def FitsQueue
    (dp : Dataplane) : Prop :=
  dp.queue.length ≤ udpBatchSize

/- Queueing and flushing keep the bound. -/
theorem fitsQueue_kept :
    QueueKept FitsQueue where
  same := by
    intro before after hQueue _ _ hFits
    unfold FitsQueue
    rw [hQueue]
    exact hFits
  enqueue := by
    intro dp item hFits
    unfold enqueue FitsQueue
    split
    · exact hFits
    · dsimp only
      split
      · have hOne :
            (dp.flush.queue ++ [item]).length = 1 := rfl
        rw [hOne]
        decide
      · rename_i hRoom
        rw [List.length_append, List.length_singleton]
        omega
  flush := fun _ _ => Nat.zero_le _

/- A reachable queue fits into one batch. -/
theorem ReachableWhere.fitsQueue
    (hReach : ReachableWhere env allowed dp) :
    dp.FitsQueue := by
  refine hReach.queueKept fitsQueue_kept ?_
  intro dp hStarts
  unfold FitsQueue
  rw [hStarts.started.queue]
  exact Nat.zero_le _

end Dataplane

/- Dropped datagrams leave the others in their order. -/
theorem sendRun_sublist
    (results : List SendResult)
    (run : List SendItem) :
    (sendRun results run).1.Sublist run := by
  induction results generalizing run with
  | nil =>
      cases run with
      | nil => exact List.Sublist.refl _
      | cons item items => exact List.nil_sublist _
  | cons result results ih =>
      cases run with
      | nil => exact List.Sublist.refl _
      | cons item items =>
          cases result with
          | interrupted => exact ih (item :: items)
          | failed => exact List.nil_sublist _
          | sent n =>
              unfold sendRun
              split
              · exact List.nil_sublist _
              · have hBoth :=
                  (List.Sublist.refl
                    ((item :: items).take n)).append
                    (ih ((item :: items).drop n))
                rw [List.take_append_drop] at hBoth
                exact hBoth

/- What is sent comes in the order of the queue. -/
theorem sendRuns_sublist
    (fuel : Nat)
    (results : List SendResult)
    (items : List SendItem) :
    (sendRuns fuel results items).1.Sublist items := by
  induction fuel generalizing results items with
  | zero => exact List.nil_sublist _
  | succ fuel ih =>
      cases items with
      | nil => exact List.Sublist.refl _
      | cons item items =>
          let sameFd :=
            fun other : SendItem => other.fd == item.fd
          let first :=
            sendRun results (item :: items.takeWhile sameFd)
          have hBoth :=
            (sendRun_sublist results
              (item :: items.takeWhile sameFd)).append
              (ih first.2 (items.dropWhile sameFd))
          rw [List.cons_append,
            List.takeWhile_append_dropWhile] at hBoth
          exact hBoth

namespace Dataplane

variable {env : Env} {dp : Dataplane}
variable {allowed : Dataplane → Event → Prop}

/- What has been sent, and then what is queued. -/
def outgoing
    (dp : Dataplane) : List SendItem :=
  dp.wire.map Transmission.item ++ dp.queue

/- What goes out keeps the order of queueing. -/
def InOrder
    (dp : Dataplane) : Prop :=
  dp.outgoing.Sublist dp.enqueued

/- A flush can lose items, not exchange them. -/
theorem flush_outgoing
    (dp : Dataplane) :
    dp.flush.outgoing.Sublist dp.outgoing := by
  have hSent :=
    sendRuns_sublist dp.queue.length dp.answers.sends dp.queue
  have hItems :
      dp.flush.outgoing =
        dp.wire.map Transmission.item ++
          (sendRuns dp.queue.length dp.answers.sends
            dp.queue).1 := by
    unfold outgoing flush
    simp [Function.comp_def]
  rw [hItems]
  exact (List.Sublist.refl _).append hSent

/- Queueing and flushing keep the order. -/
theorem inOrder_kept :
    QueueKept InOrder where
  same := by
    intro before after hQueue hEnqueued hWire hOrder
    unfold InOrder outgoing
    rw [hQueue, hEnqueued, hWire]
    exact hOrder
  enqueue := by
    intro dp item hOrder
    have hAdd :
        ∀ mid : Dataplane, mid.InOrder →
          InOrder
            { mid with
              queue := mid.queue ++ [item]
              enqueued := mid.enqueued ++ [item] } := by
      intro mid hMid
      unfold InOrder outgoing
      rw [← List.append_assoc]
      exact hMid.append (List.Sublist.refl _)
    unfold enqueue
    split
    · exact hOrder
    · dsimp only
      split
      · exact hAdd dp.flush ((flush_outgoing dp).trans hOrder)
      · exact hAdd dp hOrder
  flush := fun dp hOrder =>
    (flush_outgoing dp).trans hOrder

/- In a reachable state nothing is out of order. -/
theorem ReachableWhere.inOrder
    (hReach : ReachableWhere env allowed dp) :
    dp.InOrder := by
  refine hReach.queueKept inOrder_kept ?_
  intro dp hStarts
  have hStarted := hStarts.started
  unfold InOrder outgoing
  rw [hStarted.queue, hStarted.wire]
  exact List.nil_sublist _

end Dataplane

end QuicSniRouter
