import QuicSniRouter.Dataplane.Limits
import QuicSniRouter.Dataplane.Neighbours
import QuicSniRouter.FlowTable.Sweeping

/-
  Idle flows over whole runs.  Whatever else happens in
  between, a flow that stays as it is past its idle time is
  gone after as many sweeps as it takes to pass all slots,
  and that is never more than 61.

  Main declarations:
    * `Dataplane.step_cursor`
    * `Dataplane.run_nears`
    * `Dataplane.Silent` and `Dataplane.run_stays`
    * `Dataplane.silent_client_closed`
-/

------------------------------------------------------------
-- The Cursor Between Sweeps
------------------------------------------------------------

namespace QuicSniRouter

open FlowTable

/- Events at which the tables are swept. -/
def Event.isSweep :
    Event → Bool
| .sweep _ => true
| _ => false

namespace Dataplane

variable {env : Env} {dp after : Dataplane}

/- The slot at which the next sweep of the flows begins. -/
def cursor
    (dp : Dataplane) : Nat :=
  dp.flows.expireCursor

theorem socket_flows
    (dp : Dataplane)
    (family : Nat) :
    (dp.socket family).2.flows = dp.flows := by
  unfold socket
  cases dp.answers.sockets with
  | nil => rfl
  | cons result results =>
      cases result with
      | opened fd =>
          dsimp only
          split
          · rfl
          · rfl
      | exhausted => rfl
      | failed => rfl

theorem flowSocketOpen_cursor
    (dp : Dataplane)
    (family : Nat) :
    (dp.flowSocketOpen env family).2.cursor = dp.cursor := by
  have hFirst := socket_flows dp family
  unfold flowSocketOpen cursor
  revert hFirst
  rcases dp.socket family with ⟨answer, opened⟩
  intro hFirst
  cases answer with
  | ok fd => exact congrArg expireCursor hFirst
  | error reason =>
      cases reason with
      | exhausted =>
          let evicted := opened.flows.evictOldest env.hash
          have hEvicted :
              evicted.2.1.expireCursor =
                dp.flows.expireCursor :=
            (evictOldest_expireCursor _).trans
              (congrArg expireCursor hFirst)
          have hSecond :=
            socket_flows (opened.withFlows evicted.2) family
          dsimp only
          split
          · revert hSecond
            rcases (opened.withFlows evicted.2).socket
              family with ⟨retry, reached⟩
            intro hSecond
            have hSame :
                reached.flows.expireCursor =
                  dp.flows.expireCursor :=
              (congrArg expireCursor hSecond).trans hEvicted
            cases retry with
            | ok fd => exact hSame
            | error _ => exact hSame
          · exact hEvicted
      | opened fd =>
          exact congrArg expireCursor hFirst
      | failed =>
          exact congrArg expireCursor hFirst

theorem flowAcquire_cursor
    (dp : Dataplane)
    (client backend : Sockaddr)
    (now : Int) :
    (dp.flowAcquire env client backend now).2.cursor =
      dp.cursor := by
  unfold flowAcquire
  cases dp.flows.get env.hash client with
  | some slot =>
      dsimp only
      cases dp.flows.flows slot with
      | some flow => rfl
      | none => rfl
  | none =>
      have hOpen :=
        @flowSocketOpen_cursor env dp backend.storage.ssFamily
      dsimp only
      revert hOpen
      rcases dp.flowSocketOpen env
        backend.storage.ssFamily with ⟨fd, opened⟩
      intro hOpen
      cases fd with
      | none => exact hOpen
      | some fd =>
          have hPut :=
            (@put_expireCursor env.hash
              opened.flows client backend fd now).trans hOpen
          dsimp only
          revert hPut
          rcases opened.flows.put env.hash client backend fd
            now with ⟨found, stored⟩
          intro hPut
          cases found with
          | none => exact hPut
          | some slot =>
              dsimp only
              split
              · exact hPut
              · exact (remove_expireCursor _ _).trans hPut

theorem cursor_kept
    (c : Nat) :
    StepKept env (fun dp => dp.cursor = c) where
  sessions := fun _ _ hSame => hSame
  pending := fun _ _ hSame => hSame
  answers := fun _ _ hSame => hSame
  flow := fun _ _ _ hSame => hSame
  acquire := fun dp client backend now hSame =>
    (flowAcquire_cursor dp client backend now).trans hSame
  enqueue := fun dp item hSame =>
    (congrArg expireCursor
      (enqueue_frame dp item).flows).trans hSame
  flush := fun _ hSame => hSame
  reload := by
    intro dp file resolver hSame
    unfold reloadFromPath
    split
    · exact hSame
    · exact (evictIf_expireCursor _ _).trans hSame

/- Only sweeps move the cursor. -/
theorem step_cursor
    {event : Event}
    (hFlows : dp.flows.Inv env.hash)
    (hOther : event.isSweep = false) :
    (dp.step env event).cursor = dp.cursor := by
  refine (cursor_kept dp.cursor).step ?_ hFlows rfl
  rintro now rfl
  cases hOther

end Dataplane

open FlowTable

open LinearProbing

namespace Dataplane

variable {env : Env} {dp : Dataplane} {s : Nat} {flow : Flow}

/- The slots that one sweep looks at. -/
def scansOf
    (capacity : Nat) : Nat :=
  min (expireScanBudget capacity) capacity

/- 61 sweeps look at every slot of the largest table. -/
theorem scans_cover
    {capacity : Nat}
    (hLe : capacity ≤ 250000) :
    capacity ≤ 61 * scansOf capacity := by
  have hBudget :
      min (max (capacity / 60) 1024) 16384 =
        expireScanBudget capacity := rfl
  have hScans :
      min (expireScanBudget capacity) capacity =
        scansOf capacity := rfl
  omega

/- A sweep past the idle time of a flow in a slot. -/
theorem sweep_nears
    {now : Int}
    (hFlows : dp.flows.Inv env.hash)
    (hFlow : dp.flows.slot s = some flow)
    (hIdle :
      dp.config.idleTimeoutSeconds ≤ now - flow.lastSeen)
    (hStays :
      (dp.step env (.sweep now)).flows.slot s = some flow) :
    dist dp.flows.capacity (dp.step env (.sweep now)).cursor
        s + scansOf dp.flows.capacity =
      dist dp.flows.capacity dp.cursor s := by
  rcases slot_eq_some hFlow with ⟨hs, hHere⟩
  have hSwept :=
    expireLoop_nears
      (scansOf dp.flows.capacity) hFlows hs hHere
      (decide_eq_true hIdle)
  rcases hSwept with hGone | hNear
  · have hStill := (slot_eq_some hStays).2
    exact absurd (hGone.symm.trans hStill)
      (Option.some_ne_none flow).symm
  · exact hNear

/- The states of a run at which a flow is where it was. -/
def Stays
    (env : Env)
    (dp : Dataplane)
    (events : List Event)
    (s : Nat)
    (flow : Flow) : Prop :=
  ∀ i ≤ events.length,
    (dp.run env (events.take i)).flows.slot s = some flow

/- Every sweep of a run comes past the idle time. -/
def Overdue
    (env : Env)
    (dp : Dataplane)
    (events : List Event)
    (flow : Flow) : Prop :=
  ∀ i now, events[i]? = some (.sweep now) →
    (dp.run env (events.take i)).config.idleTimeoutSeconds ≤
      now - flow.lastSeen

/- Sweeps bring the cursor closer, whatever is between. -/
theorem run_nears
    (events : List Event)
    (hReach : dp.Reachable env)
    (hStays : Stays env dp events s flow)
    (hOverdue : Overdue env dp events flow) :
    dist dp.flows.capacity (dp.run env events).cursor s +
        events.countP Event.isSweep *
          scansOf dp.flows.capacity =
      dist dp.flows.capacity dp.cursor s := by
  induction events generalizing dp with
  | nil => simp [run]
  | cons event events ih =>
      have hFlows := hReach.tables.flows
      have hNext : (dp.step env event).Reachable env :=
        ReachableWhere.step event hReach trivial
      have hRest :=
        ih hNext
          (fun i hi =>
            hStays (i + 1) (Nat.succ_le_succ hi))
          (fun i now hEvent => hOverdue (i + 1) now hEvent)
      rcases step_transport event hFlows with ⟨_, _, hStep, _⟩
      rw [hStep.capacity] at hRest
      have hRun :
          dp.run env (event :: events) =
            (dp.step env event).run env events := rfl
      rw [hRun]
      cases hKind : event.isSweep with
      | false =>
          rw [List.countP_cons_of_neg (by simp [hKind]),
            hRest, step_cursor hFlows hKind]
      | true =>
          cases event with
          | sweep now =>
              have hNear :=
                sweep_nears hFlows (hStays 0 (Nat.zero_le _))
                  (hOverdue 0 now rfl)
                  (hStays 1 (Nat.succ_le_succ
                    (Nat.zero_le _)))
              rw [List.countP_cons_of_pos hKind,
                Nat.succ_mul, ← hNear, ← hRest]
              omega
          | client => cases hKind
          | backend => cases hKind
          | flush => cases hKind
          | reload => cases hKind

/-
  A flow past its idle time does not outlive 61 sweeps: on
  the way it is refreshed, or it is closed.
-/
theorem run_moves
    (events : List Event)
    (hReach : dp.Reachable env)
    (hOverdue : Overdue env dp events flow)
    (hSweeps : 61 ≤ events.countP Event.isSweep) :
    ¬ Stays env dp events s flow := by
  intro hStays
  have hNear := run_nears events hReach hStays hOverdue
  have hFlows := hReach.tables.flows
  have hCapacity : dp.flows.capacity ≤ 250000 :=
    hReach.sized.flows.trans_le
      (flowCapacity_le hReach.sized.config)
  have hCover := scans_cover hCapacity
  have hHere := hStays 0 (Nat.zero_le _)
  have hDist :
      dist dp.flows.capacity dp.cursor s <
        dp.flows.capacity :=
    dist_lt hFlows.cursor (slot_eq_some hHere).1
  have hMany :=
    Nat.mul_le_mul_right (scansOf dp.flows.capacity) hSweeps
  omega

end Dataplane

end QuicSniRouter

------------------------------------------------------------
-- Silent Clients
------------------------------------------------------------

namespace QuicSniRouter

open FlowTable

open LinearProbing

namespace Dataplane

variable {env : Env} {dp : Dataplane} {client : Sockaddr}
variable {before after : FlowTable} {s : Nat}

/- No datagram from the client, and none on its flow. -/
def Silent
    (client : Sockaddr)
    (dp : Dataplane) :
    Event → Prop
| .client _ source _ => client.equals source = false
| .backend slot _ _ =>
    ∀ flow, dp.flows.slot slot = some flow →
      flow.client.equals client = false
| _ => True

/- A client's flows afterwards are those of before. -/
structure KeepsOut
    (client : Sockaddr)
    (before after : FlowTable) : Prop where
  capacity : after.capacity = before.capacity
  old :
    ∀ t flow, after.flows t = some flow →
      flow.client.equals client = true →
        before.flows t = some flow

theorem KeepsOut.refl
    (table : FlowTable) :
    KeepsOut client table table :=
  ⟨rfl, fun _ _ hFlow _ => hFlow⟩

theorem KeepsOut.of_shrinks
    {events : List FlowEvent}
    (hShrinks : FlowTable.Shrinks before after events) :
    KeepsOut client before after :=
  ⟨hShrinks.capacity,
    fun _ _ hFlow _ => hShrinks.flow hFlow⟩

theorem KeepsOut.absent
    (hKeeps : KeepsOut client before after)
    (hAbsent : before.Absent client) :
    after.Absent client := by
  intro t ht flow hFlow
  rw [hKeeps.capacity] at ht
  cases hSame : flow.client.equals client with
  | false => rfl
  | true =>
      rw [← hSame]
      exact hAbsent t ht flow (hKeeps.old t flow hFlow hSame)

/- The one flow of the client stays as it is, or goes. -/
theorem KeepsOut.flow
    {hash : Bytes → Nat}
    {flow : Flow}
    (hKeeps : KeepsOut flow.client before after)
    (hInv : before.Inv hash)
    (hFlow : before.slot s = some flow) :
    after.slot s = some flow ∨ after.Absent flow.client := by
  rcases slot_eq_some hFlow with ⟨hs, hHere⟩
  by_cases hStays : after.slot s = some flow
  · exact Or.inl hStays
  · right
    intro t ht other hOther
    rw [hKeeps.capacity] at ht
    cases hSame : other.client.equals flow.client with
    | false => rfl
    | true =>
        have hOld := hKeeps.old t other hOther hSame
        have hts : t = s :=
          hInv.clientsDistinct t ht s hs other flow hOld
            hHere hSame
        subst hts
        rw [hOld] at hHere
        cases hHere
        refine absurd ?_ hStays
        unfold slot
        rw [if_neg (by rw [hKeeps.capacity]; omega)]
        exact hOther

theorem step_keepsOut
    {event : Event}
    (hTables : Tables env dp)
    (hSilent : Silent client dp event) :
    KeepsOut client dp.flows (dp.step env event).flows := by
  cases event with
  | client datagram source answers =>
      have hOther : client.equals source = false := hSilent
      have hSpares :=
        @client_sparesFlows env (dp.withAnswers answers)
          datagram.packet source datagram.now
          ⟨hTables.sessions, hTables.flows⟩
      refine ⟨hSpares.capacity, ?_⟩
      intro t flow hFlow hClient
      rcases hSpares.fresh t flow hFlow with hOld | hSource
      · exact hOld
      · have hSame :=
          Sockaddr.equals_trans
            (Sockaddr.equals_symm hClient) hSource
        rw [hOther] at hSame
        cases hSame
  | backend slot datagram answers =>
      dsimp only [step]
      unfold handleBackendPacket
      cases hSlot : (dp.withAnswers answers).flows.slot
          slot with
      | none => exact KeepsOut.refl _
      | some flow =>
          have hOther := hSilent flow hSlot
          dsimp only
          rw [(enqueue_frame _ _).flows]
          refine ⟨rfl, ?_⟩
          intro t other hFilled hClient
          rcases fill_eq_some hFilled with
            ⟨_, hEq⟩ | ⟨_, hOld⟩
          · rw [hEq] at hClient
            rw [hOther] at hClient
            cases hClient
          · exact hOld
  | flush answers => exact KeepsOut.refl _
  | sweep now =>
      exact KeepsOut.of_shrinks
        (expireLoop_spec now dp.config.idleTimeoutSeconds
          (scansOf dp.flows.capacity) hTables.flows).2
  | reload file resolver =>
      dsimp only [step]
      unfold reloadFromPath
      cases loadResolved env.hash file resolver with
      | error status => exact KeepsOut.refl _
      | ok config =>
          exact KeepsOut.of_shrinks
            (evictIf_spec _ hTables.flows).2.1

/- The client is silent in each state of a run. -/
def SilentRun
    (env : Env)
    (dp : Dataplane)
    (events : List Event)
    (client : Sockaddr) : Prop :=
  ∀ i event, events[i]? = some event →
    Silent client (dp.run env (events.take i)) event

/- Once a silent client has no flow, it stays that way. -/
theorem run_absent
    (events : List Event)
    (hReach : dp.Reachable env)
    (hSilent : SilentRun env dp events client)
    (hAbsent : dp.flows.Absent client) :
    (dp.run env events).flows.Absent client := by
  induction events generalizing dp with
  | nil => exact hAbsent
  | cons event events ih =>
      have hKeeps :=
        step_keepsOut hReach.tables (hSilent 0 event rfl)
      exact ih (ReachableWhere.step event hReach trivial)
        (fun i later hLater => hSilent (i + 1) later hLater)
        (hKeeps.absent hAbsent)

/- A silent client's flow stays throughout, or is gone. -/
theorem run_stays
    {flow : Flow}
    (events : List Event)
    (hReach : dp.Reachable env)
    (hFlow : dp.flows.slot s = some flow)
    (hSilent : SilentRun env dp events flow.client) :
    Stays env dp events s flow ∨
      (dp.run env events).flows.Absent flow.client := by
  induction events generalizing dp with
  | nil =>
      left
      intro i hi
      rw [Nat.le_zero.mp hi]
      exact hFlow
  | cons event events ih =>
      have hNext : (dp.step env event).Reachable env :=
        ReachableWhere.step event hReach trivial
      have hLater :
          SilentRun env (dp.step env event) events
            flow.client :=
        fun i later hLater => hSilent (i + 1) later hLater
      have hKeeps :=
        step_keepsOut hReach.tables (hSilent 0 event rfl)
      rcases hKeeps.flow hReach.tables.flows hFlow with
        hStays | hGone
      · rcases ih hNext hStays hLater with hRest | hRest
        · left
          intro i hi
          cases i with
          | zero => exact hFlow
          | succ i => exact hRest i (Nat.le_of_succ_le_succ hi)
        · exact Or.inr hRest
      · exact Or.inr (run_absent events hNext hLater hGone)

/-
  A client whose flow has been idle for too long, and that
  stays silent with its backend, has no flow any more after
  61 sweeps, with any traffic of others and any reloads in
  between.
-/
theorem silent_client_closed
    {s : Nat}
    {flow : Flow}
    (events : List Event)
    (hReach : dp.Reachable env)
    (hFlow : dp.flows.slot s = some flow)
    (hSilent : SilentRun env dp events flow.client)
    (hOverdue : Overdue env dp events flow)
    (hSweeps : 61 ≤ events.countP Event.isSweep) :
    (dp.run env events).flows.Absent flow.client := by
  rcases run_stays events hReach hFlow hSilent with
    hStays | hGone
  · exact absurd hStays
      (run_moves events hReach hOverdue hSweeps)
  · exact hGone

end Dataplane

open FlowTable

namespace Dataplane

/- Sweeps leave the configuration alone. -/
theorem sweeps_config
    {env : Env}
    (now : Int)
    (n : Nat)
    (dp : Dataplane) :
    (dp.run env (List.replicate n (.sweep now))).config =
      dp.config := by
  induction n generalizing dp with
  | zero => rfl
  | succ n ih => exact ih (dp.step env (.sweep now))

end Dataplane

namespace Deployment

open Dataplane

/- The one client of a router is idle and stays silent. -/
theorem idle_client_closed :
    ∃ flow, oneClient.flows.slot 0 = some flow ∧
      (oneClient.run env
        (List.replicate 61 (.sweep 1000))).flows.Absent
          flow.client := by
  have hReach : Reachable env oneClient :=
    reachable_okValue _ _ _
  have hIdle :
      (oneClient.flows.slot 0).map
          (fun flow =>
            decide ((oneClient.config.idleTimeoutSeconds :
              Int) ≤ 1000 - flow.lastSeen)) =
        some true := by
    decide +kernel
  rcases Option.map_eq_some_iff.mp hIdle with
    ⟨flow, hFlow, hLate⟩
  have hSweep :
      ∀ (i : Nat) (event : Event),
        (List.replicate 61 (Event.sweep 1000))[i]? =
            some event →
          event = Event.sweep 1000 := by
    intro i event hEvent
    exact List.eq_of_mem_replicate
      (List.mem_of_getElem? hEvent)
  refine ⟨flow, hFlow,
    silent_client_closed _ hReach hFlow ?_ ?_ ?_⟩
  · intro i event hEvent
    rw [hSweep i event hEvent]
    trivial
  · intro i now hEvent
    have hNow := Event.sweep.inj (hSweep i _ hEvent)
    rw [List.take_replicate, sweeps_config, hNow]
    exact of_decide_eq_true hLate
  · decide

end Deployment

end QuicSniRouter
