import QuicSniRouter.Dataplane.FreshInitial
import QuicSniRouter.Dataplane.Reload

/-
  Where traffic can go at all.  Backend addresses come from
  the routes and are copied between flows and sessions; as
  long as the selected entry survives the insertion of its
  aliases, every copy is the address of some current route.

  Main declarations:
    * `Dataplane.Contained`
    * `Dataplane.Contained.chosen`
    * `Dataplane.backends_contained`
-/

------------------------------------------------------------
-- Contained Session Tables
------------------------------------------------------------

namespace QuicSniRouter

open SessionTable

namespace Dataplane

variable {i : Nat} {config : Config} {packet : Bytes}
variable {source : Sockaddr} {now : Int}

/- An address that a put accepts and some route has. -/
def Configured
    (routes : RouteTable)
    (backend : Sockaddr) : Prop :=
  backend.valid = true ∧ routes.Provides backend

/- A well-formed table with configured backends only. -/
structure SessionsContained
    (hash : Bytes → Nat)
    (routes : RouteTable)
    (sessions : SessionTable) : Prop where
  inv : sessions.Inv hash
  backends : sessions.Backends (Configured routes)

variable {env : Env} {hash : Bytes → Nat}
variable {routes : RouteTable} {sessions after : SessionTable}
variable {backend : Sockaddr}

theorem SessionsContained.inherits
    (hContained : SessionsContained hash routes sessions)
    (hInv : after.Inv hash)
    (hInherits : SessionTable.Inherits sessions after) :
    SessionsContained hash routes after :=
  ⟨hInv, hInherits.backends hContained.backends⟩

/- A put of a route's address, passed as a copy. -/
theorem SessionsContained.put
    (args : PutArgs)
    (hContained : SessionsContained hash routes sessions)
    (hRef : args.backendAddr = .addr backend.storage)
    (hLen : args.backendAddrLen = backend.len)
    (hProvides : routes.Provides backend) :
    SessionsContained hash routes
      (putInternal hash 2 sessions args).2 := by
  have hBackend :
      ∀ table : SessionTable,
        table.backendOf args = backend := by
    intro table
    unfold backendOf
    rw [hRef, hLen]
    rfl
  refine ⟨putInternal_inv hash _ hContained.inv,
    putInternal_backends args hContained.inv ?_
      hContained.backends⟩
  intro hAccepts
  have hValid := hAccepts.2.2
  rw [hBackend] at hValid ⊢
  exact ⟨hValid, hProvides⟩

theorem SessionsContained.get
    {key : SessionKey}
    (hContained : SessionsContained hash routes sessions)
    (hGet : sessions.get hash key = some i) :
    Configured routes (sessions.backendAt i) :=
  hContained.backends.get hContained.inv hGet

/- A decoded route is a configured one. -/
theorem encodedRoute_mem
    {crypto : Crypto}
    {route : Route}
    (hRoute :
      encodedRoute crypto config packet = some route) :
    route ∈ config.routes.routes := by
  unfold encodedRoute at hRoute
  split at hRoute
  · cases hRoute
  · split at hRoute
    · cases hRoute
    · rcases Option.filter_eq_some_iff.mp hRoute with
        ⟨hLookup, _⟩
      exact RouteTable.lookupByServerId_mem hLookup

/- The selection keeps configured backends. -/
theorem SessionsContained.select
    {config : Config}
    (packet : Bytes)
    (source : Sockaddr)
    (now : Int)
    (hContained :
      SessionsContained env.hash config.routes sessions)
    (hResolved : config.routes.Resolved env.hash) :
    SessionsContained env.hash config.routes
      (selectSession env config sessions packet source
        now).2 :=
  selectSession_induction
    (fun _ _ h hRoute =>
      h.put _ rfl rfl
        (hResolved.provides (encodedRoute_mem hRoute)))
    (fun _ _ _ h hGet => h.put _ rfl rfl (h.get hGet).2)
    hContained

theorem SessionsContained.learnClient
    (packet : Bytes)
    (now : Int)
    (ownerSlot ownerFlowId : Nat)
    (hContained : SessionsContained hash routes sessions)
    (hProvides : routes.Provides backend) :
    SessionsContained hash routes
      (learnClientLongHeaderCids hash sessions packet
        (.addr backend.storage) backend.len now ownerSlot
        ownerFlowId) :=
  @learnClientLongHeaderCids_induction packet now hash
    (SessionsContained hash routes) (.addr backend.storage)
    backend.len ownerSlot ownerFlowId
    (fun _ _ h _ => h.put _ rfl rfl hProvides) sessions
    hContained

theorem SessionsContained.learnBackend
    (packet : Bytes)
    (now : Int)
    (ownerSlot ownerFlowId : Nat)
    (hContained : SessionsContained hash routes sessions)
    (hProvides : routes.Provides backend) :
    SessionsContained hash routes
      (learnBackendScid hash sessions packet
        (.addr backend.storage) backend.len now ownerSlot
        ownerFlowId) :=
  @learnBackendScid_induction packet now hash
    (SessionsContained hash routes) (.addr backend.storage)
    backend.len ownerSlot ownerFlowId
    (fun _ _ h _ => h.put _ rfl rfl hProvides) sessions
    hContained

theorem SessionsContained.installRoute
    (packet : Bytes)
    (cidKey : SessionKey)
    (now : Int)
    (slot flowId : Nat)
    (hContained : SessionsContained env.hash routes sessions)
    (hProvides : routes.Provides backend) :
    SessionsContained env.hash routes
      (installRoute env sessions packet cidKey backend now
        slot flowId) := by
  have hAlias :
      SessionsContained env.hash routes
        (putAlias env.hash sessions cidKey
          (.addr backend.storage) backend.len now slot
          flowId) :=
    @putAlias_induction now env.hash
      (SessionsContained env.hash routes) _ _ _ _ sessions
      cidKey (hContained.put _ rfl rfl hProvides) hContained
  exact hAlias.learnClient packet now slot flowId hProvides

------------------------------------------------------------
-- Contained States
------------------------------------------------------------

open LinearProbing

/- Every live flow is aimed at a route's address. -/
def FlowsContained
    (routes : RouteTable)
    (flows : FlowTable) : Prop :=
  ∀ slot < flows.capacity, ∀ flow,
    flows.flows slot = some flow →
      routes.Provides flow.backend

/- Sessions and flows have addresses of current routes. -/
structure Contained
    (env : Env)
    (dp : Dataplane) : Prop where
  routes : dp.config.routes.Resolved env.hash
  sessions :
    SessionsContained env.hash dp.config.routes dp.sessions
  flows : FlowsContained dp.config.routes dp.flows

variable {env : Env} {dp : Dataplane}

theorem freshBackend_provided
    (hResolved : dp.config.routes.Resolved env.hash)
    (hFresh :
      dp.freshBackend env packet source now = some backend) :
    dp.config.routes.Provides backend := by
  unfold freshBackend at hFresh
  split at hFresh
  · cases hFresh
  · split at hFresh
    · cases hFresh
    · split at hFresh
      · cases hFresh
      · rename_i routed hRoute
        cases hFresh
        rcases routeInitialDatagram_ok (Prod.ext rfl hRoute)
          with ⟨_, route, _, hLookup, hBackend⟩
        rw [hBackend]
        exact hResolved.provides
          (RouteTable.lookup_mem hLookup)

/- The backend chosen for a datagram is configured. -/
theorem Contained.chosen
    (hContained : Contained env dp)
    (hChosen :
      dp.chosenBackend env packet source now = some backend) :
    dp.config.routes.Provides backend := by
  unfold chosenBackend at hChosen
  split at hChosen
  · cases hChosen
  · split at hChosen
    · rename_i i sessions hSelect
      cases hChosen
      have hSelected :=
        hContained.sessions.select packet source now
          hContained.routes
      rw [hSelect] at hSelected
      rw [touch_backendAt]
      rcases selectSession_get hSelect with
        ⟨_, hGet⟩ | ⟨initial, _, hInitial⟩
      · exact (hSelected.get hGet).2
      · rcases selectInitial_get hInitial with ⟨key, hGet⟩
        exact (hSelected.get hGet).2
    · exact freshBackend_provided hContained.routes hChosen

/- What forwarding along a session leaves in the table. -/
theorem Forwarded.sessionsContained
    {after : Dataplane}
    (hForwarded : Forwarded env dp i packet source now after)
    (hFlows : dp.flows.Inv env.hash)
    (hContained :
      SessionsContained env.hash dp.config.routes dp.sessions)
    (hSlot :
      dp.config.routes.Provides (dp.sessions.backendAt i))
    (hi : i < (dp.sessions.touch i now).capacity)
    (hCalm :
      (dp.sessions.touch i now).Undisturbed env.hash i
        (aliasKeys packet)) :
    SessionsContained env.hash dp.config.routes
      after.sessions := by
  have hTouched :
      SessionsContained env.hash dp.config.routes
        (dp.sessions.touch i now) :=
    hContained.inherits
      (touch_inv env.hash i now hContained.inv)
      (touch_inherits _ i now)
  cases hForwarded with
  | noFlow _ hAcquire =>
      have hAcquired := Acquired.of_eq hAcquire hFlows
      rw [hAcquired.frame.sessions]
      exact hTouched
  | sent slot reached hAcquire =>
      unfold forward
      dsimp only
      rw [(enqueue_frame _ _).sessions]
      dsimp only
      rw [learnClientLongHeaderCids_copied now slot
        (reached.flowId slot) hTouched.inv hi hCalm]
      apply hTouched.learnClient
      rw [touch_backendAt]
      exact hSlot

theorem Fresh.sessionsContained
    {after : Dataplane}
    (hFresh : Fresh env dp packet source now after)
    (hFlows : dp.flows.Inv env.hash)
    (hResolved : dp.config.routes.Resolved env.hash)
    (hContained :
      SessionsContained env.hash dp.config.routes
        dp.sessions) :
    SessionsContained env.hash dp.config.routes
      after.sessions := by
  cases hFresh with
  | ignored => exact hContained
  | buffered pending => exact hContained
  | noFlow pending backend _ hChosen hAcquire =>
      have hAcquired := Acquired.of_eq hAcquire hFlows
      rw [hAcquired.frame.sessions]
      exact hContained
  | notStored pending backend slot reached hChosen hAcquire
      sessions status hStatus hPut =>
      have hStored :=
        hContained.put
          (aliasArgs (SessionKey.tupleKey source)
            (.addr backend.storage) backend.len now slot
            (reached.flowId slot))
          rfl rfl (freshBackend_provided hResolved hChosen)
      have hAcquired := Acquired.of_eq hAcquire hFlows
      rw [hAcquired.frame.sessions] at hPut
      rw [hPut] at hStored
      exact hStored
  | installed initial pending routed slot reached sessions
      hSize hInitial hRoute hChosen hAcquire hPut =>
      have hProvides :=
        freshBackend_provided hResolved hChosen
      have hStored :=
        hContained.put
          (aliasArgs (SessionKey.tupleKey source)
            (.addr routed.backend.storage)
            routed.backend.len now slot
            (reached.flowId slot))
          rfl rfl hProvides
      have hAcquired := Acquired.of_eq hAcquire hFlows
      rw [hAcquired.frame.sessions] at hPut
      rw [hPut] at hStored
      dsimp only
      rw [(sendAll_frame _ _ _ _ _).sessions]
      exact hStored.installRoute packet _ now slot _ hProvides

theorem client_sessionsContained
    (datagram : Datagram)
    (source : Sockaddr)
    (answers : Answers)
    (hFlows : dp.flows.Inv env.hash)
    (hContained : Contained env dp)
    (hKept :
      KeepsSelection env dp
        (.client datagram source answers)) :
    SessionsContained env.hash dp.config.routes
      (dp.step env
        (.client datagram source answers)).sessions := by
  have hHandled :=
    step_client_cases datagram source answers hFlows
  generalize
    dp.step env (.client datagram source answers) = after
    at hHandled ⊢
  have hSelected :=
    @SessionsContained.select env
      (dp.withAnswers answers).sessions
      (dp.withAnswers answers).config datagram.packet source
      datagram.now hContained.sessions hContained.routes
  cases hHandled with
  | fast slot flow hCodec hShort hSlot hFlow hClient =>
      rw [(enqueue_frame _ _).sessions]
      exact hContained.sessions
  | session i sessions _ hFast hSelect hForwarded =>
      rw [hSelect] at hSelected
      have hSlot :
          dp.config.routes.Provides
            (sessions.backendAt i) := by
        have hChosen :=
          hContained.chosen
            (Handled.chosen_session
              ((fastPath_withAnswers _ _ _ _ _).mp hFast)
              hSelect)
        rw [touch_backendAt] at hChosen
        exact hChosen
      rcases hKept.selected hContained.sessions.inv hFast
          hSelect with
        ⟨_, hi, hCalm⟩
      exact hForwarded.sessionsContained hFlows hSelected
        hSlot hi hCalm
  | fresh sessions _ hFast hSelect hFresh =>
      rw [hSelect] at hSelected
      exact hFresh.sessionsContained hFlows
        hContained.routes hSelected

theorem backend_sessionsContained
    (slot : Nat)
    (datagram : Datagram)
    (answers : Answers)
    (hContained : Contained env dp) :
    SessionsContained env.hash dp.config.routes
      (dp.step env
        (.backend slot datagram answers)).sessions := by
  rw [step_backend]
  unfold handleBackendPacket
  cases hSlot : (dp.withAnswers answers).flows.slot slot with
  | none => exact hContained.sessions
  | some flow =>
      rcases FlowTable.slot_eq_some hSlot with ⟨hLt, hFlow⟩
      dsimp only
      rw [(enqueue_frame _ _).sessions]
      exact hContained.sessions.learnBackend
        datagram.packet datagram.now slot flow.id
        (hContained.flows slot hLt flow hFlow)

theorem sweep_sessionsContained
    (now : Int)
    (hContained : Contained env dp) :
    SessionsContained env.hash dp.config.routes
      (dp.step env (.sweep now)).sessions :=
  hContained.sessions.inherits
    (expireIncremental_inv env.hash _ _ _ _
      hContained.sessions.inv)
    (expireIncremental_inherits _ _ _ _
      hContained.sessions.inv)

/- Flows are only ever aimed at chosen backends. -/
theorem FlowStep.contained
    {event : Event}
    {flows : FlowTable}
    {sockets : List Socket}
    (hStep : FlowStep env dp event flows sockets)
    (hContained : Contained env dp) :
    FlowsContained dp.config.routes flows := by
  cases hStep with
  | kept => exact hContained.flows
  | touched _ slot flow now hSlot hFlow =>
      intro s hs other hOther
      rcases fill_eq_some hOther with ⟨_, hEq⟩ | ⟨_, hOld⟩
      · rw [hEq]
        exact hContained.flows slot hSlot flow hFlow
      · exact hContained.flows s hs other hOld
  | shrunk _ flows events hInv hShrinks =>
      intro s hs flow hFlow
      rw [hShrinks.capacity] at hs
      exact hContained.flows s hs flow (hShrinks.flow hFlow)
  | acquired datagram source answers sessions pending
      backend result hChosen hAcquired =>
      intro s hs flow hFlow
      rw [hAcquired.capacity] at hs
      rcases hAcquired.others hFlow with
        hOld | ⟨_, _, hEquals⟩
      · exact hContained.flows s hs flow hOld
      · exact (hContained.chosen hChosen).congr
          (Sockaddr.equals_symm hEquals)

/- What a successful reload keeps is in the new routes. -/
theorem reload_contained
    {file : ConfigFile}
    {resolver : Resolver}
    (hLoad : loadResolved env.hash file resolver = .ok config)
    (hTables : Tables env dp)
    (hOwned : Owned dp.flows dp.sockets)
    (hContained : Contained env dp) :
    Contained env (dp.reloadFromPath env file resolver) := by
  have hStays :
      ∀ backend, dp.config.routes.Provides backend →
        ¬ Gone dp.config.routes config.routes backend →
          config.routes.Provides backend := by
    intro backend hOld hKept
    by_contra hLost
    exact hKept ⟨hOld, hLost⟩
  have hClean : dp.CutoverClean config.routes := by
    intro _ _ _ _ _ j hj _ e hCell
    exact (hContained.sessions.backends e
      ⟨j, hj, hCell⟩).1
  have hSessions :=
    reload_sessionsCutOver hLoad hTables.sessions
      hContained.routes hClean
  have hFlows :=
    reload_flowsCutOver hLoad hTables.flows hOwned
      hContained.routes
  have hInv :=
    (reloadFromPath_tables file resolver hTables).sessions
  have hRoutes :
      (dp.reloadFromPath env file resolver).config.routes =
        config.routes := by
    rw [reload_config hLoad]
  refine ⟨?_, ⟨hInv, ?_⟩, ?_⟩
  · rw [hRoutes]
    exact loadResolved_resolved hLoad
  · intro session hHolds
    rcases (hSessions session.key session).mp
        (entryOf_key hInv hHolds) with
      ⟨hEntry, hKept⟩
    have hOld :=
      ((entryOf_eq_some hTables.sessions).mp hEntry).2.1
    rcases hContained.sessions.backends session hOld with
      ⟨hValid, hProvides⟩
    rw [hRoutes]
    exact ⟨hValid, hStays _ hProvides hKept⟩
  · intro slot hSlot flow hFlow
    rw [hFlows.capacity] at hSlot
    rcases (hFlows.flows slot hSlot flow).mp hFlow with
      ⟨hOld, hKept⟩
    rw [hRoutes]
    exact hStays _ (hContained.flows slot hSlot flow hOld)
      hKept

/- Events other than a successful reload keep the routes. -/
theorem contained_of_parts
    {after : Dataplane}
    (hConfig : after.config = dp.config)
    (hRoutes : dp.config.routes.Resolved env.hash)
    (hSessions :
      SessionsContained env.hash dp.config.routes
        after.sessions)
    (hFlows : FlowsContained dp.config.routes after.flows) :
    Contained env after := by
  constructor
  · rw [hConfig]
    exact hRoutes
  · rw [hConfig]
    exact hSessions
  · rw [hConfig]
    exact hFlows

/- Each event keeps them, if the selection stays. -/
theorem step_contained
    (event : Event)
    (hTables : Tables env dp)
    (hOwned : Owned dp.flows dp.sockets)
    (hKept : KeepsSelection env dp event)
    (hContained : Contained env dp) :
    Contained env (dp.step env event) := by
  rcases step_transport event hTables.flows with
    ⟨_, _, hStep, _⟩
  have hFlows := hStep.contained hContained
  cases event with
  | client datagram source answers =>
      exact @contained_of_parts env dp _
        (@handleClientPacket_config env
          (dp.withAnswers answers) _ _ _ hTables.flows)
        hContained.routes
        (client_sessionsContained datagram source answers
          hTables.flows hContained hKept)
        hFlows
  | backend slot datagram answers =>
      exact @contained_of_parts env dp _
        (handleBackendPacket_config (dp.withAnswers answers)
          _ _ _)
        hContained.routes
        (backend_sessionsContained slot datagram answers
          hContained)
        hFlows
  | flush answers =>
      exact contained_of_parts rfl hContained.routes
        hContained.sessions hFlows
  | sweep now =>
      exact contained_of_parts rfl hContained.routes
        (sweep_sessionsContained now hContained) hFlows
  | reload file resolver =>
      rw [step_reload]
      cases hLoad : loadResolved env.hash file resolver with
      | error status =>
          unfold reloadFromPath
          rw [hLoad]
          exact hContained
      | ok config =>
          exact reload_contained hLoad hTables hOwned
            hContained

theorem Starts.contained
    (hStarts : Starts env dp) :
    Contained env dp := by
  rcases hStarts.started.routes with
    ⟨table, resolver, hResolve⟩
  refine ⟨RouteTable.resolve_resolved hResolve,
    ⟨hStarts.tables.sessions, ?_⟩, ?_⟩
  · rintro session ⟨slot, _, hCell⟩
    rw [hStarts.no_sessions slot] at hCell
    cases hCell
  · intro slot _ flow hFlow
    rw [hStarts.no_flows slot] at hFlow
    cases hFlow

/- They are there in each such state. -/
theorem reachable_contained
    (hReach : ReachableWhere env (KeepsSelection env) dp) :
    Contained env dp := by
  induction hReach with
  | start hStarts => exact hStarts.contained
  | step event hReach hKept ih =>
      exact step_contained event hReach.tables hReach.owned
        hKept ih

/-
  In every run in which the selected entries survive the
  insertion of their aliases, sessions and flows have
  addresses of current routes, and so has everything that
  is queued upstream.
-/
theorem backends_contained
    (hReach : ReachableWhere env (KeepsSelection env) dp) :
    (∀ slot < dp.sessions.capacity, ∀ session,
      dp.sessions.sessions slot = some session →
        dp.config.routes.Provides session.backend) ∧
    (∀ slot < dp.flows.capacity, ∀ flow,
      dp.flows.flows slot = some flow →
        dp.config.routes.Provides flow.backend) ∧
    ∀ event, KeepsSelection env dp event →
      ∀ item ∈ dp.queuedBy env event,
        item.origin ≠ none →
          dp.config.routes.Provides item.dest := by
  have hContained := reachable_contained hReach
  refine ⟨?_, hContained.flows, ?_⟩
  · intro slot hSlot session hCell
    exact (hContained.sessions.backends session
      ⟨slot, hSlot, hCell⟩).2
  · intro event hKept item hItem hOrigin
    rcases step_transport event hReach.tables.flows with
      ⟨items, hQueue, hStep, hItems⟩
    rw [queuedBy_eq hQueue] at hItem
    rcases hItems item hItem with
      hNone | ⟨datagram, source, answers, hEvent, hUp⟩
    · exact absurd hNone hOrigin
    · subst hEvent
      rcases hUp.flow with
        ⟨slot, hSlot, flow, hFlow, _, _, hAimed⟩
      rcases hAimed.dest hReach.tables hKept with
        ⟨_, hEq⟩ | ⟨hChosen, _⟩
      · rw [hEq]
        exact hStep.contained hContained slot hSlot flow hFlow
      · exact hContained.chosen hChosen

end Dataplane

namespace Deployment

open Dataplane

/- The first datagram of a client. -/
def firstVisit : Event :=
  .client (datagram 1) (client 4) (opens 4)

/- The one slot, taken by the first visit. -/
def visitedOnce : Dataplane :=
  oneSlot.run env [firstVisit]

theorem visitedOnce_reachable :
    Reachable env visitedOnce :=
  reachable_okValue _ _ _

/-
  With one slot the alias of the destination id is stored
  with an all-zero address, and the datagram goes there.
-/
theorem zeroed_backend_stored :
    Reachable env visitedOnce ∧
      (∃ slot < visitedOnce.sessions.capacity, ∃ session,
        visitedOnce.sessions.sessions slot = some session ∧
          ¬ visitedOnce.config.routes.Provides
            session.backend) ∧
      ∃ item ∈ oneSlot.queuedBy env firstVisit,
        item.origin ≠ none ∧
          ¬ oneSlot.config.routes.Provides item.dest := by
  refine ⟨visitedOnce_reachable,
    ⟨0, by decide +kernel, ?_⟩, ?_⟩
  · have hZeroed :
        (visitedOnce.sessions.sessions 0).map
          (fun session =>
            visitedOnce.config.routes.hasBackend env.hash
              session.backend) = some false := by
      decide +kernel
    rcases Option.map_eq_some_iff.mp hZeroed with
      ⟨session, hCell, hMiss⟩
    exact ⟨session, hCell,
      visitedOnce_reachable.not_provides hMiss⟩
  · have hItem :
        (oneSlot.queuedBy env firstVisit).head?.map
          (fun item =>
            (item.origin.isSome,
              oneSlot.config.routes.hasBackend env.hash
                item.dest)) = some (true, false) := by
      decide +kernel
    rcases Option.map_eq_some_iff.mp hItem with
      ⟨item, hHead, hPair⟩
    rcases Prod.mk.inj hPair with ⟨hOrigin, hMiss⟩
    refine ⟨item, List.mem_of_mem_head? hHead, ?_,
      reachable_oneSlot.not_provides hMiss⟩
    intro hNone
    rw [hNone] at hOrigin
    cases hOrigin

theorem firstVisit_keepsSelection :
    KeepsSelection env fourSlots firstVisit := by
  intro i sessions _ hSelect
  have hi : some i = some 0 :=
    (congrArg Prod.fst hSelect).symm.trans (by decide +kernel)
  cases hi
  have hSessions := congrArg Prod.snd hSelect
  dsimp only at hSessions
  subst hSessions
  decide +kernel

/- With four slots the run of one visit is contained. -/
def visitedFour : Dataplane :=
  fourSlots.step env firstVisit

/- With four slots the flow has a configured backend. -/
theorem contained_in_four_slots :
    visitedFour.flows.count = 1 ∧
      ∀ slot < visitedFour.flows.capacity, ∀ flow,
        visitedFour.flows.flows slot = some flow →
          visitedFour.config.routes.Provides
            flow.backend := by
  have hStart :
      ReachableWhere env (KeepsSelection env) fourSlots :=
    ReachableWhere.start (starts_okValue _ _)
  have hReach :
      ReachableWhere env (KeepsSelection env) visitedFour :=
    ReachableWhere.step _ hStart firstVisit_keepsSelection
  exact ⟨by decide +kernel, (backends_contained hReach).2.1⟩

end Deployment

end QuicSniRouter
