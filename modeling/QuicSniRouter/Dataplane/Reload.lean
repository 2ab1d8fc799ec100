import QuicSniRouter.Dataplane.Sockets
import QuicSniRouter.RouteTable.Resolved

/-
  Hot reload: a file that fails to load or to resolve leaves
  everything as it is, and one that succeeds cuts over to
  its routes.  Flows are cut over exactly; sessions are, if
  no entry without a valid backend stands in the way.

  Main declarations:
    * `Dataplane.ReachableWhere.resolved`
    * `Dataplane.Gone`
    * `Dataplane.CutoverClean`
    * `Dataplane.reload_cuts_over`
-/

------------------------------------------------------------
-- The Configuration Along A Run
------------------------------------------------------------

namespace QuicSniRouter

namespace Dataplane

variable {env : Env} {dp after : Dataplane} {packet : Bytes}
variable {source : Sockaddr} {now : Int} {backend : Sockaddr}
variable {new : RouteTable}

theorem flowAcquire_config
    {client : Sockaddr}
    {slot : Option Nat}
    (hAcquire :
      dp.flowAcquire env client backend now = (slot, after))
    (hInv : dp.flows.Inv env.hash) :
    after.config = dp.config := by
  have hAcquired := Acquired.of_eq hAcquire hInv
  exact hAcquired.frame.config

theorem Forwarded.config
    {session : Nat}
    (hForwarded :
      Forwarded env dp session packet source now after)
    (hInv : dp.flows.Inv env.hash) :
    after.config = dp.config := by
  cases hForwarded with
  | noFlow _ hAcquire =>
      have hReached := flowAcquire_config hAcquire hInv
      exact hReached
  | sent slot reached hAcquire =>
      have hReached := flowAcquire_config hAcquire hInv
      exact (enqueue_frame _ _).config.trans hReached

theorem Fresh.config
    (hFresh : Fresh env dp packet source now after)
    (hInv : dp.flows.Inv env.hash) :
    after.config = dp.config := by
  cases hFresh with
  | ignored => rfl
  | buffered pending => rfl
  | noFlow pending backend _ hChosen hAcquire =>
      have hReached := flowAcquire_config hAcquire hInv
      exact hReached
  | notStored pending backend slot reached hChosen hAcquire
      sessions status hStatus hPut =>
      have hReached := flowAcquire_config hAcquire hInv
      exact hReached
  | installed initial pending routed slot reached sessions
      hSize hInitial hRoute hChosen hAcquire hPut =>
      have hReached := flowAcquire_config hAcquire hInv
      exact (sendAll_frame _ _ _ _ _).config.trans hReached

theorem handleClientPacket_config
    (packet : Bytes)
    (source : Sockaddr)
    (now : Int)
    (hInv : dp.flows.Inv env.hash) :
    (dp.handleClientPacket env packet source now).config =
      dp.config := by
  have hHandled :=
    handleClientPacket_cases dp packet source now hInv
  generalize
    dp.handleClientPacket env packet source now = after
    at hHandled ⊢
  cases hHandled with
  | fast slot flow => exact (enqueue_frame _ _).config
  | session i sessions _ hFast hSelect hForwarded =>
      have hAfter := hForwarded.config hInv
      exact hAfter
  | fresh sessions _ hFast hSelect hFresh =>
      have hAfter := hFresh.config hInv
      exact hAfter

theorem handleBackendPacket_config
    (dp : Dataplane)
    (slot : Nat)
    (packet : Bytes)
    (now : Int) :
    (dp.handleBackendPacket env slot packet now).config =
      dp.config := by
  unfold handleBackendPacket
  cases dp.flows.slot slot with
  | none => rfl
  | some flow => exact (enqueue_frame _ _).config

theorem loadResolved_resolved
    {file : ConfigFile}
    {resolver : Resolver}
    {config : Config}
    (hLoad :
      loadResolved env.hash file resolver = .ok config) :
    config.routes.Resolved env.hash := by
  unfold loadResolved at hLoad
  rcases except_bind_eq_ok hLoad with ⟨loaded, _, hRest⟩
  rcases except_bind_eq_ok hRest with ⟨routes, hRoutes, hDone⟩
  cases hDone
  exact RouteTable.resolve_resolved hRoutes

/- What becomes of the configuration in one event. -/
inductive ConfigStep
    (env : Env)
    (dp : Dataplane) :
    Config → Prop
  | kept : ConfigStep env dp dp.config
  | reloaded
      (file : ConfigFile)
      (resolver : Resolver)
      (config : Config)
      (hLoad :
        loadResolved env.hash file resolver = .ok config) :
      ConfigStep env dp
        { dp.config with
          routes := config.routes
          idleTimeoutSeconds := config.idleTimeoutSeconds
          cidCodec := config.cidCodec
          logConnections := config.logConnections }

theorem step_config
    (event : Event)
    (hInv : dp.flows.Inv env.hash) :
    ConfigStep env dp (dp.step env event).config := by
  cases event with
  | client datagram source answers =>
      have hSame :
          (dp.step env
            (.client datagram source answers)).config =
              dp.config :=
        @handleClientPacket_config env
          (dp.withAnswers answers) _ _ _ hInv
      rw [hSame]
      exact ConfigStep.kept
  | backend slot datagram answers =>
      have hSame :
          (dp.step env
            (.backend slot datagram answers)).config =
              dp.config :=
        handleBackendPacket_config (dp.withAnswers answers)
          _ _ _
      rw [hSame]
      exact ConfigStep.kept
  | flush answers => exact ConfigStep.kept
  | sweep now => exact ConfigStep.kept
  | reload file resolver =>
      rw [step_reload]
      unfold reloadFromPath
      cases hLoad : loadResolved env.hash file resolver with
      | error status => exact ConfigStep.kept
      | ok config =>
          exact ConfigStep.reloaded file resolver config hLoad

/- The routes in use are always resolved. -/
theorem ReachableWhere.resolved
    {allowed : Dataplane → Event → Prop}
    (hReach : ReachableWhere env allowed dp) :
    dp.config.routes.Resolved env.hash := by
  induction hReach with
  | start hStarts =>
      rcases hStarts.started.routes with
        ⟨table, resolver, hResolve⟩
      exact RouteTable.resolve_resolved hResolve
  | @step dp event hReach _ ih =>
      have hConfig := step_config event hReach.tables.flows
      generalize (dp.step env event).config = config
        at hConfig ⊢
      cases hConfig with
      | kept => exact ih
      | reloaded file resolver loaded hLoad =>
          have hLoaded := loadResolved_resolved hLoad
          exact hLoaded

theorem ReachableWhere.not_provides
    {allowed : Dataplane → Event → Prop}
    (hReach : ReachableWhere env allowed dp)
    (hMiss :
      dp.config.routes.hasBackend env.hash backend = false) :
    ¬ dp.config.routes.Provides backend := by
  rw [← RouteTable.hasBackend_iff hReach.resolved, hMiss]
  exact Bool.false_ne_true

------------------------------------------------------------
-- Cutover
------------------------------------------------------------

open LinearProbing

variable {dp : Dataplane}

/- A backend of the old routes that the new ones lack. -/
def Gone
    (old new : RouteTable)
    (backend : Sockaddr) : Prop :=
  old.Provides backend ∧ ¬ new.Provides backend

theorem shouldEvictOnReload_iff
    {old : RouteTable}
    (hOld : old.Resolved env.hash)
    (hNew : new.Resolved env.hash)
    (backend : Sockaddr) :
    shouldEvictOnReload env.hash old new backend = true ↔
      Gone old new backend := by
  unfold shouldEvictOnReload Gone
  rw [Bool.and_eq_true, Bool.not_eq_true',
    RouteTable.hasBackend_iff hOld,
    ← RouteTable.hasBackend_iff hNew, Bool.not_eq_true]

/-
  In the run of used slots behind a session whose backend is
  gone, every session has a valid backend address.
-/
def CutoverClean
    (dp : Dataplane)
    (new : RouteTable) : Prop :=
  ∀ i < dp.sessions.capacity, ∀ a,
    dp.sessions.sessions i = some a →
      Gone dp.config.routes new a.backend →
        ∀ j < dp.sessions.capacity,
          Run dp.sessions.capacity dp.sessions.sessions i j →
          ∀ e, dp.sessions.sessions j = some e →
            e.backend.valid = true

/- The same, as the sweep of the session table has it. -/
theorem cutoverClean_iff
    (hInv : dp.sessions.Inv env.hash)
    (hOld : dp.config.routes.Resolved env.hash)
    (hNew : new.Resolved env.hash) :
    dp.CutoverClean new ↔
      dp.sessions.RunsStorable
        (fun session =>
          shouldEvictOnReload env.hash dp.config.routes new
            session.backend) := by
  constructor
  · intro hClean i hi a hCellA hGone j hj hRun e hCellJ
    exact ⟨hInv.keys j hj e hCellJ,
      hClean i hi a hCellA
        ((shouldEvictOnReload_iff hOld hNew _).mp hGone) j
        hj hRun e hCellJ⟩
  · intro hRuns i hi a hCellA hGone j hj hRun e hCellJ
    exact (hRuns i hi a hCellA
      ((shouldEvictOnReload_iff hOld hNew _).mpr hGone) j hj
      hRun e hCellJ).2

/- The session map without the entries that are gone. -/
def SessionsCutOver
    (env : Env)
    (dp after : Dataplane)
    (new : RouteTable) : Prop :=
  SessionTable.Restricts env.hash dp.sessions after.sessions
    (fun session => Gone dp.config.routes new session.backend)

/- Each flow stays as it is in its slot, or is gone. -/
structure FlowsCutOver
    (dp after : Dataplane)
    (new : RouteTable) : Prop where
  capacity : after.flows.capacity = dp.flows.capacity
  flows :
    ∀ slot < dp.flows.capacity, ∀ flow,
      after.flows.flows slot = some flow ↔
        dp.flows.flows slot = some flow ∧
          ¬ Gone dp.config.routes new flow.backend
  closed :
    ∀ slot < dp.flows.capacity, ∀ flow,
      dp.flows.flows slot = some flow →
        Gone dp.config.routes new flow.backend →
          flow.fd ∉ after.sockets.map Socket.fd

theorem sessionsCutOver_iff
    (hOld : dp.config.routes.Resolved env.hash)
    (hNew : new.Resolved env.hash) :
    SessionsCutOver env dp after new ↔
      SessionTable.Restricts env.hash dp.sessions
        after.sessions
        (fun session =>
          shouldEvictOnReload env.hash dp.config.routes new
            session.backend = true) := by
  unfold SessionsCutOver
  simp only [shouldEvictOnReload_iff hOld hNew]

section Success

variable {file : ConfigFile} {resolver : Resolver}
variable {config : Config}

theorem reload_config
    (hLoad :
      loadResolved env.hash file resolver = .ok config) :
    (dp.reloadFromPath env file resolver).config =
      { dp.config with
        routes := config.routes
        idleTimeoutSeconds := config.idleTimeoutSeconds
        cidCodec := config.cidCodec
        logConnections := config.logConnections } := by
  unfold reloadFromPath
  rw [hLoad]
  rfl

theorem reload_sessions
    (hLoad :
      loadResolved env.hash file resolver = .ok config) :
    (dp.reloadFromPath env file resolver).sessions =
      (dp.sessions.evictIf env.hash
        (fun session =>
          shouldEvictOnReload env.hash dp.config.routes
            config.routes session.backend)).2 := by
  unfold reloadFromPath
  rw [hLoad]
  rfl

theorem reload_flowsCutOver
    (hLoad : loadResolved env.hash file resolver = .ok config)
    (hInv : dp.flows.Inv env.hash)
    (hOwned : Owned dp.flows dp.sockets)
    (hOld : dp.config.routes.Resolved env.hash) :
    FlowsCutOver dp (dp.reloadFromPath env file resolver)
      config.routes := by
  have hNew := loadResolved_resolved hLoad
  rcases FlowTable.evictIf_spec
      (fun flow =>
        shouldEvictOnReload env.hash dp.config.routes
          config.routes flow.backend) hInv with
    ⟨_, hShrinks, hFilter⟩
  unfold reloadFromPath
  rw [hLoad]
  have hExact :
      ∀ slot < dp.flows.capacity, ∀ flow,
        (dp.flows.evictIf env.hash
            (fun flow =>
              shouldEvictOnReload env.hash dp.config.routes
                config.routes flow.backend)).2.1.flows
            slot = some flow ↔
          dp.flows.flows slot = some flow ∧
            ¬ Gone dp.config.routes config.routes
              flow.backend := by
    intro slot hSlot flow
    rw [hFilter slot hSlot, Option.filter_eq_some_iff,
      ← shouldEvictOnReload_iff hOld hNew]
    simp
  refine ⟨hShrinks.capacity, hExact, ?_⟩
  intro slot hSlot flow hFlow hGone hOpen
  rcases hShrinks.slots slot with
    hSame | ⟨_, old, reason, hOldFlow, _, hClose⟩
  · rw [hFlow] at hSame
    exact ((hExact slot hSlot flow).mp hSame).2 hGone
  · rw [hFlow] at hOldFlow
    cases hOldFlow
    have hClosed :=
      hClose (hOwned.nonneg slot hSlot flow hFlow)
    rcases List.mem_map.mp hOpen with ⟨socket, hIn, hFd⟩
    rw [← hFd] at hClosed
    exact (mem_closeSockets.mp hIn).2 hClosed

theorem reload_sessionsCutOver
    (hLoad : loadResolved env.hash file resolver = .ok config)
    (hInv : dp.sessions.Inv env.hash)
    (hOld : dp.config.routes.Resolved env.hash)
    (hClean : dp.CutoverClean config.routes) :
    SessionsCutOver env dp
      (dp.reloadFromPath env file resolver)
      config.routes := by
  have hNew := loadResolved_resolved hLoad
  rw [sessionsCutOver_iff hOld hNew, reload_sessions hLoad]
  exact SessionTable.evictIf_restricts hInv
    ((cutoverClean_iff hInv hOld hNew).mp hClean)

end Success

/-
  A reload that fails changes nothing.  One that succeeds
  takes the new settings over and cuts the flows over; it
  cuts the sessions over if the runs behind sessions that
  are gone are clean, and only then, unless a session that
  is gone is itself one without a valid backend.
-/
theorem reload_cuts_over
    (file : ConfigFile)
    (resolver : Resolver)
    (hReach : Reachable env dp) :
    let after := dp.step env (.reload file resolver)
    (∀ status,
      loadResolved env.hash file resolver = .error status →
        after = dp) ∧
    ∀ config,
      loadResolved env.hash file resolver = .ok config →
        after.config =
            { dp.config with
              routes := config.routes
              idleTimeoutSeconds := config.idleTimeoutSeconds
              cidCodec := config.cidCodec
              logConnections := config.logConnections } ∧
        FlowsCutOver dp after config.routes ∧
        (dp.CutoverClean config.routes →
          SessionsCutOver env dp after config.routes) ∧
        ((∀ slot < dp.sessions.capacity, ∀ session,
            dp.sessions.sessions slot = some session →
            Gone dp.config.routes config.routes
              session.backend →
            session.backend.valid = true) →
          SessionsCutOver env dp after config.routes →
          dp.CutoverClean config.routes) := by
  intro after
  have hStep :
      after = dp.reloadFromPath env file resolver := rfl
  rw [hStep]
  refine ⟨?_, ?_⟩
  · intro status hLoad
    unfold reloadFromPath
    rw [hLoad]
  · intro config hLoad
    have hInv := hReach.tables.sessions
    have hOld := hReach.resolved
    have hNew := loadResolved_resolved hLoad
    refine ⟨reload_config hLoad,
      reload_flowsCutOver hLoad hReach.tables.flows
        hReach.owned hOld,
      reload_sessionsCutOver hLoad hInv hOld, ?_⟩
    intro hValid hCutOver
    rw [sessionsCutOver_iff hOld hNew,
      reload_sessions hLoad] at hCutOver
    apply (cutoverClean_iff hInv hOld hNew).mpr
    apply SessionTable.runsStorable_of_restricts hInv _
      hCutOver
    rintro session ⟨slot, hSlot, hCell⟩ hGone
    exact ⟨hInv.keys slot hSlot session hCell,
      hValid slot hSlot session hCell
        ((shouldEvictOnReload_iff hOld hNew _).mp hGone)⟩

end Dataplane

namespace Deployment

open Dataplane

/- Two servers behind a session table of two slots. -/
def twoServers : Dataplane :=
  okValue (booted { maxSessions := [50], servers := [1, 2] })
    (by decide +kernel)

/- A client of the first server. -/
def visitFirst : Event :=
  .client (datagram 1) (client 5) (opens 4)

/- A client of the second server. -/
def visitSecond : Event :=
  .client (datagram 2) (client 4) (opens 5)

/- Only the second server is left in the new file. -/
def secondOnly : ConfigFile :=
  file { maxSessions := [50], servers := [2] }

theorem secondOnly_loads :
    ∃ config,
      loadResolved env.hash secondOnly resolver =
        .ok config :=
  ⟨_, eq_okValue _ (by decide +kernel)⟩

/- The state with both servers in use. -/
def bothVisited : Dataplane :=
  twoServers.run env [visitFirst, visitSecond]

theorem bothVisited_reachable :
    Reachable env bothVisited :=
  reachable_okValue _ _ _

/-
  The second visit has left an alias of server 2 with a
  zeroed address behind the tuple of the first client.  The
  reload drops that tuple and loses the alias with it.
-/
theorem alias_lost_to_reload :
    Reachable env bothVisited ∧
      ∃ config,
        loadResolved env.hash secondOnly resolver =
          .ok config ∧
        ¬ SessionsCutOver env bothVisited
          (bothVisited.step env (.reload secondOnly resolver))
          config.routes := by
  rcases secondOnly_loads with ⟨config, hLoad⟩
  refine ⟨bothVisited_reachable, config, hLoad, ?_⟩
  intro hCutOver
  have hZeroed :
      (bothVisited.sessions.entryOf env.hash
          (SessionKey.singleCidKey (encodedCid 2))).map
            Session.backend =
        some
          { storage := SockaddrStorage.ofBytes []
            len := 16 } := by
    decide +kernel
  rcases Option.map_eq_some_iff.mp hZeroed with
    ⟨session, hEntry, hBackend⟩
  have hKept :
      ¬ Gone bothVisited.config.routes config.routes
        session.backend := by
    rw [hBackend]
    rintro ⟨hProvides, _⟩
    exact bothVisited_reachable.not_provides
      (by decide +kernel) hProvides
  have hAfter := (hCutOver _ session).mpr ⟨hEntry, hKept⟩
  have hLost :
      ((bothVisited.step env
        (.reload secondOnly resolver)).sessions.entryOf
          env.hash (SessionKey.singleCidKey
            (encodedCid 2))).isNone = true := by
    decide +kernel
  rw [hAfter] at hLost
  cases hLost

/- The state with the first server in use. -/
def firstVisited : Dataplane :=
  twoServers.run env [visitFirst]

/- After the first visit alone the cutover is exact. -/
theorem first_visit_cut_over :
    ∃ config,
      loadResolved env.hash secondOnly resolver = .ok config ∧
      FlowsCutOver firstVisited
        (firstVisited.step env (.reload secondOnly resolver))
        config.routes ∧
      SessionsCutOver env firstVisited
        (firstVisited.step env (.reload secondOnly resolver))
        config.routes := by
  rcases secondOnly_loads with ⟨config, hLoad⟩
  have hReach : Reachable env firstVisited :=
    reachable_okValue _ _ _
  rcases (reload_cuts_over secondOnly resolver hReach).2
      config hLoad with
    ⟨_, hFlows, hSessions, _⟩
  refine ⟨config, hLoad, hFlows, hSessions ?_⟩
  intro i _ a _ _ j hj _ e hCell
  have hValid :
      ∀ j < firstVisited.sessions.capacity,
        (firstVisited.sessions.sessions j).all
          (fun s => s.backend.valid) = true := by
    decide +kernel
  have hEntry := hValid j hj
  rw [hCell] at hEntry
  exact hEntry

end Deployment

end QuicSniRouter
