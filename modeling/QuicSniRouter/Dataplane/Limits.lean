import QuicSniRouter.Config.Reading
import QuicSniRouter.Dataplane.Containment
import QuicSniRouter.Dataplane.Gathering
import QuicSniRouter.Dataplane.Queue

/-
  The sizes of a running router.  What the loader accepts
  bounds the tables, a reload stays within these bounds, the
  buffered Initials do not grow past their arrays, and the
  session table does not call itself more than once.

  Main declarations:
    * `Dataplane.Sized` and `Dataplane.ReachableWhere.sized`
    * `PendingInitial.kept_small`
    * `Dataplane.memory_bounded`
    * `Dataplane.put_recursion_bounded`
-/

namespace QuicSniRouter

open SessionTable

namespace Dataplane

variable {env : Env} {dp : Dataplane} {config : Config}

/- Settings in range, and a flow table made for them. -/
structure Sized
    (dp : Dataplane) : Prop where
  config : dp.config.WellFormed
  flows :
    dp.flows.capacity = flowCapacity dp.config.maxSessions

theorem flowCapacity_le
    (hConfig : dp.config.WellFormed) :
    flowCapacity dp.config.maxSessions ≤ 250000 := by
  have hMax : dp.config.maxSessions ≤ 1000000 :=
    hConfig.maxSessions.2
  unfold flowCapacity
  rw [max_le_iff]
  exact ⟨Nat.div_le_of_le_mul hMax, by decide⟩

theorem FlowStep.capacity
    {event : Event}
    {after : FlowTable}
    {sockets : List Socket}
    (hStep : FlowStep env dp event after sockets) :
    after.capacity = dp.flows.capacity := by
  cases hStep with
  | kept => rfl
  | touched => rfl
  | shrunk _ flows events hInv hShrinks =>
      exact hShrinks.capacity
  | acquired datagram source answers sessions pending
      backend result hChosen hAcquired =>
      exact hAcquired.capacity

theorem loadResolved_wellFormed
    {file : ConfigFile}
    {resolver : Resolver}
    (hLoad :
      loadResolved env.hash file resolver = .ok config) :
    config.WellFormed := by
  unfold loadResolved at hLoad
  rcases except_bind_eq_ok hLoad with ⟨loaded, hLoaded, hRest⟩
  rcases except_bind_eq_ok hRest with ⟨routes, _, hDone⟩
  cases hDone
  have hFormed := Config.load_wellFormed hLoaded
  exact ⟨hFormed.listen, hFormed.idleTimeout,
    hFormed.maxSessions⟩

/- What a reload may change stays in range. -/
theorem ConfigStep.wellFormed
    (hStep : ConfigStep env dp config)
    (hConfig : dp.config.WellFormed) :
    config.WellFormed ∧
      config.maxSessions = dp.config.maxSessions := by
  cases hStep with
  | kept => exact ⟨hConfig, rfl⟩
  | reloaded file resolver loaded hLoad =>
      exact ⟨⟨hConfig.listen,
        (loadResolved_wellFormed hLoad).idleTimeout,
        hConfig.maxSessions⟩, rfl⟩

theorem Starts.sized
    (hStarts : Starts env dp) :
    dp.Sized := by
  have hFlows := hStarts.started.flows
  refine ⟨?_, ?_⟩
  · rcases hStarts with ⟨file, resolver, listen, hBoot⟩
    unfold boot at hBoot
    rcases except_bind_eq_ok hBoot with
      ⟨config, hLoad, hStart⟩
    have hFormed := Config.load_wellFormed hLoad
    unfold start at hStart
    rcases except_bind_eq_ok hStart with ⟨_, _, hRest⟩
    rcases except_bind_eq_ok hRest with ⟨_, _, hRest⟩
    rcases except_bind_eq_ok hRest with ⟨_, _, hDone⟩
    cases hDone
    exact ⟨hFormed.listen, hFormed.idleTimeout,
      hFormed.maxSessions⟩
  · unfold FlowTable.init at hFlows
    split at hFlows
    · cases hFlows
    · rw [← Except.ok.inj hFlows]

theorem ReachableWhere.sized
    {allowed : Dataplane → Event → Prop}
    (hReach : ReachableWhere env allowed dp) :
    dp.Sized := by
  induction hReach with
  | start hStarts => exact hStarts.sized
  | step event hReach _ ih =>
      rcases step_transport event hReach.tables.flows with
        ⟨_, _, hFlows, _⟩
      have hConfig := step_config event hReach.tables.flows
      rcases hConfig.wellFormed ih.config with
        ⟨hFormed, hSame⟩
      refine ⟨hFormed, ?_⟩
      rw [hFlows.capacity, ih.flows, hSame]

end Dataplane

/- What an entry holds fits into its array. -/
def PendingInitial.Small
    (entry : PendingInitial) : Prop :=
  entry.packets.length ≤ pendingInitialMaxPackets ∧
    ∀ packet ∈ entry.packets, packet.length ≤ maxDatagramSize

theorem PendingInitial.kept_small :
    Kept Small where
  start := by
    intro source initial now
    exact ⟨Nat.zero_le _, by simp [start]⟩
  seen := fun _ _ hSmall => hSmall
  append := by
    intro entry packet hSmall
    unfold appendPacket
    split
    · exact hSmall
    · rename_i hFits
      split
      · exact hSmall
      · split
        · exact hSmall
        · rename_i hRoom
          refine ⟨?_, ?_⟩
          · rw [List.length_append, List.length_singleton]
            omega
          · intro other hIn
            rcases List.mem_append.mp hIn with hOld | hNew
            · exact hSmall.2 other hOld
            · rw [List.mem_singleton.mp hNew]
              omega
  merge := fun _ _ hSmall => hSmall

namespace Dataplane

variable {env : Env} {dp : Dataplane}

/-
  Whatever has arrived, the queue fits into its array, and
  so do the flows, the pending entries and their packets.
-/
theorem memory_bounded
    (hReach : dp.Reachable env) :
    dp.queue.length ≤ udpBatchSize ∧
      dp.flows.count ≤ dp.flows.capacity ∧
      dp.flows.capacity ≤ 250000 ∧
      ∀ cell entry,
        dp.pending.entries cell = some entry →
          cell < pendingInitialCapacity ∧
            entry.packets.length ≤ pendingInitialMaxPackets ∧
            ∀ packet ∈ entry.packets,
              packet.length ≤ maxDatagramSize := by
  have hSized := hReach.sized
  have hFlows := hReach.tables.flows.count_add_free
  refine ⟨hReach.fitsQueue, by omega, ?_, ?_⟩
  · rw [hSized.flows]
    exact flowCapacity_le hSized.config
  · intro cell entry hEntry
    exact ⟨hReach.pendingInv.inside cell entry hEntry,
      hReach.every PendingInitial.kept_small cell entry
        hEntry⟩

end Dataplane

namespace Deployment

/-
  One client has sent two pieces of its hello.  Another one
  has its flow, and its next packet is queued.
-/
def busy : Dataplane :=
  byName.run inPieces
    (twoPieces.map comesIn ++
      [.client wholeHello (client 5) (opens 5),
        .client (datagram 1) (client 5) (opens 5)])

/- The bounds in a state with all tables in use. -/
theorem busy_bounded :
    busy.queue.length = 1 ∧ busy.flows.count = 1 ∧
      (busy.pending.entries 0).map PendingInitial.packets =
        some (twoPieces.map Datagram.packet) ∧
      busy.queue.length ≤ udpBatchSize ∧
      busy.flows.count ≤ busy.flows.capacity ∧
      busy.flows.capacity ≤ 250000 ∧
      ∀ cell entry,
        busy.pending.entries cell = some entry →
          cell < pendingInitialCapacity ∧
            entry.packets.length ≤ pendingInitialMaxPackets ∧
            ∀ packet ∈ entry.packets,
              packet.length ≤ maxDatagramSize := by
  have hState :
      busy.queue.length = 1 ∧ busy.flows.count = 1 ∧
        (busy.pending.entries 0).map PendingInitial.packets =
          some (twoPieces.map Datagram.packet) := by
    decide +kernel
  exact ⟨hState.1, hState.2.1, hState.2.2,
    Dataplane.memory_bounded
      (Dataplane.reachable_run _ reachable_inPieces)⟩

end Deployment

namespace Dataplane

variable {env : Env} {dp : Dataplane}

/-
  A put may evict, an eviction reinserts, and reinserting is
  a put again: it goes no deeper than that.
-/
theorem put_recursion_bounded
    (hReach : dp.Reachable env)
    (args : PutArgs)
    (depth : Nat) :
    putInternal env.hash (depth + 2) dp.sessions args =
      putInternal env.hash 2 dp.sessions
        args :=
  putInternal_depth env.hash args depth hReach.tables.sessions

end Dataplane

namespace Deployment

/- Three clients fill the table. -/
def crowded : Dataplane :=
  fourSlots.run env
    [firstVisit, .client (datagram 1) (client 5) (opens 5),
      .client (datagram 1) (client 6) (opens 6)]

/- The put of a fourth one. -/
def fourthPut : PutArgs where
  key := SessionKey.tupleKey (client 7)
  backendAddr := .addr (client 1).storage
  backendAddrLen := 16
  now := 0
  allowPressureEvict := true
  ownerSlot := 3
  ownerFlowId := 4

/- A put into a full table recurses no deeper. -/
theorem crowded_recursion_bounded :
    crowded.sessions.count = crowded.sessions.capacity ∧
      (crowded.sessions.get env.hash
        fourthPut.key).isSome = false ∧
      (putInternal env.hash 2 crowded.sessions
        fourthPut).1 = .ok ∧
      putInternal env.hash 9 crowded.sessions fourthPut =
        putInternal env.hash 2 crowded.sessions
          fourthPut := by
  have hFull :
      crowded.sessions.count = crowded.sessions.capacity ∧
        (crowded.sessions.get env.hash
          fourthPut.key).isSome = false ∧
        (putInternal env.hash 2 crowded.sessions
          fourthPut).1 = .ok := by
    decide +kernel
  exact ⟨hFull.1, hFull.2.1, hFull.2.2,
    Dataplane.put_recursion_bounded
      (reachable_okValue _ _ _) fourthPut 7⟩

end Deployment

end QuicSniRouter
