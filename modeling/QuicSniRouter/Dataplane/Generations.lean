import QuicSniRouter.Dataplane.Writes

/-
  Flow generations: every flow that is created gets an id of
  its own, and a session entry with an owner is kept alive
  by that very flow, not by what later sits in its slot.

  Main declarations:
    * `Dataplane.creation` and `Dataplane.creations`
    * `Dataplane.Generation` and `Dataplane.step_generation`
    * `Dataplane.OwnersFrom`
    * `Dataplane.keepalive_by_owner`
-/

------------------------------------------------------------
-- Creating Flows
------------------------------------------------------------

namespace QuicSniRouter

open LinearProbing

namespace Dataplane

variable {env : Env} {dp : Dataplane}
variable {before after table : FlowTable} {flow : Flow}
variable {s : Nat} {created : List Flow}

/- The flow that `flow_acquire` has the table create. -/
def createdFlow
    (env : Env)
    (dp : Dataplane)
    (client backend : Sockaddr)
    (now : Int) : Option Flow :=
  match dp.flows.get env.hash client with
  | some _ => none
  | none =>
      match dp.flowSocketOpen env
          backend.storage.ssFamily with
      | (none, _) => none
      | (some fd, dp) =>
          let stored :=
            dp.flows.put env.hash client backend fd now
          stored.1.bind stored.2.1.flows

/- The flow that an event creates, even if epoll refuses it. -/
def creation
    (env : Env)
    (dp : Dataplane) :
    Event → Option Flow
| .client datagram source answers =>
    let asked := dp.withAnswers answers
    (asked.chosenBackend env datagram.packet source
      datagram.now).bind
      (fun backend =>
        asked.createdFlow env source backend datagram.now)
| _ => none

/- All flows that are created along a run. -/
def creations
    (env : Env) :
    Dataplane → List Event → List Flow
| _, [] => []
| dp, event :: events =>
    (dp.creation env event).toList ++
      creations env (dp.step env event) events

theorem creations_append
    (early late : List Event) :
    creations env dp (early ++ late) =
      creations env dp early ++
        creations env (dp.run env early) late := by
  induction early generalizing dp with
  | nil => rfl
  | cons event early ih =>
      have hRun :
          dp.run env (event :: early) =
            (dp.step env event).run env early := rfl
      rw [List.cons_append, creations, ih, hRun, creations,
        List.append_assoc]

theorem creations_singleton
    (event : Event) :
    creations env dp [event] =
      (dp.creation env event).toList := by
  simp [creations]

/- The same flow, perhaps used or re-aimed since. -/
def SameFlow
    (old new : Flow) : Prop :=
  new.id = old.id ∧ new.client = old.client

/-
  One step of the flow table.  A created flow gets the next
  id; every other flow was there before, in the same slot.
-/
structure Generation
    (before after : FlowTable)
    (created : Option Flow) : Prop where
  capacity : after.capacity = before.capacity
  nextId :
    after.nextId =
      if created.isSome then (before.nextId + 1) % 2 ^ 64
      else before.nextId
  id :
    ∀ flow, created = some flow → flow.id = before.nextId
  flows :
    ∀ s new, after.flows s = some new →
      (∃ old, before.flows s = some old ∧ SameFlow old new) ∨
      (∃ flow, created = some flow ∧ SameFlow flow new)

theorem Generation.shrinks
    {events : List FlowEvent}
    (hShrinks : FlowTable.Shrinks before after events) :
    Generation before after none where
  capacity := hShrinks.capacity
  nextId := hShrinks.nextId
  id := fun _ h => nomatch h
  flows := fun _ new hNew =>
    Or.inl ⟨new, hShrinks.flow hNew, rfl, rfl⟩

theorem Generation.setFlow
    {slot : Nat}
    (new : Flow)
    (hFlow : table.flows slot = some flow)
    (hSame : SameFlow flow new) :
    Generation table (table.setFlow slot new) none where
  capacity := rfl
  nextId := rfl
  id := fun _ h => nomatch h
  flows := by
    intro s other hOther
    left
    rcases fill_eq_some hOther with ⟨hEq, hNew⟩ | ⟨_, hOld⟩
    · subst hEq
      subst hNew
      exact ⟨flow, hFlow, hSame⟩
    · exact ⟨other, hOld, rfl, rfl⟩

/- A flow is written to the room that was made for it. -/
theorem Generation.inserted
    {base : FlowTable}
    {p : Nat}
    {rest : List Nat}
    (hCapacity : base.capacity = before.capacity)
    (hNextId : base.nextId = before.nextId)
    (hOld :
      ∀ t old, base.flows t = some old →
        before.flows t = some old)
    (hId : flow.id = before.nextId) :
    Generation before (base.inserted flow s p rest)
      (some flow) where
  capacity := hCapacity
  nextId := by
    simp only [FlowTable.inserted, hNextId,
      Option.isSome_some, if_true]
  id := by
    intro other hOther
    cases hOther
    exact hId
  flows := by
    intro t new hNew
    rcases fill_eq_some hNew with ⟨_, hEq⟩ | ⟨_, hKept⟩
    · rw [hEq]
      exact Or.inr ⟨flow, rfl, rfl, rfl⟩
    · exact Or.inl ⟨new, hOld t new hKept, rfl, rfl⟩

/- Flows may be closed before and after the opening. -/
theorem Generation.ofRoom
    {before middle base : FlowTable}
    {first second : List FlowEvent}
    {client backend : Sockaddr}
    {fd now : Int}
    {s p : Nat}
    {rest : List Nat}
    (hFirst : FlowTable.Shrinks before middle first)
    (hSecond : FlowTable.Shrinks middle base second) :
    Generation before
      (base.inserted (base.newFlow client backend fd now) s p
        rest)
      (some (base.newFlow client backend fd now)) := by
  have hNextId := hSecond.nextId.trans hFirst.nextId
  have hOld (t : Nat) (old : Flow)
      (hFlow : base.flows t = some old) :
      before.flows t = some old :=
    hFirst.flow (hSecond.flow hFlow)
  exact Generation.inserted
    (hSecond.capacity.trans hFirst.capacity) hNextId hOld
    hNextId

theorem Generation.removed
    {middle : FlowTable}
    {created : Option Flow}
    (hGeneration : Generation before middle created)
    (hRemoved : FlowTable.RemovedAt middle s after) :
    Generation before after created where
  capacity := hRemoved.capacity.trans hGeneration.capacity
  nextId := hRemoved.nextId.trans hGeneration.nextId
  id := hGeneration.id
  flows := by
    intro t new hNew
    rw [hRemoved.flows] at hNew
    exact hGeneration.flows t new (vacate_eq_some hNew).2

theorem flowAcquire_generation
    (client backend : Sockaddr)
    (now : Int)
    (hInv : dp.flows.Inv env.hash) :
    Generation dp.flows
      (dp.flowAcquire env client backend now).2.flows
      (dp.createdFlow env client backend now) := by
  unfold flowAcquire createdFlow
  cases hGet : dp.flows.get env.hash client with
  | some slot =>
      rcases (FlowTable.get_eq_some hInv).mp hGet with
        ⟨_, _, flow, hFlow, _⟩
      simp only [hFlow]
      exact Generation.setFlow (reaim flow backend now)
        hFlow ⟨rfl, rfl⟩
  | none =>
      have hOpen :=
        flowSocketOpen_cases dp backend.storage.ssFamily hInv
      generalize
        dp.flowSocketOpen env backend.storage.ssFamily =
          opening at hOpen ⊢
      cases hOpen with
      | failed flows events answers hAfter hShrinks =>
          exact Generation.shrinks hShrinks
      | opened fd flows events answers hAfter hShrinks
          hAnswer hFresh =>
          dsimp only
          cases hPut :
              FlowTable.putValid client backend fd with
          | false =>
              rw [FlowTable.put_refused hPut]
              exact Generation.shrinks hShrinks
          | true =>
              have hAbsent :=
                get_none_absent hInv
                  (FlowTable.valid_of_putValid hPut) hGet
              rcases @FlowTable.put_absent env.hash flows
                  client backend fd now hAfter hPut
                  (hShrinks.absent hAbsent) with
                ⟨base, second, s, p, rest, hStored, hRoom,
                  hTop, _, hNew⟩
              have hCell :
                  (base.inserted
                    (base.newFlow client backend fd now)
                    s p rest).flows s =
                    some (base.newFlow client backend fd
                      now) :=
                fill_self _ _ _
              have hGeneration :=
                @Generation.ofRoom dp.flows flows base events
                  second client backend fd now s p rest
                  hShrinks (hRoom.spec hAfter).2.1
              rw [hStored]
              by_cases hEpoll : answers.epollAdd = true
              · simp only [withFlows, hEpoll, if_true,
                  Option.bind_some, hCell]
                exact hGeneration
              · rcases FlowTable.removeSlot_spec .removed
                    hNew hTop hCell with
                  ⟨_, hRemoved, _⟩
                have hRemove :
                    (base.inserted
                      (base.newFlow client backend fd now)
                      s p rest).remove env.hash s =
                      (base.inserted
                        (base.newFlow client backend fd now)
                        s p rest).removeSlot env.hash s
                          .removed :=
                  if_pos hTop
                simp only [withFlows, hEpoll,
                  Option.bind_some, hCell, hRemove]
                exact hGeneration.removed hRemoved

theorem step_generation
    (event : Event)
    (hTables : Tables env dp) :
    Generation dp.flows (dp.step env event).flows
      (dp.creation env event) := by
  have hSame : Generation dp.flows dp.flows none :=
    Generation.shrinks (FlowTable.Shrinks.refl dp.flows)
  cases event with
  | client datagram source answers =>
      have hAsked : Tables env (dp.withAnswers answers) :=
        ⟨hTables.sessions, hTables.flows⟩
      have hClientFlows :=
        client_flows datagram.packet source datagram.now
          hAsked
      unfold creation
      dsimp only
      generalize
        (dp.withAnswers answers).chosenBackend env
          datagram.packet source datagram.now = chosen
        at hClientFlows ⊢
      show Generation dp.flows
        ((dp.withAnswers answers).handleClientPacket env
          datagram.packet source datagram.now).flows _
      generalize
        ((dp.withAnswers answers).handleClientPacket env
          datagram.packet source datagram.now).flows =
          flows at hClientFlows ⊢
      cases hClientFlows with
      | same => exact hSame
      | fast slot flow hSlot hFlow hClient =>
          exact Generation.setFlow _ hFlow ⟨rfl, rfl⟩
      | acquired backend =>
          exact flowAcquire_generation source backend
            datagram.now hAsked.flows
  | backend slot datagram answers =>
      rw [step_backend]
      unfold handleBackendPacket
      cases hSlot :
          (dp.withAnswers answers).flows.slot slot with
      | none => exact hSame
      | some flow =>
          dsimp only
          rw [(enqueue_frame _ _).flows]
          exact Generation.setFlow _
            (FlowTable.slot_eq_some hSlot).2 ⟨rfl, rfl⟩
  | flush answers => exact hSame
  | sweep now =>
      exact Generation.shrinks
        (FlowTable.expireLoop_spec _ _ _ hTables.flows).2
  | reload file resolver =>
      rw [step_reload]
      unfold reloadFromPath
      cases loadResolved env.hash file resolver with
      | error status => exact hSame
      | ok config =>
          exact Generation.shrinks
            (FlowTable.evictIf_spec _ hTables.flows).2.1

variable {start dp : Dataplane}

/-
  The flows created so far are numbered from one, and the
  live flows are among them.
-/
structure Numbered
    (created : List Flow)
    (table : FlowTable) : Prop where
  ids :
    created.map Flow.id = List.range' 1 created.length
  nextId : table.nextId = created.length + 1
  live :
    ∀ s flow, table.flows s = some flow →
      ∃ first ∈ created, SameFlow first flow

/- An id below the next one is the id of one flow. -/
theorem Numbered.id_bounds
    (hNumbered : Numbered created table)
    (hMem : flow ∈ created) :
    1 ≤ flow.id ∧ flow.id < table.nextId := by
  have hId : flow.id ∈ created.map Flow.id :=
    List.mem_map_of_mem hMem
  rw [hNumbered.ids, List.mem_range'_1] at hId
  rw [hNumbered.nextId]
  omega

theorem Numbered.live_bounds
    (hNumbered : Numbered created table)
    (hLive : table.flows s = some flow) :
    1 ≤ flow.id ∧ flow.id < table.nextId := by
  rcases hNumbered.live s flow hLive with ⟨first, hMem, hSame⟩
  rw [hSame.1]
  exact hNumbered.id_bounds hMem

theorem Numbered.step
    {flows : List Flow}
    {before after : FlowTable}
    {created : Option Flow}
    (hNumbered : Numbered flows before)
    (hGeneration : Generation before after created)
    (hBound : (flows ++ created.toList).length < 2 ^ 64 - 1) :
    Numbered (flows ++ created.toList) after := by
  have hNext := hGeneration.nextId
  rw [hNumbered.nextId] at hNext
  have hLive :
      ∀ s flow, after.flows s = some flow →
        ∃ first ∈ flows ++ created.toList,
          SameFlow first flow := by
    intro s flow hFlow
    rcases hGeneration.flows s flow hFlow with
      ⟨old, hOld, hSame⟩ | ⟨new, hNew, hSame⟩
    · rcases hNumbered.live s old hOld with
        ⟨first, hMem, hFirst⟩
      exact ⟨first, List.mem_append_left _ hMem,
        hSame.1.trans hFirst.1, hSame.2.trans hFirst.2⟩
    · refine ⟨new, List.mem_append_right _ ?_, hSame⟩
      rw [hNew]
      exact List.mem_singleton_self new
  cases created with
  | none =>
      simp only [Option.toList_none, List.append_nil]
        at hLive ⊢
      exact ⟨hNumbered.ids, hNext, hLive⟩
  | some flow =>
      have hId := hGeneration.id flow rfl
      simp only [Option.toList_some, List.length_append,
        List.length_singleton] at hBound
      simp only [Option.isSome_some, if_true] at hNext
      refine ⟨?_, ?_, hLive⟩
      · simp only [Option.toList_some, List.map_append,
          List.map_cons, List.map_nil, List.length_append,
          List.length_singleton]
        rw [List.range'_1_concat, hNumbered.ids, hId,
          hNumbered.nextId, Nat.add_comm]
      · simp only [Option.toList_some, List.length_append,
          List.length_singleton]
        omega

theorem run_numbered
    (hStarts : Starts env start)
    (events : List Event)
    (hBound :
      (creations env start events).length < 2 ^ 64 - 1) :
    Numbered (creations env start events)
      (start.run env events).flows := by
  revert hBound
  apply @run_induction env start
    (fun events dp =>
      (creations env start events).length < 2 ^ 64 - 1 →
        Numbered (creations env start events) dp.flows)
  · intro _
    have hInit := hStarts.started.flows
    refine ⟨rfl, ?_, ?_⟩
    · exact (FlowTable.init_fresh hInit).2
    · intro s flow hFlow
      rw [hStarts.no_flows s] at hFlow
      cases hFlow
  · intro events event ih hBound
    rw [creations_append, creations_singleton]
      at hBound ⊢
    have hReach : Reachable env (start.run env events) :=
      reachable_run events (ReachableWhere.start hStarts)
    refine (ih ?_).step
      (step_generation event hReach.tables) hBound
    rw [List.length_append] at hBound
    omega

/- Ids are given out in order. -/
theorem nextId_le
    (hStarts : Starts env start)
    (early late : List Event)
    (hBound :
      (creations env start (early ++ late)).length <
        2 ^ 64 - 1) :
    (start.run env early).flows.nextId ≤
      (start.run env (early ++ late)).flows.nextId := by
  rw [(run_numbered hStarts (early ++ late) hBound).nextId]
  rw [creations_append, List.length_append] at hBound ⊢
  rw [(run_numbered hStarts early (by omega)).nextId]
  omega

/-
  Looking back: a flow that is live now was live in the same
  slot in every earlier state that had already given out its
  id.
-/
theorem live_before
    (hStarts : Starts env start)
    (early late : List Event)
    (hBound :
      (creations env start (early ++ late)).length <
        2 ^ 64 - 1)
    (hLive :
      (start.run env (early ++ late)).flows.flows s =
        some flow)
    (hGiven : flow.id < (start.run env early).flows.nextId) :
    ∃ old, (start.run env early).flows.flows s = some old ∧
      SameFlow old flow := by
  induction late using List.reverseRecOn
      generalizing flow with
  | nil =>
      rw [List.append_nil] at hLive
      exact ⟨flow, hLive, rfl, rfl⟩
  | append_singleton late event ih =>
      rw [← List.append_assoc] at hBound hLive
      have hRun :
          start.run env (early ++ late ++ [event]) =
            (start.run env (early ++ late)).step env
              event := by
        simp [run]
      have hShort :
          (creations env start (early ++ late)).length <
            2 ^ 64 - 1 := by
        rw [creations_append, List.length_append] at hBound
        omega
      have hReach :
          Reachable env (start.run env (early ++ late)) :=
        reachable_run _ (ReachableWhere.start hStarts)
      have hGeneration := step_generation event hReach.tables
      rw [hRun] at hLive
      rcases hGeneration.flows s flow hLive with
        ⟨old, hOld, hSame⟩ | ⟨new, hNew, hSame⟩
      · rw [hSame.1] at hGiven
        rcases ih hShort hOld hGiven with
          ⟨first, hFirst, hSame'⟩
        exact ⟨first, hFirst, hSame.1.trans hSame'.1,
          hSame.2.trans hSame'.2⟩
      · -- a new flow has an id that was not given out
        have hLe := nextId_le hStarts early late hShort
        rw [hSame.1, hGeneration.id new hNew] at hGiven
        omega

end Dataplane

------------------------------------------------------------
-- Owners
------------------------------------------------------------

/- A key, and the flow that owns its entry. -/
@[ext] structure Ownership where
  key : SessionKey
  slot : Nat
  flowId : Nat

/- Which flow an entry belongs to. -/
def Session.ownership
    (session : Session) : Ownership where
  key := session.key
  slot := session.ownerSlot
  flowId := session.ownerFlowId

/- A put that writes this ownership. -/
def PutArgs.Gives
    (args : PutArgs)
    (owner : Ownership) : Prop :=
  owner.key.equals args.key = true ∧
    args.ownerSlot = owner.slot ∧
    args.ownerFlowId = owner.flowId

theorem SessionTable.Renewed.ownership
    {old new : Session}
    (hRenewed : SessionTable.Renewed old new) :
    new.ownership = old.ownership :=
  Ownership.ext hRenewed.key hRenewed.ownerSlot
    hRenewed.ownerFlowId

namespace SessionTable

/- The table has an entry of this key with this owner. -/
def HasOwner
    (table : SessionTable)
    (owner : Ownership) : Prop :=
  ∃ s, Holds table.capacity table.sessions s ∧
    s.ownership = owner

end SessionTable

namespace Dataplane

variable {env : Env} {start dp : Dataplane} {event : Event}

/- The event gives the key an owner it did not have. -/
structure OwnerSet
    (env : Env)
    (dp : Dataplane)
    (event : Event)
    (owner : Ownership) : Prop where
  before : ¬ dp.sessions.HasOwner owner
  put : ∃ args, StepPut env dp args event ∧ args.Gives owner
  after : (dp.step env event).sessions.HasOwner owner

/- An owner was there before the event, or is put by it. -/
def OwnerFrom
    (env : Env)
    (dp : Dataplane)
    (event : Event)
    (owner : Ownership) : Prop :=
  owner.flowId ≠ 0 → dp.sessions.HasOwner owner ∨
    ∃ args, StepPut env dp args event ∧ args.Gives owner

/- All owners of a table come from before or from a put. -/
def OwnersFrom
    (env : Env)
    (dp : Dataplane)
    (event : Event)
    (table : SessionTable) : Prop :=
  table.Entries (fun s => OwnerFrom env dp event s.ownership)

/- A put of the event names its own owner or none. -/
theorem step_ownersFrom
    (event : Event)
    (hTables : Tables env dp)
    (hKeyed : dp.pending.Every PendingInitial.Keyed) :
    OwnersFrom env dp event (dp.step env event).sessions := by
  refine step_entries_induction event ?_ ?_ ?_ hTables
    hKeyed ?_
  · intro old new hRenewed hOld
    rw [hRenewed.ownership]
    exact hOld
  · intro table args hPut _ _
    exact Or.inr ⟨args, hPut, SessionKey.equals_refl _, rfl,
      rfl⟩
  · intro table args old hPut _ hOld hKey
    by_cases hOwned : args.ownerFlowId ≠ 0
    · intro _
      refine Or.inr ⟨args, hPut, hKey, ?_, ?_⟩
      · simp only [SessionTable.refresh, Session.ownership,
          if_pos hOwned]
      · simp only [SessionTable.refresh, Session.ownership,
          if_pos hOwned]
    · have hSame :
          (SessionTable.refresh old
            ((table.makeRoom env.hash args).backendOf args)
            args).ownership = old.ownership := by
        simp only [SessionTable.refresh, Session.ownership,
          if_neg hOwned]
      rw [hSame]
      exact hOld
  · intro s hHolds _
    exact Or.inl ⟨s, hHolds, rfl⟩

/- The flow that is passed as owner is live. -/
theorem StepPut.live
    {args : PutArgs}
    (hPut : StepPut env dp args event)
    (hOwned : args.ownerFlowId ≠ 0) :
    ∃ flow,
      (dp.step env event).flows.flows args.ownerSlot =
        some flow ∧
      flow.id = args.ownerFlowId := by
  cases event with
  | client datagram source answers =>
      cases hPut with
      | bound backend => exact absurd rfl hOwned
      | tuple backend slot flow hHolder =>
          exact ⟨flow, hHolder.stored, rfl⟩
      | learned key dest destLen slot flow hKey hHolder =>
          exact ⟨flow, hHolder.stored, rfl⟩
  | backend slot datagram answers =>
      rcases hPut with ⟨flow, hSlot, hBackendPut⟩
      have hAsked :
          (dp.withAnswers answers).flows.slot slot =
            some flow := hSlot
      cases hBackendPut with
      | learned key hKey =>
          refine ⟨{ flow with lastSeen := datagram.now },
            ?_, rfl⟩
          rw [step_backend]
          unfold handleBackendPacket
          rw [hAsked]
          dsimp only
          rw [(enqueue_frame _ _).flows]
          exact fill_self _ _ _
  | flush answers => exact hPut.elim
  | sweep now => exact hPut.elim
  | reload file resolver => exact hPut.elim

/-
  The event of a run that set this owner, and the owner in
  every state since.
-/
structure OwnedSince
    (env : Env)
    (start : Dataplane)
    (owner : Ownership)
    (before : List Event)
    (event : Event)
    (after : List Event) : Prop where
  set : OwnerSet env (start.run env before) event owner
  since :
    ∀ part, part <+: after →
      (start.run env
        (before ++ event :: part)).sessions.HasOwner owner

theorem run_ownedSince
    (hStarts : Starts env start)
    (events : List Event)
    (owner : Ownership)
    (hOwner : (start.run env events).sessions.HasOwner owner)
    (hOwned : owner.flowId ≠ 0) :
    ∃ before event after,
      events = before ++ event :: after ∧
        OwnedSince env start owner before event after := by
  revert hOwner
  apply @run_induction env start
    (fun events dp =>
      dp.sessions.HasOwner owner →
        ∃ before event after,
          events = before ++ event :: after ∧
            OwnedSince env start owner before event after)
  · rintro ⟨s, ⟨i, hi, hCell⟩, _⟩
    rw [hStarts.no_sessions i] at hCell
    cases hCell
  · intro events event ih hAfter
    have hRun :
        start.run env (events ++ [event]) =
          (start.run env events).step env event := by
      simp [run]
    by_cases hBefore :
        (start.run env events).sessions.HasOwner owner
    · -- set earlier: one more state with this owner
      rcases ih hBefore with
        ⟨before, first, after, hEvents, hSet, hSince⟩
      refine ⟨before, first, after ++ [event], ?_, hSet, ?_⟩
      · rw [hEvents, List.append_assoc, List.cons_append]
      · intro part hPart
        rcases List.prefix_concat_iff.mp hPart with
          hEq | hPart
        · rw [hEq, ← List.cons_append, ← List.append_assoc,
            ← hEvents, hRun]
          exact hAfter
        · exact hSince part hPart
    · -- set by this event
      have hReach : Reachable env (start.run env events) :=
        reachable_run events (ReachableWhere.start hStarts)
      rcases hAfter with ⟨s, hHolds, hSame⟩
      have hFrom :
          OwnerFrom env (start.run env events) event
            s.ownership :=
        step_ownersFrom event hReach.tables
          (hReach.every PendingInitial.kept_keyed) s hHolds
      rw [hSame] at hFrom
      rcases hFrom hOwned with hHas | hPut
      · exact absurd hHas hBefore
      · refine ⟨events, event, [], rfl,
          ⟨hBefore, hPut, s, hHolds, hSame⟩, ?_⟩
        intro part hPart
        rw [List.prefix_nil.mp hPart, hRun]
        exact ⟨s, hHolds, hSame⟩

/- An owned entry is kept alive by the owning flow. -/
theorem sessionKeepalive_owned
    {hash : Bytes → Nat}
    {flows : FlowTable}
    {now idle : Int}
    {session : Session}
    (hOwned : session.ownerFlowId ≠ 0) :
    sessionKeepalive hash flows now idle session = true ↔
      ∃ flow, flows.slot session.ownerSlot = some flow ∧
        flow.id = session.ownerFlowId ∧
        now - flow.lastSeen < idle := by
  unfold sessionKeepalive
  simp only [if_pos hOwned]
  cases hSlot : flows.slot session.ownerSlot with
  | none => simp
  | some flow =>
      by_cases hId : flow.id = session.ownerFlowId
      · simp [Option.filter, hId]
      · simp [Option.filter, hId]

/-
  The owning flow in every state since the owner was set: it
  is the flow that was created under that id.
-/
theorem OwnedSince.live
    {owner : Ownership}
    {before after part : List Event}
    {flow : Flow}
    (hStarts : Starts env start)
    (hBound :
      (creations env start
        (before ++ event :: after)).length < 2 ^ 64 - 1)
    (hSince : OwnedSince env start owner before event after)
    (hOwned : owner.flowId ≠ 0)
    (hLive :
      (start.run env
        (before ++ event :: after)).flows.flows owner.slot =
        some flow)
    (hId : flow.id = owner.flowId)
    (hPart : part <+: after) :
    ∃ old,
      (start.run env
        (before ++ event :: part)).flows.flows owner.slot =
        some old ∧
      SameFlow old flow := by
  rcases hPart with ⟨rest, hRest⟩
  have hSplit :
      before ++ event :: after =
        (before ++ event :: part) ++ rest := by
    rw [← hRest, List.append_assoc, List.cons_append]
  rw [hSplit] at hBound hLive
  refine live_before hStarts _ rest hBound hLive ?_
  rw [creations_append, List.length_append] at hBound
  -- the id had been given out when the owner was set
  have hFirst :
      before ++ event :: part =
        (before ++ [event]) ++ part := by
    rw [List.append_assoc, List.singleton_append]
  rcases hSince.set.put with ⟨args, hPut, _, hSlot, hFlowId⟩
  rw [← hFlowId] at hOwned
  rcases StepPut.live hPut hOwned with
    ⟨passed, hPassed, hPassedId⟩
  have hRun :
      start.run env (before ++ [event]) =
        (start.run env before).step env event := by
    simp [run]
  rw [← hRun] at hPassed
  have hShort :
      (creations env start
        (before ++ event :: part)).length < 2 ^ 64 - 1 := by
    omega
  rw [hFirst] at hShort ⊢
  have hLe := nextId_le hStarts _ part hShort
  rw [creations_append, List.length_append] at hShort
  have hGiven :=
    (run_numbered hStarts (before ++ [event])
      (by omega)).live_bounds hPassed
  omega

/-
  In every run with fewer than 2 ^ 64 - 1 flow creations no
  two created flows have the same id and no live flow has id
  zero.  An owned entry that is kept alive has a last event
  that set its owner; the flow passed there has been live in
  its slot ever since, is the one that was created under its
  id, and was active within the timeout.
-/
theorem keepalive_by_owner
    (env : Env)
    (start : Dataplane)
    (events : List Event)
    (hStarts : Starts env start)
    (hBound :
      (creations env start events).length < 2 ^ 64 - 1) :
    let dp := start.run env events
    ((creations env start events).map Flow.id).Nodup ∧
    (∀ slot flow, dp.flows.flows slot = some flow →
      flow.id ≠ 0) ∧
    (∀ i < dp.sessions.capacity, ∀ session,
      dp.sessions.sessions i = some session →
      session.ownerFlowId ≠ 0 →
      ∀ now idle,
        sessionKeepalive env.hash dp.flows now idle
          session = true →
        ∃ before event after,
          events = before ++ event :: after ∧
          OwnedSince env start session.ownership before
            event after ∧
          ∃ created ∈ creations env start events,
            created.id = session.ownerFlowId ∧
            (∀ part, part <+: after →
              ∃ flow,
                (start.run env
                  (before ++ event :: part)).flows.flows
                    session.ownerSlot = some flow ∧
                SameFlow created flow) ∧
            ∃ flow,
              dp.flows.flows session.ownerSlot = some flow ∧
              SameFlow created flow ∧
              now - flow.lastSeen < idle) := by
  intro dp
  have hNumbered := run_numbered hStarts events hBound
  refine ⟨?_, ?_, ?_⟩
  · rw [hNumbered.ids]
    exact List.nodup_range'
  · intro slot flow hFlow
    have hBounds := hNumbered.live_bounds hFlow
    omega
  · intro i hi session hCell hOwned now idle hKept
    rcases (sessionKeepalive_owned hOwned).mp hKept with
      ⟨flow, hSlot, hId, hActive⟩
    rcases FlowTable.slot_eq_some hSlot with ⟨hLt, hFlow⟩
    rcases hNumbered.live _ flow hFlow with
      ⟨created, hMem, hSame⟩
    rcases run_ownedSince hStarts events session.ownership
        ⟨session, ⟨i, hi, hCell⟩, rfl⟩ hOwned with
      ⟨before, event, after, hEvents, hSince⟩
    refine ⟨before, event, after, hEvents, hSince, created,
      hMem, hSame.1.symm.trans hId, ?_, flow, hFlow, hSame,
      hActive⟩
    intro part hPart
    subst hEvents
    rcases hSince.live hStarts hBound hOwned hFlow hId
        hPart with
      ⟨old, hOld, hLater⟩
    exact ⟨old, hOld, hLater.1.symm.trans hSame.1,
      hLater.2.symm.trans hSame.2⟩

end Dataplane

namespace Deployment

open Dataplane

/- Two clients in turn send to the same encoded id. -/
def sharedIdRun : List Event :=
  [.client (datagram 1) (client 4) (opens 5),
    .client (datagram 1) (client 6) (opens 6)]

/- The state after both of them. -/
def sharedIdState : Dataplane :=
  fourSlots.run env sharedIdRun

/- The entry of the id is kept alive by the second flow. -/
theorem second_flow_keeps_entry :
    (creations env fourSlots sharedIdRun).map Flow.id =
      [1, 2] ∧
    ∃ session,
      sharedIdState.sessions.sessions 1 = some session ∧
      session.ownerFlowId = 2 ∧
      ∃ before event after,
        sharedIdRun = before ++ event :: after ∧
        OwnedSince env fourSlots session.ownership before
          event after := by
  have hIds :
      (creations env fourSlots sharedIdRun).map Flow.id =
        [1, 2] := by
    decide +kernel
  have hBound :
      (creations env fourSlots sharedIdRun).length <
        2 ^ 64 - 1 := by
    have hLen := congrArg List.length hIds
    rw [List.length_map] at hLen
    rw [hLen]
    decide
  have hEntry :
      (sharedIdState.sessions.sessions 1).map
          (fun s =>
            decide (s.ownerFlowId = 2 ∧
              sessionKeepalive env.hash sharedIdState.flows
                5 60 s = true)) =
        some true := by
    decide +kernel
  have hSlot : 1 < sharedIdState.sessions.capacity := by
    decide +kernel
  rcases Option.map_eq_some_iff.mp hEntry with
    ⟨session, hCell, hDecided⟩
  rcases of_decide_eq_true hDecided with ⟨hOwner, hKept⟩
  have hOwned : session.ownerFlowId ≠ 0 := by
    rw [hOwner]
    decide
  have hAll :=
    keepalive_by_owner env fourSlots sharedIdRun
      (starts_okValue _ _) hBound
  refine ⟨hIds, session, hCell, hOwner, ?_⟩
  unfold sharedIdState at hSlot hCell hKept
  rcases hAll.2.2 1 hSlot session hCell hOwned 5 60 hKept with
    ⟨before, event, after, hEvents, hSince, _⟩
  exact ⟨before, event, after, hEvents, hSince⟩

end Deployment

end QuicSniRouter
