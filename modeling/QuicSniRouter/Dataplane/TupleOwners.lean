import QuicSniRouter.Dataplane.Agreement
import QuicSniRouter.Dataplane.Generations

/-
  The owner of a client's tuple entry.  A connection that is
  routed by its name gives its tuple entry the flow it has
  just acquired; a flow that is created for a session later
  does not, and the entry goes on naming the flow that was.

  Main declarations:
    * `Dataplane.OwnerRenewed`
    * `Dataplane.OwnerCurrent`
    * `Dataplane.active_tuple_kept`
-/

------------------------------------------------------------
-- Where A Live Flow Comes From
------------------------------------------------------------

namespace QuicSniRouter

open LinearProbing SessionTable SessionKey

namespace Dataplane

variable {env : Env} {dp after : Dataplane} {packet : Bytes}
variable {source : Sockaddr} {now : Int}

/- A flow that was created for a client, and is live. -/
structure NewFlow
    (hash : Bytes → Nat)
    (flows : FlowTable)
    (client : Sockaddr)
    (flow : Flow) : Prop where
  absent : flows.get hash client = none
  client : flow.client = client
  id : flow.id = flows.nextId

theorem Acquired.live
    {hash : Bytes → Nat}
    {backend : Sockaddr}
    {result : Option Nat × Dataplane}
    {slot : Nat}
    {flow : Flow}
    (hAcquired : Acquired hash dp source backend now result)
    (hLive : result.2.flows.flows slot = some flow) :
    (∃ old, dp.flows.flows slot = some old ∧
      SameFlow old flow) ∨
    (NewFlow hash dp.flows source flow ∧
      result.1 = some slot ∧ source.valid = true) := by
  cases hAcquired with
  | reaimed s old hSlot hOld hClient hGet =>
      left
      rcases fill_eq_some hLive with ⟨hEq, hNew⟩ | ⟨_, hSame⟩
      · subst hEq
        subst hNew
        exact ⟨old, hOld, rfl, rfl⟩
      · exact ⟨flow, hSame, rfl, rfl⟩
  | failed flows events answers hInv hShrinks =>
      exact Or.inl ⟨flow, hShrinks.flow hLive, rfl, rfl⟩
  | dropped base flows events answers fd s p rest hInv
      hShrinks hBase hRemoved =>
      left
      rw [hRemoved.flows] at hLive
      rcases vacate_eq_some hLive with ⟨hNe, hKept⟩
      rcases fill_eq_some hKept with ⟨hEq, _⟩ | ⟨_, hOld⟩
      · exact absurd hEq hNe
      · exact ⟨flow, hShrinks.flow hOld, rfl, rfl⟩
  | created middle base first second answers fd s p rest
      hValid hAbsent hFirst hSecond hSlot hBase hInv hAnswer
      hFresh hGet hLoses =>
      rcases fill_eq_some hLive with ⟨hEq, hNew⟩ | ⟨_, hOld⟩
      · right
        subst hEq
        subst hNew
        exact ⟨⟨hGet, rfl,
          hSecond.nextId.trans hFirst.nextId⟩, rfl,
          FlowTable.valid_of_putValid hValid⟩
      · exact Or.inl
          ⟨flow, hFirst.flow (hSecond.flow hOld), rfl, rfl⟩

end Dataplane

/- The tuple entry of a client, if any, has this owner. -/
def SessionTable.TupleOwner
    (client : Sockaddr)
    (slot flowId : Nat)
    (table : SessionTable) : Prop :=
  table.EntryOf (tupleKey client)
    (fun s => s.ownerSlot = slot ∧ s.ownerFlowId = flowId)

namespace Dataplane

variable {env : Env} {dp after : Dataplane} {packet : Bytes}
variable {source : Sockaddr} {now : Int} {hash : Bytes → Nat}
variable {table sessions : SessionTable}
variable {backend client : Sockaddr} {slot flowId : Nat}
variable {flow : Flow} {event : Event} {args : PutArgs}
variable {idle : Int}

/- The put of a tuple leaves its own owner there. -/
theorem putInternal_tuple
    (hInv : table.Inv hash)
    (hOwned : flowId ≠ 0)
    (hPut :
      putInternal hash 2 table
        (aliasArgs (tupleKey source)
          (.addr backend.storage) backend.len now slot
          flowId) = (.ok, sessions)) :
    sessions.TupleOwner source slot flowId := by
  by_cases hAccepts :
      table.Accepts
        (aliasArgs (tupleKey source)
          (.addr backend.storage) backend.len now slot
          flowId)
  · rcases putInternal_ok hInv hAccepts with
      ⟨stored, i, entry, hOk, hWrote⟩
    have hThin :=
      makeRoom_thinned
        (aliasArgs (tupleKey source)
          (.addr backend.storage) backend.len now slot
          flowId) hInv
    rw [hPut] at hOk
    cases hOk
    exact hWrote.entryOf hThin (equals_refl _)
      (hWrote.owner hOwned)
  · rw [putInternal_refused hash hAccepts]
      at hPut
    cases hPut

theorem installRoute_tupleOwner
    {cidKey : SessionKey}
    (hInv : sessions.Inv env.hash)
    (hValid : source.valid = true)
    (hTuple : cidKey.hasTuple = false)
    (hOwner : sessions.TupleOwner source slot flowId) :
    (installRoute env sessions packet cidKey backend now
      slot flowId).TupleOwner source slot flowId := by
  have hPut :
      ∀ table key dest destLen,
        (table.Inv env.hash ∧
          table.TupleOwner source slot flowId) →
        key.hasTuple = false →
          let after :=
            (putInternal env.hash 2 table
              (aliasArgs key dest destLen now slot flowId)).2
          after.Inv env.hash ∧
            after.TupleOwner source slot flowId :=
    fun table key dest destLen h hKey =>
      ⟨putInternal_inv env.hash _ h.1,
        h.2.putInternal _ h.1
          (not_equals_tupleKey hValid hKey)⟩
  have hAlias :=
    @putAlias_induction now env.hash
      (fun table =>
        table.Inv env.hash ∧
          table.TupleOwner source slot flowId)
      (.addr backend.storage) backend.len slot flowId
      sessions cidKey
      (hPut sessions cidKey _ _ ⟨hInv, hOwner⟩ hTuple)
      ⟨hInv, hOwner⟩
  have hBoth :=
    @learnClientLongHeaderCids_induction packet now env.hash
      (fun table =>
        table.Inv env.hash ∧
          table.TupleOwner source slot flowId)
      (.addr backend.storage) backend.len slot flowId
      (fun table key h hKey =>
        hPut table key _ _ h (learnedKeys_hasTuple hKey))
      _ hAlias
  exact hBoth.2

/- An SNI-routed backend is an IPv4 or IPv6 address. -/
def ValidRoute
    (env : Env)
    (dp : Dataplane)
    (packet : Bytes)
    (source : Sockaddr)
    (now : Int) : Prop :=
  ∀ backend,
    freshBackend env dp packet source now = some backend →
      backend.valid = true

/- A flow that a routed connection creates owns its tuple. -/
theorem Fresh.tupleOwner
    (hFresh : Fresh env dp packet source now after)
    (hTables : Tables env dp)
    (hKeyed : dp.pending.Every PendingInitial.Keyed)
    (hLive : after.flows.flows slot = some flow) :
    (∃ old, dp.flows.flows slot = some old ∧
      SameFlow old flow) ∨
    (NewFlow env.hash dp.flows source flow ∧
      (ValidRoute env dp packet source now →
        dp.flows.nextId ≠ 0 →
          after.sessions.TupleOwner source slot
            flow.id)) := by
  cases hFresh with
  | ignored => exact Or.inl ⟨flow, hLive, rfl, rfl⟩
  | buffered pending =>
      exact Or.inl ⟨flow, hLive, rfl, rfl⟩
  | noFlow pending backend _ hChosen hAcquire =>
      have hAcquired := Acquired.of_eq hAcquire hTables.flows
      rcases hAcquired.live hLive with
        hOld | ⟨_, hSlot, _⟩
      · exact Or.inl hOld
      · cases hSlot
  | notStored pending backend s reached hChosen hAcquire
      sessions status hStatus hPut =>
      have hAcquired := Acquired.of_eq hAcquire hTables.flows
      have hSessions := hAcquired.frame.sessions
      dsimp only at hSessions
      rw [hSessions] at hPut
      rcases hAcquired.live hLive with
        hOld | ⟨hNew, _, hValid⟩
      · exact Or.inl hOld
      · -- a valid client and backend are not refused
        refine Or.inr ⟨hNew, ?_⟩
        intro hRouted _
        exact absurd
          (tuple_stored hTables.sessions hValid
            (hRouted backend hChosen) hPut) hStatus
  | installed initial pending routed s reached sessions
      hSize hInitial hRoute hChosen hAcquire hPut =>
      have hAcquired := Acquired.of_eq hAcquire hTables.flows
      dsimp only at hLive ⊢
      rw [(sendAll_frame _ _ _ _ _).flows] at hLive
      rw [(sendAll_frame _ _ _ _ _).sessions]
      rcases hAcquired.live hLive with
        hOld | ⟨hNew, hSlot, hValid⟩
      · exact Or.inl hOld
      · refine Or.inr ⟨hNew, ?_⟩
        intro _ hOwned
        have hSame : s = slot := Option.some.inj hSlot
        subst hSame
        have hSessions := hAcquired.frame.sessions
        dsimp only at hSessions hLive ⊢
        have hId : reached.flowId s = flow.id := by
          unfold flowId
          rw [hLive]
        rw [hSessions, hId] at hPut
        rw [hId]
        have hStored :=
          putInternal_inv env.hash
            (aliasArgs (tupleKey source)
              (.addr routed.backend.storage)
              routed.backend.len now s flow.id)
            hTables.sessions
        rw [hPut] at hStored
        have hFlowId : flow.id ≠ 0 := by
          rw [hNew.id]
          exact hOwned
        refine installRoute_tupleOwner hStored hValid ?_
          (putInternal_tuple hTables.sessions hFlowId hPut)
        rw [routed_cidKey hKeyed hRoute]
        exact learnedKeys_hasTuple
          (initial_learnedKeys hInitial).2

------------------------------------------------------------
-- The Current Owner
------------------------------------------------------------

theorem Forwarded.live
    {i : Nat}
    (hForwarded : Forwarded env dp i packet source now after)
    (hTables : Tables env dp)
    (hLive : after.flows.flows slot = some flow) :
    (∃ old, dp.flows.flows slot = some old ∧
      SameFlow old flow) ∨
    NewFlow env.hash dp.flows source flow := by
  cases hForwarded with
  | noFlow _ hAcquire =>
      have hAcquired := Acquired.of_eq hAcquire hTables.flows
      rcases hAcquired.live hLive with hOld | ⟨hNew, _⟩
      · exact Or.inl hOld
      · exact Or.inr hNew
  | sent s reached hAcquire =>
      have hAcquired := Acquired.of_eq hAcquire hTables.flows
      unfold forward at hLive
      dsimp only at hLive
      rw [(enqueue_frame _ _).flows] at hLive
      rcases hAcquired.live hLive with hOld | ⟨hNew, _⟩
      · exact Or.inl hOld
      · exact Or.inr hNew

/-
  A flow that is live after a client datagram was live
  before, or is new; and if no session has answered for the
  datagram, a new flow owns the tuple entry.
-/
theorem client_live
    (hTables : Tables env dp)
    (hKeyed : dp.pending.Every PendingInitial.Keyed)
    (hLive :
      (dp.handleClientPacket env packet source
        now).flows.flows slot = some flow) :
    (∃ old, dp.flows.flows slot = some old ∧
      SameFlow old flow) ∨
    (NewFlow env.hash dp.flows source flow ∧
      ((selectSession env dp.config dp.sessions packet
          source now).1 = none →
        ValidRoute env dp packet source now →
        dp.flows.nextId ≠ 0 →
          (dp.handleClientPacket env packet source
            now).sessions.TupleOwner source slot
              flow.id)) := by
  have hHandled :=
    handleClientPacket_cases dp packet source now
      hTables.flows
  have hInv :=
    selectSession_inv dp.config packet source now
      hTables.sessions
  generalize
    dp.handleClientPacket env packet source now = after
    at hHandled hLive ⊢
  cases hHandled with
  | fast s old hCodec hShort hSlot hOld hClient =>
      left
      rw [(enqueue_frame _ _).flows] at hLive
      rcases fill_eq_some hLive with ⟨hEq, hNew⟩ | ⟨_, hSame⟩
      · subst hEq
        subst hNew
        exact ⟨old, hOld, rfl, rfl⟩
      · exact ⟨flow, hSame, rfl, rfl⟩
  | session i sessions _ hFast hSelect hForwarded =>
      rw [hSelect] at hInv
      rcases hForwarded.live ⟨hInv, hTables.flows⟩ hLive with
        hOld | hNew
      · exact Or.inl hOld
      · refine Or.inr ⟨hNew, ?_⟩
        intro hNone
        rw [hSelect] at hNone
        cases hNone
  | fresh sessions _ hFast hSelect hFresh =>
      rw [hSelect] at hInv
      rcases hFresh.tupleOwner ⟨hInv, hTables.flows⟩ hKeyed
          hLive with
        hOld | ⟨hNew, hOwner⟩
      · exact Or.inl hOld
      · exact Or.inr ⟨hNew, fun _ => hOwner⟩

/- The tuple entry of the client names an owner. -/
def TupleOwned
    (dp : Dataplane)
    (client : Sockaddr) : Prop :=
  ∃ s, Holds dp.sessions.capacity dp.sessions.sessions s ∧
    s.key.equals (tupleKey client) = true ∧
    s.ownerFlowId ≠ 0

/-
  When the flow of the client is gone while its tuple entry
  still names an owner, it comes back with a datagram that
  no session answers for.
-/
def OwnerRenewed
    (env : Env)
    (client : Sockaddr)
    (dp : Dataplane) :
    Event → Prop
| .client datagram source _ =>
    source.equals client = true →
    dp.flows.get env.hash source = none →
    dp.TupleOwned source →
      (selectSession env dp.config dp.sessions
        datagram.packet source datagram.now).1 = none ∧
      ValidRoute env dp datagram.packet source datagram.now ∧
      dp.flows.nextId ≠ 0
| _ => True

/- The owner of the client's tuple entry is its live flow. -/
def OwnerCurrent
    (client : Sockaddr)
    (dp : Dataplane) : Prop :=
  ∀ s slot flow,
    Holds dp.sessions.capacity dp.sessions.sessions s →
    s.ownerFlowId ≠ 0 →
    slot < dp.flows.capacity →
    dp.flows.flows slot = some flow →
    flow.client.equals client = true →
    s.key.equals (tupleKey flow.client) = true →
      s.ownerSlot = slot ∧ s.ownerFlowId = flow.id

/- A put of the tuple is for the live flow of the tuple. -/
theorem StepPut.current
    (hPut : StepPut env dp args event)
    (hOwned : args.ownerFlowId ≠ 0)
    (hTables : Tables env (dp.step env event))
    (hSlot : slot < (dp.step env event).flows.capacity)
    (hLive : (dp.step env event).flows.flows slot = some flow)
    (hKey : args.key.equals (tupleKey flow.client) = true) :
    args.ownerSlot = slot ∧ args.ownerFlowId = flow.id := by
  have hValid := hTables.flows.clients slot hSlot flow hLive
  have hNot :
      ∀ key : SessionKey, key.hasTuple = false →
        key.equals (tupleKey flow.client) = true → False := by
    intro key hTuple hEquals
    rw [not_equals_tupleKey hValid hTuple] at hEquals
    cases hEquals
  cases event with
  | client datagram source answers =>
      cases hPut with
      | bound backend => exact absurd rfl hOwned
      | tuple backend s holder hHolder =>
          have hHasTuple :=
            tupleKey_hasTuple_of_valid (tupleKey_valid hValid)
          have hSame :=
            equals_of_tupleKey (equals_symm hKey) hHasTuple
          have hClient :=
            Sockaddr.equals_trans hHolder.client
              (Sockaddr.equals_symm hSame)
          have hEq :=
            hTables.flows.slot_unique hHolder.slot_lt hSlot
              hHolder.stored hLive hClient
          subst hEq
          have hStored := hHolder.stored
          rw [hLive] at hStored
          cases hStored
          exact ⟨rfl, rfl⟩
      | learned key dest destLen s holder hMem hHolder =>
          exact (hNot key (learnedKeys_hasTuple hMem)
            hKey).elim
  | backend s datagram answers =>
      rcases hPut with ⟨holder, hHolder, hBackendPut⟩
      cases hBackendPut with
      | learned key hMem =>
          exact (hNot key (backendKeys_hasTuple hMem)
            hKey).elim
  | flush answers => exact hPut.elim
  | sweep now => exact hPut.elim
  | reload file resolver => exact hPut.elim

/- Flows are only created by client datagrams. -/
theorem step_live
    (event : Event)
    (hTables : Tables env dp)
    (hLive :
      (dp.step env event).flows.flows slot = some flow) :
    (∃ old, dp.flows.flows slot = some old ∧
      SameFlow old flow) ∨
    ∃ datagram source answers,
      event = .client datagram source answers := by
  rcases (step_generation event hTables).flows slot flow
      hLive with
    hOld | ⟨new, hNew, _⟩
  · exact Or.inl hOld
  · cases event with
    | client datagram source answers =>
        exact Or.inr ⟨datagram, source, answers, rfl⟩
    | backend => cases hNew
    | flush => cases hNew
    | sweep => cases hNew
    | reload => cases hNew

theorem step_ownerCurrent
    (event : Event)
    (hTables : Tables env dp)
    (hKeyed : dp.pending.Every PendingInitial.Keyed)
    (hRenewed : OwnerRenewed env client dp event)
    (hCurrent : dp.OwnerCurrent client) :
    (dp.step env event).OwnerCurrent client := by
  intro s slot flow hHolds hOwned hSlot hLive hFor hKey
  have hGeneration := step_generation event hTables
  have hBefore :
      ∀ old, dp.flows.flows slot = some old →
        SameFlow old flow →
        dp.sessions.HasOwner s.ownership →
          s.ownerSlot = slot ∧ s.ownerFlowId = flow.id := by
    rintro old hOld ⟨hId, hClient⟩
      ⟨first, hFirst, hSame⟩
    rw [hClient] at hFor
    have hFirstId : first.ownerFlowId = s.ownerFlowId :=
      congrArg Ownership.flowId hSame
    have hFirstSlot : first.ownerSlot = s.ownerSlot :=
      congrArg Ownership.slot hSame
    have hFirstKey : first.key = s.key :=
      congrArg Ownership.key hSame
    rw [hGeneration.capacity] at hSlot
    rw [hClient, ← hFirstKey] at hKey
    rw [← hFirstId] at hOwned
    rw [← hFirstId, ← hFirstSlot, hId]
    exact hCurrent first slot old hFirst hOwned hSlot hOld
      hFor hKey
  rcases step_ownersFrom event hTables hKeyed s hHolds
      hOwned with
    hHas | ⟨args, hPut, hArgs, hArgSlot, hArgId⟩
  · rcases step_live event hTables hLive with
      ⟨old, hOld, hSame⟩ | ⟨datagram, source, answers, hEq⟩
    · exact hBefore old hOld hSame hHas
    · subst hEq
      have hAsked : Tables env (dp.withAnswers answers) :=
        ⟨hTables.sessions, hTables.flows⟩
      rcases client_live hAsked hKeyed hLive with
        ⟨old, hOld, hSame⟩ | ⟨hNew, hOwner⟩
      · exact hBefore old hOld hSame hHas
      · -- a new flow for a client whose entry is owned
        rw [hNew.client] at hFor hKey
        rcases hHas with ⟨first, hFirst, hSame⟩
        have hFirstId : first.ownerFlowId = s.ownerFlowId :=
          congrArg Ownership.flowId hSame
        have hFirstKey : first.key = s.key :=
          congrArg Ownership.key hSame
        have hTupleOwned : dp.TupleOwned source := by
          refine ⟨first, hFirst, ?_, ?_⟩
          · rw [hFirstKey]
            exact hKey
          · rw [hFirstId]
            exact hOwned
        rcases hRenewed hFor hNew.absent hTupleOwned with
          ⟨hNone, hRoute, hNext⟩
        exact hOwner hNone hRoute hNext s hHolds hKey
  · have hArgOwned : args.ownerFlowId ≠ 0 := by
      rw [hArgId]
      exact hOwned
    have hArgKey := equals_trans (equals_symm hArgs) hKey
    rcases StepPut.current hPut hArgOwned
        (step_tables event hTables) hSlot hLive
        hArgKey with
      ⟨hSameSlot, hSameId⟩
    exact ⟨hArgSlot.symm.trans hSameSlot,
      hArgId.symm.trans hSameId⟩

------------------------------------------------------------
-- Sweeps
------------------------------------------------------------

variable {dp : Dataplane}

/- Tuple entries have a backend that can be put again. -/
def TuplesStorable
    (dp : Dataplane) : Prop :=
  dp.sessions.Entries
    (fun s => s.key.hasTuple = true → s.Storable)

/- A put of a tuple comes with the address itself. -/
theorem StepPut.backend_valid
    (hPut : StepPut env dp args event)
    (hTuple : args.key.hasTuple = true)
    (hAccepts : table.Accepts args) :
    ((table.makeRoom env.hash args).backendOf args).valid =
      true := by
  have hMiss :
      ∀ key : SessionKey, key.hasTuple = false →
        key.hasTuple = true → False := by
    intro key hFalse hTrue
    rw [hFalse] at hTrue
    cases hTrue
  cases event with
  | client datagram source answers =>
      cases hPut with
      | bound backend => exact hAccepts.2.2
      | tuple backend slot flow hHolder =>
          exact hAccepts.2.2
      | learned key dest destLen slot flow hKey hHolder =>
          exact (hMiss key (learnedKeys_hasTuple hKey)
            hTuple).elim
  | backend slot datagram answers =>
      rcases hPut with ⟨flow, _, hBackendPut⟩
      cases hBackendPut with
      | learned key hKey =>
          exact (hMiss key (backendKeys_hasTuple hKey)
            hTuple).elim
  | flush answers => exact hPut.elim
  | sweep now => exact hPut.elim
  | reload file resolver => exact hPut.elim

theorem step_tuplesStorable
    (event : Event)
    (hTables : Tables env dp)
    (hKeyed : dp.pending.Every PendingInitial.Keyed)
    (hStorable : dp.TuplesStorable) :
    (dp.step env event).TuplesStorable := by
  refine step_entries_induction event ?_ ?_ ?_ hTables
    hKeyed hStorable
  · intro old new hRenewed hOld hTuple
    rw [hRenewed.key] at hTuple
    exact hRenewed.storable (hOld hTuple)
  · intro table args hPut hAccepts hTuple
    exact ⟨hAccepts.2.1,
      StepPut.backend_valid hPut hTuple hAccepts⟩
  · intro table args old hPut hAccepts hOld hKey hTuple
    have hArgs : args.key.hasTuple = true := by
      rw [← (equals_iff.mp hKey).1]
      exact hTuple
    exact ⟨(hOld hTuple).1,
      StepPut.backend_valid hPut hArgs hAccepts⟩

/- The client of an entry with the tuple's key. -/
theorem key_client
    {key : SessionKey}
    (hValid : key.valid = true)
    (hEquals : key.equals (tupleKey client) = true)
    (hTuple : (tupleKey client).hasTuple = true) :
    key.client.valid = true ∧
      client.equals key.client = true := by
  rcases equals_iff.mp hEquals with
    ⟨hSame, _, hLen, _, _, hBytes, _⟩
  have hKeyTuple : key.hasTuple = true := by
    rw [hSame]
    exact hTuple
  have hFits := len_of_hasTuple hTuple
  have hBytes := hBytes hKeyTuple
  rw [tupleKey_client hFits] at hLen hBytes
  rw [Sockaddr.bytes_ofBytes hFits] at hBytes
  constructor
  · simp only [valid, hKeyTuple, Bool.and_eq_true] at hValid
    simpa using hValid.1.2
  · exact Sockaddr.equals_iff.mpr ⟨hLen.symm, hBytes.symm⟩

/- The entry of an active client passes the callback. -/
theorem sessionKeepalive_tuple
    {s : Session}
    (hFlows : dp.flows.Inv env.hash)
    (hCurrent : dp.OwnerCurrent client)
    (hHolds :
      Holds dp.sessions.capacity dp.sessions.sessions s)
    (hValid : s.key.valid = true)
    (hKey : s.key.equals (tupleKey client) = true)
    (hSlot : slot < dp.flows.capacity)
    (hFlow : dp.flows.flows slot = some flow)
    (hClient : flow.client.equals client = true)
    (hActive : now - flow.lastSeen < idle) :
    sessionKeepalive env.hash dp.flows now idle s = true := by
  have hLive := hFlows.clients slot hSlot flow hFlow
  have hTupleKey := tupleKey_congr hClient
  have hTuple :
      (tupleKey client).hasTuple = true := by
    rw [← hTupleKey]
    exact tupleKey_hasTuple_of_valid (tupleKey_valid hLive)
  by_cases hOwned : s.ownerFlowId ≠ 0
  · have hFlowKey :
        s.key.equals (tupleKey flow.client) =
          true := by
      rw [hTupleKey]
      exact hKey
    rcases hCurrent s slot flow hHolds hOwned hSlot hFlow
        hClient hFlowKey with
      ⟨hOwnerSlot, hOwnerId⟩
    refine (sessionKeepalive_owned hOwned).mpr
      ⟨flow, ?_, hOwnerId.symm, hActive⟩
    rw [hOwnerSlot, FlowTable.slot,
      if_neg (Nat.not_le.mpr hSlot)]
    exact hFlow
  · rcases key_client hValid hKey hTuple with
      ⟨hClientValid, hSame⟩
    rcases equals_iff.mp hKey with ⟨hHasTuple, hHasCids, _⟩
    rw [hTuple] at hHasTuple
    rw [tupleKey_hasCids] at hHasCids
    have hFound :
        dp.flows.get env.hash s.key.client = some slot :=
      (FlowTable.get_eq_some hFlows).mpr
        ⟨hClientValid, hSlot, flow, hFlow,
          Sockaddr.equals_trans hClient hSame⟩
    unfold sessionKeepalive
    simp [hOwned, hHasTuple, hHasCids, hFound, hFlow, hActive]

/- The callback does not look at the time stamp. -/
theorem sessionKeepalive_renewed
    {flows : FlowTable}
    {old new : Session}
    (hRenewed : SessionTable.Renewed old new) :
    sessionKeepalive hash flows now idle new =
      sessionKeepalive hash flows now idle old := by
  unfold sessionKeepalive
  rw [hRenewed.key, hRenewed.ownerSlot, hRenewed.ownerFlowId]

theorem ReachableWhere.ownerCurrent
    (hReach :
      ReachableWhere env (OwnerRenewed env client) dp) :
    dp.OwnerCurrent client := by
  induction hReach with
  | start hStarts =>
      rintro s slot flow ⟨i, hi, hCell⟩
      rw [hStarts.no_sessions i] at hCell
      cases hCell
  | step event hReach hRenewed ih =>
      exact step_ownerCurrent event hReach.tables
        (hReach.every PendingInitial.kept_keyed) hRenewed ih

theorem ReachableWhere.tuplesStorable
    {allowed : Dataplane → Event → Prop}
    (hReach : ReachableWhere env allowed dp) :
    dp.TuplesStorable := by
  induction hReach with
  | start hStarts =>
      rintro s ⟨i, hi, hCell⟩
      rw [hStarts.no_sessions i] at hCell
      cases hCell
  | step event hReach hAllowed ih =>
      exact step_tuplesStorable event hReach.tables
        (hReach.every PendingInitial.kept_keyed) ih

/-
  In every run in which the client, when its flow is gone
  while its tuple entry is owned, comes back with a datagram
  that no session answers for: a sweep keeps the tuple entry
  if the client's flow was active within the timeout.
-/
theorem active_tuple_kept
    (env : Env)
    (dp : Dataplane)
    (now : Int)
    (client : Sockaddr)
    (slot : Nat)
    (flow : Flow)
    (i : Nat)
    (hReach : ReachableWhere env (OwnerRenewed env client) dp)
    (hSlot : slot < dp.flows.capacity)
    (hFlow : dp.flows.flows slot = some flow)
    (hClient : flow.client.equals client = true)
    (hActive :
      now - flow.lastSeen < dp.config.idleTimeoutSeconds)
    (hGet :
      dp.sessions.get env.hash (tupleKey client) = some i) :
    let after := dp.step env (.sweep now)
    ∃ j s s', dp.sessions.sessions i = some s ∧
      after.sessions.get env.hash (tupleKey client) = some j ∧
      after.sessions.sessions j = some s' ∧
      SessionTable.Renewed s s' := by
  intro after
  have hTables := hReach.tables
  have hValid := valid_of_get hGet
  rcases get_used hTables.sessions hGet with
    ⟨hi, s, hCell, hKey⟩
  have hHolds :
      Holds dp.sessions.capacity dp.sessions.sessions s :=
    ⟨i, hi, hCell⟩
  have hKeyValid := hTables.sessions.keys i hi s hCell
  have hTuple : s.key.hasTuple = true := by
    rw [(equals_iff.mp hKey).1]
    exact tupleKey_hasTuple_of_valid hValid
  have hKeep :
      ∀ new, SessionTable.Renewed s new →
        sessionKeepalive env.hash dp.flows now
          dp.config.idleTimeoutSeconds new = true := by
    intro new hRenewed
    rw [sessionKeepalive_renewed hRenewed]
    exact sessionKeepalive_tuple hTables.flows
      hReach.ownerCurrent hHolds hKeyValid hKey hSlot hFlow
      hClient hActive
  rcases expireIncremental_keeps now
      dp.config.idleTimeoutSeconds
      (expireScanBudget dp.sessions.capacity) _
      hTables.sessions
      (hReach.tuplesStorable s hHolds hTuple) hKeep
      hHolds with
    ⟨s', ⟨j, hj, hCell'⟩, hRenewed⟩
  refine ⟨j, s, s', hCell, ?_, hCell', hRenewed⟩
  have hAfter := step_tables (.sweep now) hTables
  apply (get_eq_some hAfter.sessions hValid).mpr
  refine ⟨hj, s', hCell', ?_⟩
  rw [hRenewed.key]
  exact hKey

end Dataplane

namespace Deployment

open Dataplane

/- A short-header datagram. -/
def shortAt
    (now : Int) : Datagram where
  packet := 0x40 :: List.replicate 20 0
  now := now
  nonempty := by decide
  bounded := by decide

/- The kernel is out of descriptors at the first try. -/
def opensSecondTry
    (fd : Nat) : Answers where
  sockets := [.exhausted, .opened fd]
  epollAdd := true
  sends := []

/-
  A second client takes the descriptor of the first, whose
  flow is then created again from its tuple entry.
-/
def recreatedRun : List Event :=
  [opensFirst,
    .client (opening connection2 connection2_size)
      (client 6) (opensSecondTry 5),
    .client (shortAt 1) (client 4) (opens 6),
    .client (shortAt 50) (client 4) (opens 7),
    .sweep 61]

/- The state after the flow was made again. -/
def recreated : Dataplane :=
  byName.run twoHandshakes recreatedRun

/-
  The entry still names the first flow, and the next sweep
  deletes it though the second flow is active.
-/
theorem recreated_flow_loses_entry :
    Reachable twoHandshakes recreated ∧
    ∃ flow i, 1 < recreated.flows.capacity ∧
      recreated.flows.flows 1 = some flow ∧
      flow.client.equals (client 4) = true ∧
      62 - flow.lastSeen <
        recreated.config.idleTimeoutSeconds ∧
      recreated.sessions.get twoHandshakes.hash
        (tupleKey (client 4)) = some i ∧
      (recreated.step twoHandshakes
        (.sweep 62)).sessions.get twoHandshakes.hash
          (tupleKey (client 4)) = none := by
  have hFlow :
      (recreated.flows.flows 1).map
          (fun flow : Flow =>
            decide (flow.client.equals (client 4) = true ∧
              (62 : Int) - flow.lastSeen <
                recreated.config.idleTimeoutSeconds)) =
        some true := by
    decide +kernel
  have hGet :
      recreated.sessions.get twoHandshakes.hash
        (tupleKey (client 4)) = some 4 := by
    decide +kernel
  rcases Option.map_eq_some_iff.mp hFlow with
    ⟨flow, hSome, hDecided⟩
  rcases of_decide_eq_true hDecided with ⟨hClient, hActive⟩
  exact ⟨reachable_run _ (reachable_byName _), flow, 4,
    by decide +kernel, hSome, hClient, hActive, hGet,
    by decide +kernel⟩

/-
  The flow of the first client is evicted for a second one,
  and comes back with the next connection of the client,
  which is routed by its name.
-/
def evictedFirst : Dataplane :=
  (byName.step twoHandshakes opensFirst).step twoHandshakes
    (.client (opening connection1 connection1_size)
      (client 6) (opensSecondTry 5))

/- The evicted client opens a new connection. -/
def opensNext : Event :=
  .client (opening connection2 connection2_size) (client 4)
    (opens 6)

/- Its flow is new, and the client still active. -/
def reopened : Dataplane :=
  (evictedFirst.step twoHandshakes opensNext).step
    twoHandshakes (.client (shortAt 50) (client 4) (opens 7))

theorem opensNext_renewed :
    OwnerRenewed twoHandshakes (client 4) evictedFirst
      opensNext := by
  have hRouted :
      (evictedFirst.freshBackend twoHandshakes
          (opening connection2 connection2_size).packet
          (client 4) 0).all Sockaddr.valid = true := by
    decide +kernel
  have hNow :
      (opening connection2 connection2_size).now = 0 := rfl
  intro _ _ _
  refine ⟨by decide +kernel, ?_, by decide +kernel⟩
  intro backend hBackend
  rw [hNow] at hBackend
  rw [hBackend] at hRouted
  exact hRouted

theorem reopened_renewed :
    ReachableWhere twoHandshakes
      (OwnerRenewed twoHandshakes (client 4)) reopened := by
  have hStarts : Starts twoHandshakes byName :=
    ⟨_, _, _, eq_okValue _ _⟩
  have hFirst :
      OwnerRenewed twoHandshakes (client 4) byName
        opensFirst := by
    rintro _ _ ⟨s, ⟨i, hi, hCell⟩, _⟩
    rw [hStarts.no_sessions i] at hCell
    cases hCell
  have hOther :
      (client 6).equals (client 4) = false := by
    decide +kernel
  have hLive :
      ((evictedFirst.step twoHandshakes
        opensNext).flows.get twoHandshakes.hash
          (client 4)).isSome = true := by
    decide +kernel
  refine ReachableWhere.step _
    (ReachableWhere.step _
      (ReachableWhere.step _
        (ReachableWhere.step _
          (ReachableWhere.start hStarts) hFirst) ?_)
      opensNext_renewed) ?_
  · intro hSame
    rw [hOther] at hSame
    cases hSame
  · intro _ hNone
    rw [hNone] at hLive
    cases hLive

/- The entry names the second flow, and is kept. -/
theorem reopened_entry_kept :
    (evictedFirst.flows.get twoHandshakes.hash
      (client 4)).isSome = false ∧
    (evictedFirst.sessions.entryOf twoHandshakes.hash
      (tupleKey (client 4))).map Session.ownerFlowId =
        some 1 ∧
    (reopened.sessions.get twoHandshakes.hash
      (tupleKey (client 4))).isSome = true ∧
    ((reopened.step twoHandshakes
      (.sweep 61)).sessions.get twoHandshakes.hash
        (tupleKey (client 4))).isSome = true := by
  have hFlow :
      (reopened.flows.flows 1).map
          (fun flow : Flow =>
            decide (flow.client.equals (client 4) = true ∧
              (61 : Int) - flow.lastSeen <
                reopened.config.idleTimeoutSeconds)) =
        some true := by
    decide +kernel
  have hSlot : 1 < reopened.flows.capacity := by
    decide +kernel
  have hEntry :
      (reopened.sessions.get twoHandshakes.hash
        (tupleKey (client 4))).isSome = true := by
    decide +kernel
  rcases Option.map_eq_some_iff.mp hFlow with
    ⟨flow, hSome, hDecided⟩
  rcases of_decide_eq_true hDecided with ⟨hClient, hActive⟩
  rcases Option.isSome_iff_exists.mp hEntry with ⟨i, hGet⟩
  rcases active_tuple_kept twoHandshakes reopened 61
      (client 4) 1 flow i reopened_renewed hSlot hSome
      hClient hActive hGet with
    ⟨j, _, _, _, hKept, _⟩
  refine ⟨by decide +kernel, by decide +kernel, hEntry, ?_⟩
  rw [hKept]
  rfl

end Deployment

end QuicSniRouter
