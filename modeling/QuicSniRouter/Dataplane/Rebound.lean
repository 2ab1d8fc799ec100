import QuicSniRouter.Dataplane.Rebinding

/-
  What becomes of an alias after a connection was rebound by
  it.  A short header teaches nothing, and the alias stays
  with the flow that the connection has left; after a long
  header it lives as long as the flow of the new address.

  Main declarations:
    * `Dataplane.Quiet`
    * `Dataplane.Retains`
    * `Dataplane.AliasHeld`
    * `Dataplane.rebound_alias_kept`
-/

------------------------------------------------------------
-- What Happens Later
------------------------------------------------------------

namespace QuicSniRouter

open LinearProbing SessionTable SessionKey

namespace Dataplane

variable {env : Env} {dp : Dataplane}
variable {client backend : Sockaddr} {cid : Bytes}
variable {slot flowId : Nat} {key : SessionKey}
variable {after : Dataplane} {event : Event} {packet : Bytes}
variable {source : Sockaddr} {now : Int} {args : PutArgs}
variable {header : Quic.LongHeader} {datagram : Datagram}
variable {j : Nat} {answers : Answers}

/- No entry and no flow is evicted. -/
structure NothingEvicted
    (env : Env)
    (dp after : Dataplane) : Prop where
  sessions :
    ∀ key i, dp.sessions.get env.hash key = some i →
      (after.sessions.get env.hash key).isSome = true
  flows :
    ∀ slot < dp.flows.capacity, ∀ flow,
      dp.flows.flows slot = some flow →
        ∃ new, after.flows.flows slot = some new ∧
          SameFlow flow new

/-
  No reload, no evictions, and at a sweep the client's flow
  is live and was active within the timeout.
-/
def Quiet
    (env : Env)
    (client : Sockaddr)
    (dp : Dataplane) :
    Event → Prop
| .client datagram source answers =>
    NothingEvicted env dp
      (dp.step env (.client datagram source answers))
| .backend slot datagram answers =>
    NothingEvicted env dp
      (dp.step env (.backend slot datagram answers))
| .flush _ => True
| .sweep now =>
    ∃ slot flow, slot < dp.flows.capacity ∧
      dp.flows.flows slot = some flow ∧
      flow.client.equals client = true ∧
      now - flow.lastSeen < dp.config.idleTimeoutSeconds
| .reload _ _ => False

/- Datagrams of the client that its tuple entry answers. -/
structure SpeaksFor
    (env : Env)
    (dp : Dataplane)
    (client backend : Sockaddr)
    (packet : Bytes)
    (source : Sockaddr)
    (now : Int) : Prop where
  valid : source.valid = true
  sender : source.equals client = true
  encoded :
    lookupEncodedCid env dp.config dp.sessions packet
      (tupleKey source) now = (none, dp.sessions)
  initial :
    ∃ status, Quic.parseInitial packet = .error status
  tuple :
    ∃ j, dp.sessions.get env.hash (tupleKey source) = some j ∧
      dp.sessions.backendAt j = backend

/-
  The id is only carried by long headers of the client while
  it is bound to the backend, and on the client's flow while
  that is aimed at the backend.
-/
def Retains
    (env : Env)
    (client backend : Sockaddr)
    (cid : Bytes)
    (dp : Dataplane) :
    Event → Prop
| .client datagram source _ =>
    ∀ header, learnableHeader datagram.packet = some header →
      header.dcid = cid →
        SpeaksFor env dp client backend datagram.packet
          source datagram.now
| .backend slot datagram _ =>
    ∀ header, learnableHeader datagram.packet = some header →
      header.scid = cid →
        ∀ flow, dp.flows.slot slot = some flow →
          flow.client.equals client = true ∧
            flow.backend = backend
| _ => True

/- The alias is stored, for a live flow of the client. -/
structure AliasHeld
    (env : Env)
    (client backend : Sockaddr)
    (cid : Bytes)
    (slot flowId : Nat)
    (dp : Dataplane) : Prop where
  stored :
    (dp.sessions.get env.hash
      (singleCidKey cid)).isSome = true
  entry :
    dp.sessions.EntryOf (singleCidKey cid)
      (LearnedAs backend slot flowId)
  slot_lt : slot < dp.flows.capacity
  flow :
    ∃ flow, dp.flows.flows slot = some flow ∧
      flow.client.equals client = true ∧ flow.id = flowId

/- Puts under other keys leave the entry as it is. -/
theorem entryOf_step
    (event : Event)
    (hTables : Tables env dp)
    (hKeyed : dp.pending.Every PendingInitial.Keyed)
    (hMiss :
      ∀ args, StepPut env dp args event →
        args.key.equals key = false)
    (hEntry :
      dp.sessions.EntryOf key
        (LearnedAs backend slot flowId)) :
    (dp.step env event).sessions.EntryOf key
      (LearnedAs backend slot flowId) := by
  refine step_entries_induction event ?_ ?_ ?_ hTables
    hKeyed hEntry
  · intro old new hRenewed hOld hKey
    rw [hRenewed.key] at hKey
    rcases hOld hKey with ⟨hBackend, hSlot, hId⟩
    exact ⟨hRenewed.backend.trans hBackend,
      hRenewed.ownerSlot.trans hSlot,
      hRenewed.ownerFlowId.trans hId⟩
  · intro table args hPut _ hKey
    have hSame : args.key.equals key = true := hKey
    rw [hMiss args hPut] at hSame
    cases hSame
  · intro table args old hPut _ _ hArgs hKey
    have hSame := equals_trans (equals_symm hArgs) hKey
    rw [hMiss args hPut] at hSame
    cases hSame

/- The flow of the client in the next state. -/
theorem AliasHeld.flow_after
    (hHeld : AliasHeld env client backend cid slot flowId dp)
    (hKept : NothingEvicted env dp after) :
    ∃ flow, after.flows.flows slot = some flow ∧
      flow.client.equals client = true ∧
      flow.id = flowId := by
  rcases hHeld.flow with ⟨flow, hFlow, hClient, hId⟩
  rcases hKept.flows slot hHeld.slot_lt flow hFlow with
    ⟨new, hNew, hSameId, hSameClient⟩
  refine ⟨new, hNew, ?_, hSameId.trans hId⟩
  rw [hSameClient]
  exact hClient

/- The alias after datagrams that do not carry its id. -/
theorem AliasHeld.kept
    (hHeld : AliasHeld env client backend cid slot flowId dp)
    (hTables : Tables env dp)
    (hKeyed : dp.pending.Every PendingInitial.Keyed)
    (hKept : NothingEvicted env dp (dp.step env event))
    (hMiss :
      ∀ args, StepPut env dp args event →
        args.key.equals (singleCidKey cid) = false) :
    AliasHeld env client backend cid slot flowId
      (dp.step env event) := by
  rcases Option.isSome_iff_exists.mp hHeld.stored with
    ⟨i, hGet⟩
  refine ⟨hKept.sessions _ i hGet,
    entryOf_step event hTables hKeyed hMiss hHeld.entry, ?_,
    hHeld.flow_after hKept⟩
  rw [(step_generation event hTables).capacity]
  exact hHeld.slot_lt

theorem AliasHeld.valid
    (hHeld :
      AliasHeld env client backend cid slot flowId dp) :
    (singleCidKey cid).valid = true := by
  rcases Option.isSome_iff_exists.mp hHeld.stored with
    ⟨i, hGet⟩
  exact valid_of_get hGet

/- Tuples are not put under the key of an id. -/
theorem tupleKey_equals_single
    (source : Sockaddr)
    (hValid : (singleCidKey cid).valid = true) :
    (tupleKey source).equals (singleCidKey cid) = false := by
  by_contra hNot
  have hCids :=
    @hasCids_of_equals_single (tupleKey source) cid hValid
      (by simpa using hNot)
  rw [tupleKey_hasCids] at hCids
  cases hCids

------------------------------------------------------------
-- Writes Of Other Keys
------------------------------------------------------------

/- Single ids are put under the key of the same id. -/
theorem singleCidKey_miss
    {other : Bytes}
    (hValid : (singleCidKey cid).valid = true)
    (hNe : other ≠ cid) :
    (singleCidKey other).equals
      (singleCidKey cid) = false := by
  by_contra hNot
  have hEquals :
      (singleCidKey other).equals
        (singleCidKey cid) = true := by
    simpa using hNot
  have hCids := hasCids_of_equals_single hValid hEquals
  by_cases hShort : other.length < minLearnedCidLen
  · rw [singleCidKey, if_pos hShort] at hCids
    cases hCids
  · rw [singleCidKey, if_neg hShort] at hEquals
    exact hNe (cidKey_equals_single hValid hEquals).1

/- A client header with another id does not put the key. -/
theorem clientPut_miss
    {flows : FlowTable}
    (hPut : ClientPut packet source now flows args)
    (hValid : (singleCidKey cid).valid = true)
    (hOther :
      ∀ header, learnableHeader packet = some header →
        header.dcid ≠ cid) :
    args.key.equals (singleCidKey cid) =
      false := by
  cases hPut with
  | bound => exact tupleKey_equals_single source hValid
  | tuple => exact tupleKey_equals_single source hValid
  | learned key dest destLen slot flow hKey hHolder =>
      unfold learnedKeys at hKey
      cases hHeader : learnableHeader packet with
      | none =>
          rw [hHeader] at hKey
          cases hKey
      | some header =>
          rw [hHeader] at hKey
          have hNe := hOther header hHeader
          show key.equals _ = false
          rcases List.mem_pair.mp hKey with hEq | hEq
          · rw [hEq]
            exact singleCidKey_miss hValid hNe
          · rw [hEq]
            by_contra hNot
            exact hNe (cidKey_equals_single hValid
              (by simpa using hNot)).1

theorem backendPut_miss
    {flow : Flow}
    (hPut : BackendPut packet now slot flow args)
    (hValid : (singleCidKey cid).valid = true)
    (hOther :
      ∀ header, learnableHeader packet = some header →
        header.scid ≠ cid) :
    args.key.equals (singleCidKey cid) =
      false := by
  cases hPut with
  | learned key hKey =>
      unfold backendKeys at hKey
      cases hHeader : learnableHeader packet with
      | none =>
          rw [hHeader] at hKey
          cases hKey
      | some header =>
          rw [hHeader] at hKey
          show key.equals _ = false
          rw [List.mem_singleton.mp hKey]
          exact singleCidKey_miss hValid
            (hOther header hHeader)

/- Long headers are never on the fast path. -/
theorem fastPath_long
    (hHeader : learnableHeader packet = some header) :
    dp.fastPath env packet source now = none := by
  have hLong :=
    (Quic.parseLongHeader_of
      (learnableHeader_eq_some.mp hHeader)).long
  unfold fastPath
  rw [hLong]
  simp

------------------------------------------------------------
-- Packets Of The Client
------------------------------------------------------------

/- Such a datagram is forwarded by the tuple's entry. -/
theorem SpeaksFor.path
    (answers : Answers)
    (hSpeaks :
      SpeaksFor env dp client backend datagram.packet source
        datagram.now)
    (hHeader : learnableHeader datagram.packet = some header)
    (hTuple :
      dp.sessions.get env.hash (tupleKey source) = some j) :
    dp.step env (.client datagram source answers) =
      (dp.withAnswers answers).sessionPath env j
        datagram.packet source datagram.now := by
  rcases hSpeaks.initial with ⟨status, hInitial⟩
  have hSelect :
      selectSession env dp.config dp.sessions
          datagram.packet source datagram.now =
        (some j, dp.sessions) := by
    unfold selectSession
    dsimp only
    rw [hSpeaks.encoded, hInitial]
    dsimp only
    rw [hTuple]
  exact @handleClientPacket_session env
    (dp.withAnswers answers) datagram.packet source
    datagram.now j dp.sessions (fastPath_long hHeader)
    hSelect

/- The alias and the tuple's entry are different ones. -/
theorem refers_of_tuple
    {i : Nat}
    (now : Int)
    (hTables : Tables env dp)
    (hGet :
      dp.sessions.get env.hash (singleCidKey cid) = some i)
    (hTuple :
      dp.sessions.get env.hash (tupleKey source) = some j)
    (hAt : dp.sessions.backendAt j = backend) :
    Refers env.hash (dp.sessions.touch j now)
      (singleCidKey cid) j backend := by
  rcases get_used hTables.sessions hGet with
    ⟨_, stored, hStored, hStoredKey⟩
  rcases get_used hTables.sessions hTuple with
    ⟨_, entry, hEntry, hEntryKey⟩
  have hij : i ≠ j := by
    intro hEq
    rw [← hEq, hStored] at hEntry
    cases hEntry
    have hSame :=
      equals_trans (equals_symm hEntryKey) hStoredKey
    rw [tupleKey_equals_single source
      (valid_of_get hGet)] at hSame
    cases hSame
  refine ⟨touch_inv env.hash j now
    hTables.sessions, ⟨i, ?_, hij⟩, ?_, ?_⟩
  · exact touch_get j now hTables.sessions hGet
  · rw [touch_sessions now hEntry, fill_self]
    exact Option.some_ne_none _
  · rw [touch_backendAt]
    exact hAt

/- A header of the client takes the alias to its flow. -/
theorem SpeaksFor.transfers
    {i : Nat}
    (hSpeaks :
      SpeaksFor env dp client backend datagram.packet source
        datagram.now)
    (hTables : Tables env dp)
    (hBackend : backend.valid = true)
    (hStored :
      dp.sessions.get env.hash (singleCidKey cid) = some i)
    (hHeader : learnableHeader datagram.packet = some header)
    (hDcid : header.dcid = cid)
    (hFound :
      (dp.step env
        (.client datagram source answers)).flows.get
          env.hash source = some slot)
    (hNonzero :
      ∀ flow,
        (dp.step env (.client datagram source
          answers)).flows.flows slot = some flow →
          flow.id ≠ 0) :
    let after := dp.step env (.client datagram source answers)
    ∃ flow, slot < after.flows.capacity ∧
      after.flows.flows slot = some flow ∧
      flow.client.equals source = true ∧ flow.id ≠ 0 ∧
      after.sessions.EntryOf (singleCidKey cid)
        (LearnedAs backend slot flow.id) := by
  rcases hSpeaks.tuple with ⟨j, hTuple, hAt⟩
  have hRefers :=
    refers_of_tuple datagram.now hTables hStored hTuple hAt
  intro after
  unfold after
  rw [hSpeaks.path answers hHeader hTuple] at hFound hNonzero ⊢
  rw [← hDcid] at hRefers ⊢
  exact @sessionPath_transfers env (dp.withAnswers answers)
    datagram.packet source datagram.now header backend j
    slot hTables.flows hRefers hHeader hBackend hFound
    hNonzero

/- The client's own headers keep the alias with its flow. -/
theorem AliasHeld.spoken
    (hHeld : AliasHeld env client backend cid slot flowId dp)
    (hTables : Tables env dp)
    (hBackend : backend.valid = true)
    (hOwned : flowId ≠ 0)
    (hKept :
      NothingEvicted env dp
        (dp.step env (.client datagram source answers)))
    (hHeader : learnableHeader datagram.packet = some header)
    (hDcid : header.dcid = cid)
    (hSpeaks :
      SpeaksFor env dp client backend datagram.packet source
        datagram.now) :
    AliasHeld env client backend cid slot flowId
      (dp.step env (.client datagram source answers)) := by
  rcases Option.isSome_iff_exists.mp hHeld.stored with
    ⟨i, hGet⟩
  have hAfter :=
    step_tables (.client datagram source answers) hTables
  have hSlot :
      slot <
        (dp.step env (.client datagram source
          answers)).flows.capacity := by
    rw [(step_generation _ hTables).capacity]
    exact hHeld.slot_lt
  rcases hHeld.flow_after hKept with
    ⟨flow, hFlow, hClient, hId⟩
  have hFound :=
    (FlowTable.get_eq_some hAfter.flows).mpr
      ⟨hSpeaks.valid, hSlot, flow, hFlow,
        Sockaddr.equals_trans hClient
          (Sockaddr.equals_symm hSpeaks.sender)⟩
  have hNonzero :
      ∀ other,
        (dp.step env (.client datagram source
          answers)).flows.flows slot = some other →
          other.id ≠ 0 := by
    intro other hOther
    rw [hFlow] at hOther
    cases hOther
    rw [hId]
    exact hOwned
  rcases hSpeaks.transfers hTables hBackend hGet hHeader
      hDcid hFound hNonzero with
    ⟨held, _, hHeldFlow, _, _, hLearned⟩
  rw [hFlow] at hHeldFlow
  cases hHeldFlow
  rw [hId] at hLearned
  exact ⟨hKept.sessions _ i hGet, hLearned, hSlot, flow,
    hFlow, hClient, hId⟩

/- A put with the same backend and owner. -/
theorem putInternal_learned
    {hash : Bytes → Nat}
    {table : SessionTable}
    {key' : SessionKey}
    (hInv : table.Inv hash)
    (hOwned : flowId ≠ 0)
    (hEntry :
      table.EntryOf key (LearnedAs backend slot flowId)) :
    (putInternal hash 2 table
      (aliasArgs key' (.addr backend.storage) backend.len
        now slot flowId)).2.EntryOf key
          (LearnedAs backend slot flowId) := by
  refine putInternal_entries _ hInv ?_ ?_ hEntry
  · intro _ _
    exact ⟨rfl, rfl, rfl⟩
  · intro old _ _ _ _
    refine ⟨rfl, ?_, ?_⟩
    · exact if_pos hOwned
    · exact if_pos hOwned

/- A backend's headers on the client's flow do so, too. -/
theorem AliasHeld.answered
    {s : Nat}
    (hHeld : AliasHeld env client backend cid slot flowId dp)
    (hTables : Tables env dp)
    (hOwned : flowId ≠ 0)
    (hKept :
      NothingEvicted env dp
        (dp.step env (.backend s datagram answers)))
    (hFlows :
      ∀ flow, dp.flows.slot s = some flow →
        flow.client.equals client = true ∧
          flow.backend = backend) :
    AliasHeld env client backend cid slot flowId
      (dp.step env (.backend s datagram answers)) := by
  rcases Option.isSome_iff_exists.mp hHeld.stored with
    ⟨i, hGet⟩
  have hSlot :
      slot <
        (dp.step env (.backend s datagram
          answers)).flows.capacity := by
    rw [(step_generation _ hTables).capacity]
    exact hHeld.slot_lt
  refine ⟨hKept.sessions _ i hGet, ?_, hSlot,
    hHeld.flow_after hKept⟩
  rw [step_backend]
  unfold handleBackendPacket
  cases hFlow : (dp.withAnswers answers).flows.slot s with
  | none => exact hHeld.entry
  | some flow =>
      rcases hFlows flow hFlow with ⟨hClient, hAimed⟩
      rcases FlowTable.slot_eq_some hFlow with ⟨hs, hLive⟩
      rcases hHeld.flow with
        ⟨held, hHeldFlow, hHeldClient, hId⟩
      have hSame : s = slot :=
        hTables.flows.slot_unique hs hHeld.slot_lt hLive
          hHeldFlow
          (Sockaddr.equals_trans hClient
            (Sockaddr.equals_symm hHeldClient))
      subst hSame
      have hLive' : dp.flows.flows s = some flow := hLive
      rw [hHeldFlow] at hLive'
      cases hLive'
      dsimp only
      rw [(enqueue_frame _ _).sessions, hAimed, hId]
      have hLearned :=
        @learnBackendScid_induction datagram.packet
          datagram.now env.hash
          (fun table =>
            table.Inv env.hash ∧
              table.EntryOf (singleCidKey cid)
                (LearnedAs backend s flowId))
          (.addr backend.storage) backend.len s flowId
          (fun table key h _ =>
            ⟨putInternal_inv env.hash _ h.1,
              putInternal_learned h.1 hOwned h.2⟩)
          dp.sessions ⟨hTables.sessions, hHeld.entry⟩
      exact hLearned.2

------------------------------------------------------------
-- Sweeps And Runs
------------------------------------------------------------

/- The alias survives a sweep while its flow is active. -/
theorem AliasHeld.swept
    (hHeld : AliasHeld env client backend cid slot flowId dp)
    (hTables : Tables env dp)
    (hKeyed : dp.pending.Every PendingInitial.Keyed)
    (hBackend : backend.valid = true)
    (hOwned : flowId ≠ 0)
    (hQuiet : Quiet env client dp (.sweep now)) :
    AliasHeld env client backend cid slot flowId
      (dp.step env (.sweep now)) := by
  rcases Option.isSome_iff_exists.mp hHeld.stored with
    ⟨i, hGet⟩
  rcases get_used hTables.sessions hGet with
    ⟨hi, s, hCell, hKey⟩
  have hHolds :
      Holds dp.sessions.capacity dp.sessions.sessions s :=
    ⟨i, hi, hCell⟩
  rcases hHeld.entry s hHolds hKey with
    ⟨hEntryBackend, hOwnerSlot, hOwnerId⟩
  rcases hHeld.flow with ⟨flow, hFlow, hClient, hId⟩
  rcases hQuiet with
    ⟨t, active, ht, hActiveFlow, hActiveClient, hActive⟩
  have hSame : t = slot :=
    hTables.flows.slot_unique ht hHeld.slot_lt hActiveFlow
      hFlow
      (Sockaddr.equals_trans hActiveClient
        (Sockaddr.equals_symm hClient))
  subst hSame
  rw [hFlow] at hActiveFlow
  cases hActiveFlow
  have hKeep :
      sessionKeepalive env.hash dp.flows now
        dp.config.idleTimeoutSeconds s = true := by
    refine (sessionKeepalive_owned ?_).mpr
      ⟨flow, ?_, ?_, hActive⟩
    · rw [hOwnerId]
      exact hOwned
    · rw [hOwnerSlot, FlowTable.slot,
        if_neg (Nat.not_le.mpr ht)]
      exact hFlow
    · rw [hOwnerId]
      exact hId
  have hStorable : s.Storable := by
    refine ⟨hTables.sessions.keys i hi s hCell, ?_⟩
    rw [hEntryBackend]
    exact hBackend
  rcases expireIncremental_keeps now
      dp.config.idleTimeoutSeconds
      (expireScanBudget dp.sessions.capacity) _
      hTables.sessions hStorable
      (fun new hRenewed =>
        (sessionKeepalive_renewed hRenewed).trans hKeep)
      hHolds with
    ⟨s', ⟨j, hj, hCell'⟩, hRenewed⟩
  have hAfter := step_tables (.sweep now) hTables
  have hFound :
      (dp.step env (.sweep now)).sessions.get env.hash
        (singleCidKey cid) = some j := by
    apply (get_eq_some hAfter.sessions hHeld.valid).mpr
    refine ⟨hj, s', hCell', ?_⟩
    rw [hRenewed.key]
    exact hKey
  refine ⟨by rw [hFound]; rfl, ?_, ?_, flow, ?_, hClient, hId⟩
  · exact entryOf_step (.sweep now) hTables hKeyed
      (fun _ hPut => hPut.elim) hHeld.entry
  · rw [(step_generation _ hTables).capacity]
    exact ht
  · exact FlowTable.expireLoop_keeps now
      dp.config.idleTimeoutSeconds _ hTables.flows hFlow
      hActive

theorem AliasHeld.step
    {event : Event}
    (hHeld : AliasHeld env client backend cid slot flowId dp)
    (hTables : Tables env dp)
    (hKeyed : dp.pending.Every PendingInitial.Keyed)
    (hBackend : backend.valid = true)
    (hOwned : flowId ≠ 0)
    (hQuiet : Quiet env client dp event)
    (hRetains : Retains env client backend cid dp event) :
    AliasHeld env client backend cid slot flowId
      (dp.step env event) := by
  cases event with
  | client datagram source answers =>
      by_cases hCarried :
          ∃ header,
            learnableHeader datagram.packet =
              some header ∧ header.dcid = cid
      · rcases hCarried with ⟨header, hHeader, hDcid⟩
        exact hHeld.spoken hTables hBackend hOwned hQuiet
          hHeader hDcid (hRetains header hHeader hDcid)
      · push Not at hCarried
        exact hHeld.kept hTables hKeyed hQuiet
          (fun args hPut =>
            clientPut_miss hPut hHeld.valid hCarried)
  | backend s datagram answers =>
      by_cases hCarried :
          ∃ header,
            learnableHeader datagram.packet =
              some header ∧ header.scid = cid
      · rcases hCarried with ⟨header, hHeader, hScid⟩
        exact hHeld.answered hTables hOwned hQuiet
          (hRetains header hHeader hScid)
      · push Not at hCarried
        refine hHeld.kept hTables hKeyed hQuiet ?_
        rintro args ⟨flow, _, hPut⟩
        exact backendPut_miss hPut hHeld.valid hCarried
  | flush answers =>
      exact ⟨hHeld.stored, hHeld.entry, hHeld.slot_lt,
        hHeld.flow⟩
  | sweep now =>
      exact hHeld.swept hTables hKeyed hBackend hOwned hQuiet
  | reload file resolver => exact hQuiet.elim

theorem quiet_config
    (hFlows : dp.flows.Inv env.hash)
    (hQuiet : Quiet env client dp event) :
    (dp.step env event).config = dp.config := by
  cases event with
  | client datagram source answers =>
      exact @handleClientPacket_config env
        (dp.withAnswers answers) _ _ _ hFlows
  | backend s datagram answers =>
      exact handleBackendPacket_config
        (dp.withAnswers answers) _ _ _
  | flush answers => rfl
  | sweep now => rfl
  | reload file resolver => exact hQuiet.elim

theorem ReachedFrom.reachable
    {allowed : Dataplane → Event → Prop}
    (hAfter : ReachedFrom env allowed dp after)
    (hReach : Reachable env dp) :
    Reachable env after := by
  induction hAfter with
  | refl => exact hReach
  | step event _ _ ih =>
      exact ReachableWhere.step event ih trivial

/- The alias in every state that is reached. -/
theorem ReachedFrom.aliasHeld
    (hAfter :
      ReachedFrom env
        (fun dp event =>
          Quiet env client dp event ∧
            Retains env client backend cid dp event)
        dp after)
    (hReach : Reachable env dp)
    (hBackend : backend.valid = true)
    (hOwned : flowId ≠ 0)
    (hHeld :
      AliasHeld env client backend cid slot flowId dp) :
    AliasHeld env client backend cid slot flowId after ∧
      after.config = dp.config := by
  induction hAfter with
  | refl => exact ⟨hHeld, rfl⟩
  | step event hFrom hAllowed ih =>
      have hBefore := hFrom.reachable hReach
      exact ⟨ih.1.step hBefore.tables
          (hBefore.every PendingInitial.kept_keyed) hBackend
          hOwned hAllowed.1 hAllowed.2,
        (quiet_config hBefore.tables.flows
          hAllowed.1).trans ih.2⟩

------------------------------------------------------------
-- Aliases Of A Rebinding
------------------------------------------------------------

/-
  A long header that makes its sender the owner of the
  alias: it rebinds the sender by it, or the sender was
  rebound before, by a short header, and repeats the id
  while the alias is stored.
-/
inductive Teaches
    (env : Env)
    (dp : Dataplane)
    (packet : Bytes)
    (source : Sockaddr)
    (now : Int)
    (cid : Bytes)
    (i : Nat)
    (header : Quic.LongHeader) : Prop
  | rebinds
      (hRebinds : Rebinds env dp packet source now cid i)
      (hRoomy : dp.sessions.Roomy)
  | repeats
      (hSpeaks :
        SpeaksFor env dp source (dp.sessions.backendAt i)
          packet source now)
      (hDcid : header.dcid = cid)
      (hStored :
        dp.sessions.get env.hash (singleCidKey cid) = some i)
      (hBackend : (dp.sessions.backendAt i).valid = true)
      (hConfigured :
        dp.config.routes.hasBackend env.hash
          (dp.sessions.backendAt i) = true)

namespace Teaches

variable {i : Nat}

theorem stored
    (hTeaches :
      Teaches env dp packet source now cid i header) :
    dp.sessions.get env.hash (singleCidKey cid) = some i ∧
      (dp.sessions.backendAt i).valid = true := by
  cases hTeaches with
  | rebinds hRebinds _ =>
      exact ⟨hRebinds.stored, hRebinds.backend⟩
  | repeats _ _ hStored hBackend _ =>
      exact ⟨hStored, hBackend⟩

theorem configured
    (hTeaches : Teaches env dp packet source now cid i header)
    (hHeader : learnableHeader packet = some header) :
    dp.config.routes.hasBackend env.hash
      (dp.sessions.backendAt i) = true := by
  cases hTeaches with
  | rebinds hRebinds _ =>
      rcases hRebinds.found with hShort | ⟨_, hLong⟩
      · rw [learnableHeader_short hShort] at hHeader
        cases hHeader
      · exact hLong
  | repeats _ _ _ _ hConfigured => exact hConfigured

/- The alias belongs to the sender's flow afterwards. -/
theorem transfers
    (hTeaches :
      Teaches env dp datagram.packet source datagram.now cid
        i header)
    (hTables : Tables env dp)
    (hKeyed : dp.pending.Every PendingInitial.Keyed)
    (hIds : NonzeroIds dp.flows)
    (hHeader : learnableHeader datagram.packet = some header)
    (hSent :
      (dp.step env
        (.client datagram source answers)).flows.get
          env.hash source = some slot) :
    let after := dp.step env (.client datagram source answers)
    ∃ flow, slot < after.flows.capacity ∧
      after.flows.flows slot = some flow ∧
      flow.client.equals source = true ∧ flow.id ≠ 0 ∧
      after.sessions.EntryOf (singleCidKey cid)
        (LearnedAs (dp.sessions.backendAt i) slot
          flow.id) := by
  have hAsked : Tables env (dp.withAnswers answers) :=
    ⟨hTables.sessions, hTables.flows⟩
  cases hTeaches with
  | rebinds hRebinds hRoomy =>
      have hAgain :
          Rebinds env (dp.withAnswers answers)
            datagram.packet source datagram.now cid i :=
        ⟨⟨fastPath_long hHeader, hRebinds.unanswered.encoded,
          hRebinds.unanswered.initial,
          hRebinds.unanswered.tuple⟩, hRebinds.stored,
          hRebinds.found, hRebinds.source, hRebinds.backend⟩
      exact hAgain.transfers hAsked hRoomy hIds hHeader hSent
  | repeats hSpeaks hDcid hStored hBackend _ =>
      refine hSpeaks.transfers hTables hBackend hStored
        hHeader hDcid hSent ?_
      intro flow hFlow
      rcases client_live hAsked hKeyed hFlow with
        ⟨old, hOld, hSame, _⟩ | ⟨hNew, _⟩
      · rw [hSame]
        exact hIds.live slot old hOld
      · rw [hNew.id]
        exact hIds.next

end Teaches

/-
  A long header rebinds its sender through an alias, or
  repeats the id of an alias by which a short header has
  rebound it, without an eviction.  Then, as long as there
  is no reload and no eviction, the sender's flow is active
  at every sweep, and the id is only carried by datagrams of
  the sender and its backend: the alias stays, and every
  further rebinding by it goes to the same backend.
-/
theorem rebound_alias_kept
    (env : Env)
    (dp : Dataplane)
    (datagram : Datagram)
    (source : Sockaddr)
    (answers : Answers)
    (cid : Bytes)
    (i slot : Nat)
    (header : Quic.LongHeader)
    (after : Dataplane)
    (hReach : Reachable env dp)
    (hTeaches :
      Teaches env dp datagram.packet source datagram.now cid
        i header)
    (hSent :
      (dp.step env
        (.client datagram source answers)).flows.get
          env.hash source = some slot)
    (hKept :
      NothingEvicted env dp
        (dp.step env (.client datagram source answers)))
    (hIds : NonzeroIds dp.flows)
    (hLearnable :
      learnableHeader datagram.packet = some header)
    (hAfter :
      ReachedFrom env
        (fun later event =>
          Quiet env source later event ∧
            Retains env source (dp.sessions.backendAt i) cid
              later event)
        (dp.step env (.client datagram source answers))
        after) :
    (∃ j,
      after.sessions.get env.hash
          (singleCidKey cid) = some j ∧
        after.sessions.backendAt j =
          dp.sessions.backendAt i) ∧
    (∀ packet sender now j,
      Unanswered env after packet sender now →
      sender.valid = true →
      after.sessions.get env.hash
        (singleCidKey cid) = some j →
      (lookupShortHeaderCid env.hash after.sessions packet =
          some j ∨
        lookupLongHeaderDcid env.hash after.sessions packet =
          some j) →
        after.chosenBackend env packet sender now =
          some (dp.sessions.backendAt i)) := by
  have hTables := hReach.tables
  rcases hTeaches.stored with ⟨hStored, hBackend⟩
  have hNext :
      Reachable env
        (dp.step env (.client datagram source answers)) :=
    ReachableWhere.step _ hReach trivial
  rcases hTeaches.transfers hTables
      (hReach.every PendingInitial.kept_keyed) hIds
      hLearnable hSent with
    ⟨flow, hSlot, hFlow, hClient, hOwned, hEntry⟩
  have hHeld :
      AliasHeld env source (dp.sessions.backendAt i) cid
        slot flow.id
        (dp.step env (.client datagram source answers)) :=
    ⟨hKept.sessions _ i hStored, hEntry, hSlot, flow, hFlow,
      hClient, rfl⟩
  rcases hAfter.aliasHeld hNext hBackend hOwned hHeld with
    ⟨hLater, hConfig⟩
  have hAfterTables := (hAfter.reachable hNext).tables
  have hBackendAt :
      ∀ j,
        after.sessions.get env.hash
          (singleCidKey cid) = some j →
        after.sessions.backendAt j =
          dp.sessions.backendAt i := by
    intro j hGet
    rcases get_used hAfterTables.sessions hGet with
      ⟨hj, s, hCell, hKey⟩
    unfold backendAt
    rw [hCell]
    exact (hLater.entry s ⟨j, hj, hCell⟩ hKey).1
  constructor
  · rcases Option.isSome_iff_exists.mp hLater.stored with
      ⟨j, hGet⟩
    exact ⟨j, hGet, hBackendAt j hGet⟩
  · intro packet sender now j hUnanswered hSender hGet hFound
    have hSame :
        after.config = dp.config :=
      hConfig.trans
        (quiet_config hTables.flows (show
          Quiet env source dp
            (.client datagram source answers) from hKept))
    have hAgain :
        Rebinds env after packet sender now cid j := by
      refine ⟨hUnanswered, hGet, ?_, hSender, ?_⟩
      · rcases hFound with hShort | hLong
        · exact Or.inl hShort
        · right
          rw [hBackendAt j hGet, hSame]
          exact ⟨hLong, hTeaches.configured hLearnable⟩
      · rw [hBackendAt j hGet]
        exact hBackend
    rw [hAgain.chosen hAfterTables, hBackendAt j hGet]

end Dataplane

------------------------------------------------------------
-- A Client That Moves
------------------------------------------------------------

namespace Deployment

open Dataplane

variable {dp : Dataplane} {now : Int}

/- Whether all four lookups give nothing, as a test. -/
def answersNothing
    (env : Env)
    (dp : Dataplane)
    (packet : Bytes)
    (source : Sockaddr)
    (now : Int) : Bool :=
  (dp.fastPath env packet source now).isNone &&
    (encodedRoute env.crypto dp.config packet).isNone &&
    !(Quic.parseInitial packet).isOk &&
    (dp.sessions.get env.hash (tupleKey source)).isNone

theorem unanswered_of_test
    {env : Env}
    {packet : Bytes}
    {source : Sockaddr}
    (hTest : answersNothing env dp packet source now = true) :
    Unanswered env dp packet source now := by
  simp only [answersNothing, Bool.and_eq_true,
    Option.isNone_iff_eq_none] at hTest
  rcases hTest with ⟨⟨⟨hFast, hEncoded⟩, hInitial⟩, hTuple⟩
  refine ⟨hFast, ?_, ?_, hTuple⟩
  · unfold lookupEncodedCid
    rw [hEncoded]
  · cases hParse : Quic.parseInitial packet with
    | error status => exact ⟨status, rfl⟩
    | ok initial =>
        rw [hParse] at hInitial
        cases hInitial

/- Whether entries and flows stay in their slots. -/
def slotsKept
    (dp after : Dataplane) : Bool :=
  (List.range dp.sessions.capacity).all
    (fun i =>
      (dp.sessions.sessions i).all
        (fun s =>
          (after.sessions.sessions i).any
            (fun new => new.key.equals s.key))) &&
  (List.range dp.flows.capacity).all
    (fun i =>
      (dp.flows.flows i).all
        (fun flow =>
          (after.flows.flows i).any
            (fun new =>
              new.id == flow.id &&
                new.client == flow.client)))

theorem nothingEvicted_of_test
    {env : Env}
    {event : Event}
    (hTables : Tables env dp)
    (hCapacity :
      (dp.step env event).sessions.capacity =
        dp.sessions.capacity)
    (hTest : slotsKept dp (dp.step env event) = true) :
    NothingEvicted env dp (dp.step env event) := by
  simp only [slotsKept, Bool.and_eq_true, List.all_eq_true,
    List.mem_range] at hTest
  rcases hTest with ⟨hSessions, hFlows⟩
  constructor
  · intro key i hGet
    rcases get_used hTables.sessions hGet with
      ⟨hi, s, hCell, hKey⟩
    have hSlot := hSessions i hi
    rw [hCell, Option.all_some, Option.any_eq_true] at hSlot
    rcases hSlot with ⟨new, hNew, hEquals⟩
    have hFound :=
      (get_eq_some (step_tables event hTables).sessions
        (valid_of_get hGet)).mpr
        ⟨by rw [hCapacity]; exact hi, new, hNew,
          equals_trans hEquals hKey⟩
    rw [hFound]
    rfl
  · intro slot hLt flow hFlow
    have hSlot := hFlows slot hLt
    rw [hFlow, Option.all_some, Option.any_eq_true] at hSlot
    rcases hSlot with ⟨new, hNew, hSame⟩
    simp only [Bool.and_eq_true, beq_iff_eq] at hSame
    exact ⟨new, hNew, hSame⟩

/- An id that the server has chosen. -/
def serverId : Bytes :=
  [7, 7, 7, 7, 7, 7, 7, 7]

/- A Handshake packet of the server with that source id. -/
def serverHandshake : Datagram where
  packet := [0xe0, 0, 0, 0, 1, 0, 8] ++ serverId
  now := 0
  nonempty := by decide
  bounded := by decide

/- A short header with that destination id. -/
def movedShort
    (now : Int) : Datagram where
  packet := 0x40 :: serverId ++ [0]
  now := now
  nonempty := by decide
  bounded := by decide

/- A Handshake packet with that destination id. -/
def movedLong
    (now : Int) : Datagram where
  packet := [0xe0, 0, 0, 0, 1, 8] ++ serverId ++ [0, 0]
  now := now
  nonempty := by decide
  bounded := by decide

/- One server behind a session table of eight slots. -/
def eightSlots : Dataplane :=
  okValue (booted { maxSessions := [56], servers := [1] })
    (by decide +kernel)

/- A route, and an id that its server chose. -/
def idLearnedRun : List Event :=
  [.client (datagram 1) (client 4) (opens 4),
    .backend 0 serverHandshake (opens 9)]

/- A connection whose server id has been learned. -/
def idLearned : Dataplane :=
  eightSlots.run env idLearnedRun

/- The client has moved, and sends a short header. -/
def movedByShort : Dataplane :=
  idLearned.step env
    (.client (movedShort 1) (client 6) (opens 5))

/- The client is active after a short header. -/
def activeByShort : Dataplane :=
  movedByShort.step env
    (.client (movedShort 50) (client 6) (opens 5))

/- The first sweep after that. -/
def sweptByShort : Dataplane :=
  activeByShort.step env (.sweep 61)

/- And the second one. -/
def sweptTwiceByShort : Dataplane :=
  sweptByShort.step env (.sweep 62)

theorem idLearned_reachable :
    Reachable env idLearned :=
  reachable_okValue _ _ _

/- The second client's flow at a sweep. -/
theorem quiet_sweep
    (hSlot : 1 < dp.flows.capacity)
    (hFlow :
      (dp.flows.flows 1).map
          (fun flow =>
            decide (flow.client.equals (client 6) = true ∧
              now - flow.lastSeen <
                dp.config.idleTimeoutSeconds)) =
        some true) :
    Quiet env (client 6) dp (.sweep now) := by
  rcases Option.map_eq_some_iff.mp hFlow with
    ⟨flow, hSome, hDecided⟩
  rcases of_decide_eq_true hDecided with ⟨hClient, hActive⟩
  exact ⟨1, flow, hSlot, hSome, hClient, hActive⟩

theorem movedByShort_quiet :
    ReachedFrom env (Quiet env (client 6)) movedByShort
      sweptTwiceByShort := by
  have hMoved : Reachable env movedByShort :=
    ReachableWhere.step _ idLearned_reachable trivial
  have hActive :
      Quiet env (client 6) movedByShort
        (.client (movedShort 50) (client 6) (opens 5)) :=
    nothingEvicted_of_test hMoved.tables (by decide +kernel)
      (by decide +kernel)
  exact ReachedFrom.step (.sweep 62)
    (ReachedFrom.step (.sweep 61)
      (ReachedFrom.step _ ReachedFrom.refl hActive)
      (quiet_sweep (by decide +kernel) (by decide +kernel)))
    (quiet_sweep (by decide +kernel) (by decide +kernel))

/-
  The alias stays with the flow that the connection has
  left.  It goes with that flow, and the client cannot move
  once more.
-/
theorem short_rebind_loses_alias :
    Reachable env idLearned ∧
    Rebinds env idLearned (movedShort 1).packet
      (client 6) 1 serverId 7 ∧
    (movedByShort.flows.get env.hash
      (client 6)).isSome = true ∧
    idLearned.sessions.Roomy ∧
    NothingEvicted env idLearned movedByShort ∧
    ReachedFrom env (Quiet env (client 6)) movedByShort
      sweptTwiceByShort ∧
    sweptTwiceByShort.sessions.get env.hash
      (singleCidKey serverId) = none ∧
    sweptTwiceByShort.chosenBackend env
      (movedShort 63).packet (client 7) 63 = none := by
  refine ⟨idLearned_reachable, ?_, by decide +kernel,
    ⟨by decide +kernel, by decide +kernel⟩,
    nothingEvicted_of_test idLearned_reachable.tables
      (by decide +kernel) (by decide +kernel),
    movedByShort_quiet, by decide +kernel, ?_⟩
  · exact ⟨unanswered_of_test (by decide +kernel),
      by decide +kernel, Or.inl (by decide +kernel),
      by decide, by decide +kernel⟩
  · apply Option.isNone_iff_eq_none.mp
    decide +kernel

/- The client has moved, and sends a Handshake packet. -/
def movedByLong : Dataplane :=
  idLearned.step env
    (.client (movedLong 1) (client 6) (opens 5))

/- The client is active after a long header. -/
def activeByLong : Dataplane :=
  movedByLong.step env
    (.client (movedShort 50) (client 6) (opens 5))

/- Both sweeps after that. -/
def sweptByLong : Dataplane :=
  (activeByLong.step env (.sweep 61)).step env (.sweep 62)

theorem movedByLong_quiet :
    ReachedFrom env
      (fun later event =>
        Quiet env (client 6) later event ∧
          Retains env (client 6)
            (idLearned.sessions.backendAt 7) serverId later
            event)
      movedByLong sweptByLong := by
  have hMoved : Reachable env movedByLong :=
    ReachableWhere.step _ idLearned_reachable trivial
  have hActive :
      Quiet env (client 6) movedByLong
        (.client (movedShort 50) (client 6) (opens 5)) :=
    nothingEvicted_of_test hMoved.tables (by decide +kernel)
      (by decide +kernel)
  have hRetains :
      Retains env (client 6)
        (idLearned.sessions.backendAt 7) serverId
        movedByLong
        (.client (movedShort 50) (client 6) (opens 5)) := by
    intro header hHeader
    have hNone :
        (learnableHeader (movedShort 50).packet).isNone =
          true := by
      decide +kernel
    rw [hHeader] at hNone
    cases hNone
  exact ReachedFrom.step (.sweep 62)
    (ReachedFrom.step (.sweep 61)
      (ReachedFrom.step _ ReachedFrom.refl
        ⟨hActive, hRetains⟩)
      ⟨quiet_sweep (by decide +kernel) (by decide +kernel),
        trivial⟩)
    ⟨quiet_sweep (by decide +kernel) (by decide +kernel),
      trivial⟩

theorem idLearned_nonzero :
    NonzeroIds idLearned.flows := by
  have hStarts : Starts env eightSlots := starts_okValue _ _
  have hOne :
      (creations env eightSlots idLearnedRun).length =
        1 := by
    decide +kernel
  have hNumbered :=
    run_numbered hStarts idLearnedRun (by omega)
  have hNext := hNumbered.nextId
  unfold idLearned
  refine ⟨by omega, ?_⟩
  intro slot flow hFlow
  have hBounds := hNumbered.live_bounds hFlow
  omega

/- After a Handshake packet the alias moves along. -/
theorem long_rebind_keeps_alias :
    (sweptByLong.sessions.get env.hash
      (singleCidKey serverId)).isSome = true ∧
    sweptByLong.chosenBackend env
        (movedShort 63).packet (client 7) 63 =
      some (idLearned.sessions.backendAt 7) := by
  have hRebinds :
      Rebinds env idLearned (movedLong 1).packet
        (client 6) 1 serverId 7 :=
    ⟨unanswered_of_test (by decide +kernel),
      by decide +kernel,
      Or.inr ⟨by decide +kernel, by decide +kernel⟩,
      by decide, by decide +kernel⟩
  have hIds := idLearned_nonzero
  have hSome :
      (learnableHeader (movedLong 1).packet).isSome =
        true := by
    decide +kernel
  rcases Option.isSome_iff_exists.mp hSome with
    ⟨header, hHeader⟩
  have hSent :
      movedByLong.flows.get env.hash (client 6) = some 1 := by
    decide +kernel
  have hKept :
      NothingEvicted env idLearned movedByLong :=
    nothingEvicted_of_test idLearned_reachable.tables
      (by decide +kernel) (by decide +kernel)
  have hAll :=
    rebound_alias_kept env idLearned (movedLong 1)
      (client 6) (opens 5) serverId 7 1 header sweptByLong
      idLearned_reachable
      (.rebinds hRebinds
        ⟨by decide +kernel, by decide +kernel⟩)
      hSent hKept hIds hHeader movedByLong_quiet
  rcases hAll.1 with ⟨j, hGet, _⟩
  have hFound :
      sweptByLong.sessions.get env.hash
        (singleCidKey serverId) = some 7 := by
    decide +kernel
  refine ⟨by rw [hGet]; rfl, ?_⟩
  exact hAll.2 (movedShort 63).packet (client 7) 63 7
    (unanswered_of_test (by decide +kernel)) (by decide)
    hFound (Or.inl (by decide +kernel))

end Deployment

end QuicSniRouter
