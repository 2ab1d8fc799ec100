import QuicSniRouter.Dataplane.FreshInitial
import QuicSniRouter.Dataplane.Reload
import QuicSniRouter.Dataplane.Writes

/-
  The flow of a client and the session entry of its tuple.
  Both record a backend; short headers follow the flow, and
  would follow the entry without it.  They agree as long as
  an Initial that an alias answers for is not at odds with
  the tuple of its client.

  Main declarations:
    * `Dataplane.AgreesFor`
    * `Dataplane.KeepsAgreement`
    * `Dataplane.fast_path_agrees`
-/

------------------------------------------------------------
-- Agreement Of Two Tables
------------------------------------------------------------

namespace QuicSniRouter

open LinearProbing SessionTable

variable {tupleKey : SessionKey}

namespace Dataplane

/-
  For the clients among some: the backend of a live flow
  equals that of the entry under the client's tuple.
-/
def AgreesFor
    (among : Sockaddr → Prop)
    (sessions : SessionTable)
    (flows : FlowTable) : Prop :=
  ∀ s, Holds sessions.capacity sessions.sessions s →
    ∀ slot < flows.capacity, ∀ flow,
      flows.flows slot = some flow → among flow.client →
        s.key.equals (SessionKey.tupleKey flow.client) =
          true →
          flow.backend.equals s.backend = true

/- The clients at one address, and those at others. -/
def At
    (source client : Sockaddr) : Prop :=
  client.equals source = true

/- Another client than the sender. -/
def Elsewhere
    (source client : Sockaddr) : Prop :=
  client.equals source = false

variable {hash : Bytes → Nat} {among : Sockaddr → Prop}
variable {sessions after : SessionTable} {flows : FlowTable}
variable {source : Sockaddr}

theorem AgreesFor.mono
    {fewer : Sockaddr → Prop}
    (hAgrees : AgreesFor among sessions flows)
    (hFewer : ∀ client, fewer client → among client) :
    AgreesFor fewer sessions flows := by
  intro s hHolds slot hSlot flow hFlow hAmong
  exact hAgrees s hHolds slot hSlot flow hFlow
    (hFewer flow.client hAmong)

theorem agrees_of_parts
    (hAt : AgreesFor (At source) sessions flows)
    (hElse : AgreesFor (Elsewhere source) sessions flows) :
    AgreesFor (fun _ => True) sessions flows := by
  intro s hHolds slot hSlot flow hFlow _
  cases hEquals : flow.client.equals source with
  | true => exact hAt s hHolds slot hSlot flow hFlow hEquals
  | false =>
      exact hElse s hHolds slot hSlot flow hFlow hEquals

theorem AgreesFor.inherits
    (hAgrees : AgreesFor among sessions flows)
    (hInherits : SessionTable.Inherits sessions after) :
    AgreesFor among after flows := by
  intro s hHolds slot hSlot flow hFlow hAmong hKey
  rcases hInherits.entries s hHolds with ⟨old, hOld, hRenewed⟩
  rw [hRenewed.key] at hKey
  rw [hRenewed.backend]
  exact hAgrees old hOld slot hSlot flow hFlow hAmong hKey

/- Flows may go away or change other than in their backend. -/
theorem AgreesFor.of_flows
    {flows' : FlowTable}
    (hAgrees : AgreesFor among sessions flows)
    (hFlows :
      ∀ slot < flows'.capacity, ∀ flow,
        flows'.flows slot = some flow → among flow.client →
          ∃ slot' < flows.capacity, ∃ old,
            flows.flows slot' = some old ∧
              flow.client = old.client ∧
              flow.backend = old.backend) :
    AgreesFor among sessions flows' := by
  intro s hHolds slot hSlot flow hFlow hAmong hKey
  rcases hFlows slot hSlot flow hFlow hAmong with
    ⟨slot', hSlot', old, hOld, hClient, hBackend⟩
  rw [hClient] at hAmong hKey
  rw [hBackend]
  exact hAgrees s hHolds slot' hSlot' old hOld hAmong hKey

theorem AgreesFor.shrinks
    {flows' : FlowTable}
    {events : List FlowEvent}
    (hAgrees : AgreesFor among sessions flows)
    (hShrinks : FlowTable.Shrinks flows flows' events) :
    AgreesFor among sessions flows' := by
  apply hAgrees.of_flows
  intro slot hSlot flow hFlow _
  rw [hShrinks.capacity] at hSlot
  exact ⟨slot, hSlot, flow, hShrinks.flow hFlow, rfl, rfl⟩

theorem AgreesFor.touchFlow
    {slot : Nat}
    {flow : Flow}
    (now : Int)
    (hAgrees : AgreesFor among sessions flows)
    (hSlot : slot < flows.capacity)
    (hFlow : flows.flows slot = some flow) :
    AgreesFor among sessions
      (flows.setFlow slot { flow with lastSeen := now }) := by
  apply hAgrees.of_flows
  intro t ht other hOther _
  rcases fill_eq_some hOther with ⟨_, hEq⟩ | ⟨_, hOld⟩
  · rw [hEq]
    exact ⟨slot, hSlot, flow, hFlow, rfl, rfl⟩
  · exact ⟨t, ht, other, hOld, rfl, rfl⟩

/-
  A put changes the agreement only for the clients whose
  tuple key it writes.
-/
theorem AgreesFor.put
    (args : PutArgs)
    (hInv : sessions.Inv hash)
    (hAgrees : AgreesFor among sessions flows)
    (hKey :
      ∀ client, among client → args.key.valid = true →
        args.key.equals (SessionKey.tupleKey client) =
          false) :
    AgreesFor among (putInternal hash 2 sessions args).2
      flows := by
  by_cases hAccepts : sessions.Accepts args
  · rcases putInternal_ok hInv hAccepts with
      ⟨after, slot, entry, hPut, hWrote⟩
    have hThin := makeRoom_thinned args hInv
    have hCapacity :=
      hWrote.frame.capacity.trans hThin.frame.capacity
    rw [hPut]
    intro s hHolds t ht flow hFlow hAmong hTuple
    dsimp only at hHolds
    rw [hCapacity] at hHolds
    rcases hWrote.holds hThin hHolds with
      hEq | ⟨hOld, _⟩
    · exfalso
      rw [hEq] at hTuple
      have hSame :=
        SessionKey.equals_trans
          (SessionKey.equals_symm hWrote.key) hTuple
      rw [hKey flow.client hAmong hAccepts.2.1] at hSame
      cases hSame
    · exact hAgrees s hOld t ht flow hFlow hAmong hTuple
  · rw [putInternal_refused hash hAccepts]
    exact hAgrees

/- Keys of connection ids are no tuple keys. -/
theorem AgreesFor.putCid
    (args : PutArgs)
    (hInv : sessions.Inv hash)
    (hAgrees : AgreesFor among sessions flows)
    (hKey : args.key.hasTuple = false) :
    AgreesFor among (putInternal hash 2 sessions args).2
      flows := by
  apply hAgrees.put args hInv
  intro client _ hValid
  by_contra hEquals
  have hCids :=
    (SessionKey.equals_iff.mp (by simpa using hEquals)).2.1
  rw [SessionKey.tupleKey_hasCids] at hCids
  simp [SessionKey.valid, hKey, hCids] at hValid

/- Binding a tuple leaves the other clients alone. -/
theorem AgreesFor.putTuple
    (args : PutArgs)
    (hInv : sessions.Inv hash)
    (hAgrees : AgreesFor (Elsewhere source) sessions flows)
    (hKey : args.key = SessionKey.tupleKey source) :
    AgreesFor (Elsewhere source)
      (putInternal hash 2 sessions args).2
      flows := by
  apply hAgrees.put args hInv
  intro client hElse hValid
  by_contra hEquals
  rw [hKey] at hValid hEquals
  have hSame :=
    SessionKey.equals_of_tupleKey (by simpa using hEquals)
      (SessionKey.tupleKey_hasTuple_of_valid hValid)
  have hClient := Sockaddr.equals_symm hSame
  rw [hElse] at hClient
  cases hClient

/- The entries under one tuple, by the slot of the lookup. -/
theorem agreesAt_of_get
    {i : Nat}
    (hInv : sessions.Inv hash)
    (hGet :
      sessions.get hash (SessionKey.tupleKey source) = some i)
    (hFlows :
      ∀ slot < flows.capacity, ∀ flow,
        flows.flows slot = some flow →
          flow.client.equals source = true →
            flow.backend.equals (sessions.backendAt i) =
              true) :
    AgreesFor (At source) sessions flows := by
  rintro s ⟨p, hp, hCell⟩ slot hSlot flow hFlow hAt hKey
  rw [SessionKey.tupleKey_congr hAt] at hKey
  rcases get_used hInv hGet with
    ⟨hi, entry, hEntry, hEntryKey⟩
  have hpi :=
    hInv.distinct p hp i hi s entry hCell hEntry
      (SessionKey.equals_trans hKey
        (SessionKey.equals_symm hEntryKey))
  subst hpi
  have hBackend := hFlows slot hSlot flow hFlow hAt
  unfold backendAt at hBackend
  rw [hCell] at hBackend
  exact hBackend

theorem agreesAt_of_no_entry
    (hInv : sessions.Inv hash)
    (hSource : source.valid = true)
    (hNone :
      sessions.get hash (SessionKey.tupleKey source) = none) :
    AgreesFor (At source) sessions flows := by
  rintro s ⟨p, hp, hCell⟩ slot hSlot flow hFlow hAt hKey
  rw [SessionKey.tupleKey_congr hAt] at hKey
  have hMiss :=
    (get_eq_none hInv
      (SessionKey.tupleKey_valid hSource)).mp hNone p hp s
      hCell
  rw [hMiss] at hKey
  cases hKey

theorem agreesAt_of_no_flow
    (hNone :
      ∀ slot < flows.capacity, ∀ flow,
        flows.flows slot = some flow →
          flow.client.equals source = false) :
    AgreesFor (At source) sessions flows := by
  intro s _ slot hSlot flow hFlow hAt
  have hMiss := hNone slot hSlot flow hFlow
  unfold At at hAt
  rw [hMiss] at hAt
  cases hAt

end Dataplane

variable {env : Env} {config : Config} {packet : Bytes}
variable {now : Int}

theorem rebindLong_none
    {hash : Bytes → Nat}
    {sessions after : SessionTable}
    (hNone : sessions.get hash tupleKey = none)
    (hRebind :
      rebindLong hash config sessions packet tupleKey now =
        (none, after)) :
    after.get hash tupleKey = none := by
  unfold rebindLong at hRebind
  split at hRebind
  · split at hRebind
    · unfold rebind at hRebind
      rcases Prod.mk.inj hRebind with ⟨hGet, hAfter⟩
      rw [← hAfter]
      exact hGet
    · rcases Prod.mk.inj hRebind with ⟨_, hAfter⟩
      rw [← hAfter]
      exact hNone
  · rcases Prod.mk.inj hRebind with ⟨_, hAfter⟩
    rw [← hAfter]
    exact hNone

theorem rebindAny_none
    {hash : Bytes → Nat}
    {sessions after : SessionTable}
    (hNone : sessions.get hash tupleKey = none)
    (hRebind :
      rebindAny hash config sessions packet tupleKey now =
        (none, after)) :
    after.get hash tupleKey = none := by
  unfold rebindAny at hRebind
  split at hRebind
  · split at hRebind
    · cases hRebind
    · rename_i bound hShort
      unfold rebind at hShort
      rcases Prod.mk.inj hShort with ⟨hGet, hBound⟩
      rw [hBound] at hGet
      exact rebindLong_none hGet hRebind
  · exact rebindLong_none hNone hRebind

/- Without a session a later packet's tuple has no entry. -/
theorem selectSession_none
    {sessions after : SessionTable}
    {source : Sockaddr}
    {status : Status}
    (hLater : Quic.parseInitial packet = .error status)
    (hSelect :
      selectSession env config sessions packet source now =
        (none, after)) :
    after.get env.hash (SessionKey.tupleKey source) =
      none := by
  unfold selectSession at hSelect
  rw [hLater] at hSelect
  dsimp only at hSelect
  split at hSelect
  · cases hSelect
  · split at hSelect
    · cases hSelect
    · rename_i hNone
      exact rebindAny_none hNone hSelect

namespace Dataplane

variable {hash : Bytes → Nat} {dp : Dataplane}
variable {client backend : Sockaddr}
variable {result : Option Nat × Dataplane}
variable {sessions : SessionTable} {slot t i : Nat}
variable {flow : Flow} {among : Sockaddr → Prop}
variable {flows : FlowTable} {datagram : Datagram}

/- The client's flow is aimed where it was asked to be. -/
theorem Acquired.client_flow
    (hAcquired : Acquired hash dp client backend now result)
    (hInv : dp.flows.Inv hash)
    (hSome : result.1 = some slot)
    (ht : t < result.2.flows.capacity)
    (hFlow : result.2.flows.flows t = some flow)
    (hClient : flow.client.equals client = true) :
    flow.backend.equals backend = true := by
  have hAfter := hAcquired.inv hInv
  have hCapacity := hAcquired.capacity
  rcases hAcquired.flow hSome with
    ⟨hSlot, own, hOwn, hOwnClient, hAims, _⟩
  rw [← hCapacity] at hSlot
  have hts :=
    hAfter.clientsDistinct t ht slot hSlot flow own hFlow
      hOwn (Sockaddr.equals_trans hClient
        (Sockaddr.equals_symm hOwnClient))
  subst hts
  rw [hFlow] at hOwn
  cases hOwn
  exact hAims.equals

/- Where acquisition fails the client has no flow. -/
theorem Acquired.no_client_flow
    (hAcquired : Acquired hash dp client backend now result)
    (hInv : dp.flows.Inv hash)
    (hValid : client.valid = true)
    (hNone : result.1 = none)
    (ht : t < result.2.flows.capacity)
    (hFlow : result.2.flows.flows t = some flow) :
    flow.client.equals client = false := by
  rw [hAcquired.capacity] at ht
  have hGet : dp.flows.get hash client = none := by
    cases hAcquired with
    | reaimed => cases hNone
    | failed flows events answers hAfter hShrinks hGet =>
        exact hGet
    | dropped base flows events answers fd s p rest hAfter
        hShrinks hBase hRemoved hGet =>
        exact hGet
    | created => cases hNone
  rcases hAcquired.others hFlow with
    hOld | ⟨hSome, _⟩
  · by_contra hEquals
    have hFound :=
      (FlowTable.get_eq_some hInv).mpr
        ⟨hValid, ht, flow, hOld, by simpa using hEquals⟩
    rw [hGet] at hFound
    cases hFound
  · rw [hNone] at hSome
    cases hSome

theorem AgreesFor.acquired
    (hAcquired : Acquired hash dp client backend now result)
    (hAgrees :
      AgreesFor (Elsewhere client) sessions dp.flows) :
    AgreesFor (Elsewhere client) sessions result.2.flows := by
  apply hAgrees.of_flows
  intro slot hSlot flow hFlow hElse
  rw [hAcquired.capacity] at hSlot
  rcases hAcquired.others hFlow with
    hOld | ⟨_, hClient, _⟩
  · exact ⟨slot, hSlot, flow, hOld, rfl, rfl⟩
  · unfold Elsewhere at hElse
    rw [hElse] at hClient
    cases hClient

variable {env : Env} {dp after : Dataplane} {packet : Bytes}
variable {source : Sockaddr} {now : Int}

/- A well-formed session table that agrees with the flows. -/
structure SessionsAgree
    (hash : Bytes → Nat)
    (among : Sockaddr → Prop)
    (flows : FlowTable)
    (sessions : SessionTable) : Prop where
  inv : sessions.Inv hash
  agrees : AgreesFor among sessions flows

theorem SessionsAgree.putCid
    (args : PutArgs)
    (hAgree : SessionsAgree hash among flows sessions)
    (hKey : args.key.hasTuple = false) :
    SessionsAgree hash among flows
      (putInternal hash 2 sessions args).2 :=
  ⟨putInternal_inv hash _ hAgree.inv,
    hAgree.agrees.putCid args hAgree.inv hKey⟩

theorem SessionsAgree.learnClient
    (packet : Bytes)
    (dest : BackendRef)
    (destLen : Nat)
    (now : Int)
    (ownerSlot ownerFlowId : Nat)
    (hAgree : SessionsAgree hash among flows sessions) :
    SessionsAgree hash among flows
      (learnClientLongHeaderCids hash sessions packet dest
        destLen now ownerSlot ownerFlowId) :=
  @learnClientLongHeaderCids_induction packet now hash
    (SessionsAgree hash among flows) dest destLen ownerSlot
    ownerFlowId
    (fun _ _ h hKey => h.putCid _ (learnedKeys_hasTuple hKey))
    sessions hAgree

/- Selecting a session touches only the source's tuple. -/
theorem SessionsAgree.select
    {flows : FlowTable}
    {sessions : SessionTable}
    (config : Config)
    (packet : Bytes)
    (source : Sockaddr)
    (now : Int)
    (hAgree :
      SessionsAgree env.hash (Elsewhere source) flows
        sessions) :
    SessionsAgree env.hash (Elsewhere source) flows
      (selectSession env config sessions packet source
        now).2 :=
  selectSession_induction
    (fun _ _ h _ =>
      ⟨putInternal_inv env.hash _ h.inv,
        h.agrees.putTuple _ h.inv rfl⟩)
    (fun _ _ _ h _ =>
      ⟨putInternal_inv env.hash _ h.inv,
        h.agrees.putTuple _ h.inv rfl⟩)
    hAgree

/-
  Forwarding along a session aims the client's flow at the
  backend of that session.
-/
theorem Forwarded.agrees
    (hForwarded : Forwarded env dp i packet source now after)
    (hFlows : dp.flows.Inv env.hash)
    (hSource : source.valid = true)
    (hElse :
      SessionsAgree env.hash (Elsewhere source) dp.flows
        dp.sessions)
    (hAt :
      ∀ flows : FlowTable,
        (∀ slot < flows.capacity, ∀ flow,
          flows.flows slot = some flow →
            flow.client.equals source = true →
              flow.backend.equals
                (dp.sessions.backendAt i) = true) →
          AgreesFor (At source) dp.sessions flows) :
    AgreesFor (fun _ => True) after.sessions after.flows := by
  have hInherits := touch_inherits dp.sessions i now
  cases hForwarded with
  | noFlow _ hAcquire =>
      have hAcquired := Acquired.of_eq hAcquire hFlows
      rw [hAcquired.frame.sessions]
      apply AgreesFor.inherits _ hInherits
      exact agrees_of_parts
        (agreesAt_of_no_flow (fun slot hSlot flow hFlow =>
          hAcquired.no_client_flow hFlows hSource rfl hSlot
            hFlow))
        (AgreesFor.acquired hAcquired hElse.agrees)
  | sent slot reached hAcquire =>
      have hAcquired := Acquired.of_eq hAcquire hFlows
      have hReached :
          AgreesFor (fun _ => True) dp.sessions
            reached.flows := by
        apply agrees_of_parts _
          (AgreesFor.acquired hAcquired hElse.agrees)
        apply hAt
        intro t ht flow hFlow hClient
        have hAims :=
          hAcquired.client_flow hFlows rfl ht hFlow hClient
        rw [touch_backendAt] at hAims
        exact hAims
      have hTouched :
          SessionsAgree env.hash (fun _ => True)
            reached.flows (dp.sessions.touch i now) :=
        ⟨touch_inv env.hash i now hElse.inv,
          hReached.inherits hInherits⟩
      unfold forward
      dsimp only
      rw [(enqueue_frame _ _).sessions,
        (enqueue_frame _ _).flows]
      exact (hTouched.learnClient packet _ _ now slot
        _).agrees

/- The tuple that is stored for an acquired flow. -/
theorem Acquired.putTuple_agrees
    {reached : Dataplane}
    {stored : SessionTable}
    {ownerFlowId : Nat}
    (hAcquired :
      Acquired env.hash dp source backend now
        (some slot, reached))
    (hFlows : dp.flows.Inv env.hash)
    (hSource : source.valid = true)
    (hBackend : backend.valid = true)
    (hAgree :
      SessionsAgree env.hash (fun _ => True) dp.flows
        sessions)
    (hPut :
      putInternal env.hash 2 sessions
        (aliasArgs (SessionKey.tupleKey source)
          (.addr backend.storage) backend.len now slot
          ownerFlowId) = (.ok, stored)) :
    SessionsAgree env.hash (fun _ => True) reached.flows
      stored := by
  have hElse :
      AgreesFor (Elsewhere source) sessions dp.flows :=
    hAgree.agrees.mono (fun _ _ => trivial)
  have hStoredElse :=
    (AgreesFor.acquired hAcquired hElse).putTuple
      (aliasArgs (SessionKey.tupleKey source)
        (.addr backend.storage) backend.len now slot
        ownerFlowId) hAgree.inv rfl
  rw [hPut] at hStoredElse
  rcases aliasArgs_wrote now slot ownerFlowId hAgree.inv
      (SessionKey.tupleKey_valid hSource) hBackend with
    ⟨wrote, cell, entry, hOk, hWrote, hGet, hAt⟩
  have hSame : stored = wrote :=
    congrArg Prod.snd (hPut.symm.trans hOk)
  rw [← hSame] at hWrote hGet hAt
  have hStoredAt :
      AgreesFor (At source) stored reached.flows := by
    apply agreesAt_of_get hWrote.inv hGet
    intro t ht flow hFlow hClient
    rw [hAt]
    exact hAcquired.client_flow hFlows rfl ht hFlow hClient
  exact ⟨hWrote.inv, agrees_of_parts hStoredAt hStoredElse⟩

/-
  A fresh Initial aims the client's flow and its tuple at
  the same backend.
-/
theorem Fresh.agrees
    (hFresh : Fresh env dp packet source now after)
    (hFlows : dp.flows.Inv env.hash)
    (hKeyed : dp.pending.Every PendingInitial.Keyed)
    (hSource : source.valid = true)
    (hValid :
      ∀ backend,
        dp.freshBackend env packet source now = some backend →
          backend.valid = true)
    (hAgree :
      SessionsAgree env.hash (fun _ => True) dp.flows
        dp.sessions) :
    AgreesFor (fun _ => True) after.sessions after.flows := by
  have hElse :
      AgreesFor (Elsewhere source) dp.sessions dp.flows :=
    hAgree.agrees.mono (fun _ _ => trivial)
  cases hFresh with
  | ignored => exact hAgree.agrees
  | buffered pending => exact hAgree.agrees
  | noFlow pending backend _ hChosen hAcquire =>
      have hAcquired := Acquired.of_eq hAcquire hFlows
      rw [hAcquired.frame.sessions]
      exact agrees_of_parts
        (agreesAt_of_no_flow (fun slot hSlot flow hFlow =>
          hAcquired.no_client_flow hFlows hSource rfl hSlot
            hFlow))
        (AgreesFor.acquired hAcquired hElse)
  | notStored pending backend slot reached hChosen hAcquire
      sessions status hStatus hPut =>
      -- A valid tuple and a valid backend are stored.
      exfalso
      have hAcquired := Acquired.of_eq hAcquire hFlows
      have hSessions := hAcquired.frame.sessions
      dsimp only at hSessions
      rw [hSessions] at hPut
      exact hStatus (tuple_stored hAgree.inv hSource
        (hValid backend hChosen) hPut)
  | installed initial pending routed slot reached sessions
      hSize hInitial hRoute hChosen hAcquire hPut =>
      have hAcquired := Acquired.of_eq hAcquire hFlows
      have hSessions := hAcquired.frame.sessions
      dsimp only at hSessions
      rw [hSessions] at hPut
      have hStored :=
        hAcquired.putTuple_agrees hFlows hSource
          (hValid routed.backend hChosen) hAgree hPut
      have hNoTuple :
          routed.entry.cidKey.hasTuple = false := by
        rw [routed_cidKey hKeyed hRoute]
        exact SessionKey.cidKey_hasTuple _ _
      have hAlias :
          SessionsAgree env.hash (fun _ => True) reached.flows
            (putAlias env.hash sessions routed.entry.cidKey
              (.addr routed.backend.storage)
              routed.backend.len now slot
              (reached.flowId slot)) :=
        @putAlias_induction now env.hash
          (SessionsAgree env.hash (fun _ => True)
            reached.flows) _ _ _ _ sessions
          routed.entry.cidKey
          (hStored.putCid _ hNoTuple) hStored
      dsimp only
      rw [(sendAll_frame _ _ _ _ _).sessions,
        (sendAll_frame _ _ _ _ _).flows]
      exact (hAlias.learnClient packet _ _ now slot _).agrees

------------------------------------------------------------
-- Agreement Along A Run
------------------------------------------------------------

/-
  What a client datagram must be like to keep its client's
  flow and tuple in agreement: encoded ids are off, sender
  and routed backend are IPv4 or IPv6 addresses, and an
  Initial that an alias answers for goes where the entry of
  its tuple, if there is one, goes as well.
-/
structure Concordant
    (env : Env)
    (dp : Dataplane)
    (datagram : Datagram)
    (source : Sockaddr) : Prop where
  codec : dp.config.cidCodec.enabled = false
  sender : source.valid = true
  routed :
    ∀ backend,
      dp.freshBackend env datagram.packet source
          datagram.now = some backend →
        backend.valid = true
  initial :
    ∀ initial i j,
      Quic.parseInitial datagram.packet = .ok initial →
      selectInitial env.hash dp.config dp.sessions initial =
        some i →
      dp.sessions.get env.hash
          (SessionKey.tupleKey source) = some j →
        (dp.sessions.backendAt i).equals
          (dp.sessions.backendAt j) = true

/- Client datagrams come with concordant answers. -/
def KeepsAgreement
    (env : Env)
    (dp : Dataplane) :
    Event → Prop
| .client datagram source _ =>
    Concordant env dp datagram source
| _ => True

/- Every tuple entry agrees with its client's flow. -/
def InAgreement
    (env : Env)
    (dp : Dataplane) : Prop :=
  SessionsAgree env.hash (fun _ => True) dp.flows dp.sessions

/- The entry of the tuple after a session was selected. -/
theorem Concordant.selected
    (hConcordant : Concordant env dp datagram source)
    (hInv : sessions.Inv env.hash)
    (hSelect :
      selectSession env dp.config dp.sessions
        datagram.packet source datagram.now =
          (some i, sessions))
    (flows : FlowTable)
    (hFlows :
      ∀ slot < flows.capacity, ∀ flow,
        flows.flows slot = some flow →
          flow.client.equals source = true →
            flow.backend.equals (sessions.backendAt i) =
              true) :
    AgreesFor (At source) sessions flows := by
  rcases selectSession_get hSelect with
    ⟨_, hGet⟩ | ⟨initial, hInitial, hFound⟩
  · exact agreesAt_of_get hInv hGet hFlows
  · rw [selectSession_initial dp.sessions source
      datagram.now hConcordant.codec hInitial] at hSelect
    rcases Prod.mk.inj hSelect with ⟨_, hSame⟩
    subst hSame
    cases hTuple :
        dp.sessions.get env.hash
          (SessionKey.tupleKey source) with
    | none =>
        exact agreesAt_of_no_entry hInv hConcordant.sender
          hTuple
    | some j =>
        apply agreesAt_of_get hInv hTuple
        intro slot hSlot flow hFlow hClient
        exact Sockaddr.equals_trans
          (hFlows slot hSlot flow hFlow hClient)
          (hConcordant.initial initial i j hInitial hFound
            hTuple)

/- Without a session the tuple is as it was, or unknown. -/
theorem Concordant.unselected
    (hConcordant : Concordant env dp datagram source)
    (hInv : sessions.Inv env.hash)
    (hAgrees : AgreesFor (fun _ => True) dp.sessions dp.flows)
    (hSelect :
      selectSession env dp.config dp.sessions
        datagram.packet source datagram.now =
          (none, sessions)) :
    AgreesFor (At source) sessions dp.flows := by
  cases hInitial : Quic.parseInitial datagram.packet with
  | error status =>
      exact agreesAt_of_no_entry hInv hConcordant.sender
        (selectSession_none hInitial hSelect)
  | ok initial =>
      rw [selectSession_initial dp.sessions source
        datagram.now hConcordant.codec hInitial] at hSelect
      rcases Prod.mk.inj hSelect with ⟨_, hSame⟩
      subst hSame
      exact hAgrees.mono (fun _ _ => trivial)

theorem client_agrees
    (datagram : Datagram)
    (source : Sockaddr)
    (answers : Answers)
    (hFlows : dp.flows.Inv env.hash)
    (hKeyed : dp.pending.Every PendingInitial.Keyed)
    (hBefore : InAgreement env dp)
    (hConcordant : Concordant env dp datagram source) :
    AgreesFor (fun _ => True)
      (dp.step env (.client datagram source answers)).sessions
      (dp.step env
        (.client datagram source answers)).flows := by
  have hHandled :=
    step_client_cases datagram source answers hFlows
  generalize
    dp.step env (.client datagram source answers) = after
    at hHandled ⊢
  have hSelected :=
    @SessionsAgree.select env dp.flows
      (dp.withAnswers answers).sessions
      (dp.withAnswers answers).config datagram.packet source
      datagram.now
      ⟨hBefore.inv, hBefore.agrees.mono (fun _ _ => trivial)⟩
  cases hHandled with
  | fast slot flow hCodec hShort hSlot hFlow hClient =>
      rw [(enqueue_frame _ _).sessions,
        (enqueue_frame _ _).flows]
      exact hBefore.agrees.touchFlow datagram.now hSlot hFlow
  | session i sessions _ hFast hSelect hForwarded =>
      rw [hSelect] at hSelected
      exact hForwarded.agrees hFlows hConcordant.sender
        hSelected
        (hConcordant.selected hSelected.inv hSelect)
  | fresh sessions _ hFast hSelect hFresh =>
      rw [hSelect] at hSelected
      have hAt :=
        hConcordant.unselected hSelected.inv hBefore.agrees
          hSelect
      exact hFresh.agrees hFlows hKeyed
        hConcordant.sender hConcordant.routed
        ⟨hSelected.inv, agrees_of_parts hAt hSelected.agrees⟩

theorem backend_agreement
    (slot : Nat)
    (datagram : Datagram)
    (answers : Answers)
    (hAgreement : InAgreement env dp) :
    InAgreement env
      (dp.step env (.backend slot datagram answers)) := by
  rw [step_backend]
  unfold handleBackendPacket
  cases hSlot : (dp.withAnswers answers).flows.slot slot with
  | none => exact hAgreement
  | some flow =>
      rcases FlowTable.slot_eq_some hSlot with ⟨hLt, hFlow⟩
      have hTouched :
          SessionsAgree env.hash (fun _ => True)
            (dp.flows.setFlow slot
              { flow with lastSeen := datagram.now })
            dp.sessions :=
        ⟨hAgreement.inv,
          hAgreement.agrees.touchFlow datagram.now hLt hFlow⟩
      have hLearned :=
        @learnBackendScid_induction datagram.packet
          datagram.now env.hash
          (SessionsAgree env.hash (fun _ => True)
            (dp.flows.setFlow slot
              { flow with lastSeen := datagram.now }))
          (.addr flow.backend.storage) flow.backend.len slot
          flow.id
          (fun _ _ h hKey =>
            h.putCid _ (backendKeys_hasTuple hKey))
          dp.sessions hTouched
      unfold InAgreement
      dsimp only
      rw [(enqueue_frame _ _).sessions,
        (enqueue_frame _ _).flows]
      exact hLearned

/- Sweeps and reloads only take entries and flows away. -/
theorem agreement_of_less
    {events : List FlowEvent}
    (hAgreement : InAgreement env dp)
    (hTables : Tables env after)
    (hInherits :
      SessionTable.Inherits dp.sessions after.sessions)
    (hShrinks :
      FlowTable.Shrinks dp.flows after.flows events) :
    InAgreement env after :=
  ⟨hTables.sessions,
    (hAgreement.agrees.inherits hInherits).shrinks hShrinks⟩

/- Each event keeps the agreement. -/
theorem step_agreement
    (event : Event)
    (hTables : Tables env dp)
    (hKeyed : dp.pending.Every PendingInitial.Keyed)
    (hKeeps : KeepsAgreement env dp event)
    (hAgreement : InAgreement env dp) :
    InAgreement env (dp.step env event) := by
  have hAfter := step_tables event hTables
  cases event with
  | client datagram source answers =>
      exact ⟨hAfter.sessions,
        client_agrees datagram source answers hTables.flows
          hKeyed hAgreement hKeeps⟩
  | backend slot datagram answers =>
      exact backend_agreement slot datagram answers hAgreement
  | flush answers =>
      exact hAgreement
  | sweep now =>
      rcases FlowTable.expireLoop_spec now
          dp.config.idleTimeoutSeconds
          (min (expireScanBudget dp.flows.capacity)
            dp.flows.capacity) hTables.flows with
        ⟨_, hShrinks⟩
      exact agreement_of_less hAgreement hAfter
        (expireIncremental_inherits _ _ _ _ hTables.sessions)
        hShrinks
  | reload file resolver =>
      rw [step_reload] at hAfter ⊢
      cases hLoad : loadResolved env.hash file resolver with
      | error status =>
          unfold reloadFromPath
          rw [hLoad]
          exact hAgreement
      | ok config =>
          rcases FlowTable.evictIf_spec
              (fun flow =>
                shouldEvictOnReload env.hash
                  dp.config.routes config.routes
                  flow.backend) hTables.flows with
            ⟨_, hShrinks, _⟩
          unfold reloadFromPath at hAfter ⊢
          rw [hLoad] at hAfter ⊢
          exact agreement_of_less hAgreement hAfter
            (evictIf_thinned _ hTables.sessions).inherits
            hShrinks

/- It holds in each such state. -/
theorem reachable_agreement
    (hReach : ReachableWhere env (KeepsAgreement env) dp) :
    InAgreement env dp := by
  induction hReach with
  | start hStarts =>
      refine ⟨hStarts.tables.sessions, ?_⟩
      rintro s ⟨slot, _, hCell⟩
      rw [hStarts.no_sessions slot] at hCell
      cases hCell
  | step event hReach hKeeps ih =>
      exact step_agreement event hReach.tables
        (hReach.every PendingInitial.kept_keyed) hKeeps ih

theorem fastPath_eq_some
    (hFast : dp.fastPath env packet source now = some after) :
    ∃ slot flow,
      dp.flows.get env.hash source = some slot ∧
        dp.flows.flows slot = some flow ∧
        after =
          enqueue
            (dp.setFlow slot { flow with lastSeen := now })
            { fd := flow.fd
              packet
              dest := flow.backend
              origin := some source } := by
  unfold fastPath at hFast
  split at hFast
  · split at hFast
    · rename_i slot hGet
      split at hFast
      · rename_i flow hFlow
        cases hFast
        exact ⟨slot, flow, hGet, hFlow, rfl⟩
      · cases hFast
    · cases hFast
  · cases hFast

/- On the fast path a datagram goes where its flow goes. -/
theorem fastPath_queued
    {answers : Answers}
    {item : SendItem}
    (hFast :
      (dp.fastPath env datagram.packet source
        datagram.now).isSome = true)
    (hItem :
      item ∈ dp.queuedBy env
        (.client datagram source answers)) :
    ∃ slot flow,
      dp.flows.get env.hash source = some slot ∧
        dp.flows.flows slot = some flow ∧
        item.dest = flow.backend := by
  cases hPath :
      (dp.withAnswers answers).fastPath env datagram.packet
        source datagram.now with
  | none =>
      rw [fastPath_withAnswers] at hPath
      rw [hPath] at hFast
      cases hFast
  | some after =>
      have hStep :
          dp.step env (.client datagram source answers) =
            after := by
        have hHandle :
            dp.step env (.client datagram source answers) =
              (dp.withAnswers answers).handleClientPacket
                env datagram.packet source
                datagram.now := rfl
        rw [hHandle]
        unfold handleClientPacket
        rw [hPath]
      rcases fastPath_eq_some hPath with
        ⟨slot, flow, hGet, hFlow, hAfter⟩
      refine ⟨slot, flow, hGet, hFlow, ?_⟩
      have hQueue :=
        @QueueStep.of_eq dp _ _ _
          (enqueue_queueStep
            ((dp.withAnswers answers).setFlow slot
              { flow with lastSeen := datagram.now })
            { fd := flow.fd
              packet := datagram.packet
              dest := flow.backend
              origin := some source })
          rfl rfl rfl
      rw [← hAfter, ← hStep] at hQueue
      rw [queuedBy_eq hQueue] at hItem
      rw [filter_single_subset hItem]

/-
  In every run of concordant client datagrams, flow and
  tuple entry of a client have the same backend, and so a
  short header goes where the entry says.
-/
theorem fast_path_agrees
    (hReach : ReachableWhere env (KeepsAgreement env) dp) :
    (∀ source i slot flow,
      dp.sessions.get env.hash
          (SessionKey.tupleKey source) = some i →
        dp.flows.get env.hash source = some slot →
          dp.flows.flows slot = some flow →
            flow.backend.equals (dp.sessions.backendAt i) =
              true) ∧
    ∀ datagram source answers i,
      (dp.fastPath env datagram.packet source
        datagram.now).isSome = true →
      dp.sessions.get env.hash
          (SessionKey.tupleKey source) = some i →
        ∀ item ∈ dp.queuedBy env
            (.client datagram source answers),
          item.dest.equals (dp.sessions.backendAt i) =
            true := by
  have hAgreement := reachable_agreement hReach
  have hTables := hReach.tables
  have hTuple :
      ∀ source i slot flow,
        dp.sessions.get env.hash
            (SessionKey.tupleKey source) = some i →
          dp.flows.get env.hash source = some slot →
            dp.flows.flows slot = some flow →
              flow.backend.equals
                (dp.sessions.backendAt i) = true := by
    intro source i slot flow hGet hFlowGet hFlow
    rcases get_used hTables.sessions hGet with
      ⟨hi, s, hCell, hKey⟩
    rcases (FlowTable.get_eq_some hTables.flows).mp
        hFlowGet with ⟨_, hSlot, found, hFound, hClient⟩
    rw [hFlow] at hFound
    cases hFound
    rw [← SessionKey.tupleKey_congr hClient] at hKey
    unfold backendAt
    rw [hCell]
    exact hAgreement.agrees s ⟨i, hi, hCell⟩ slot
      hSlot flow hFlow trivial hKey
  refine ⟨hTuple, ?_⟩
  intro datagram source answers i hFast hGet item hItem
  rcases fastPath_queued hFast hItem with
    ⟨slot, flow, hFlowGet, hFlow, hDest⟩
  rw [hDest]
  exact hTuple source i slot flow hGet hFlowGet hFlow

end Dataplane

namespace Deployment

open Dataplane

/- Both connections, as they come in. -/
def twoHandshakes : Env :=
  envWith [connection1, connection2]

/- One client opens a connection to server 1. -/
def opensFirst : Event :=
  .client (opening connection1 connection1_size)
    (client 4) (opens 4)

/- The same client opens one to server 2. -/
def opensSecond : Event :=
  .client (opening connection2 connection2_size)
    (client 4) (opens 5)

/- The state after the first handshake. -/
def afterFirst : Dataplane :=
  byName.step twoHandshakes opensFirst

/- The state after the second. -/
def afterSecond : Dataplane :=
  afterFirst.step twoHandshakes opensSecond

/- The first Initial is sent again. -/
def afterRetransmission : Dataplane :=
  afterSecond.step twoHandshakes opensFirst

/- Encoded ids are off at this step. -/
def CodecOff
    (dp : Dataplane)
    (_ : Event) : Prop :=
  dp.config.cidCodec.enabled = false

theorem afterRetransmission_reachable :
    ReachableWhere twoHandshakes CodecOff
      afterRetransmission := by
  have hStart :
      ReachableWhere twoHandshakes CodecOff byName :=
    ReachableWhere.start ⟨_, _, _, eq_okValue _ _⟩
  have hFirst :
      ReachableWhere twoHandshakes CodecOff afterFirst :=
    ReachableWhere.step _ hStart
      (show byName.config.cidCodec.enabled = false by
        decide +kernel)
  have hSecond :
      ReachableWhere twoHandshakes CodecOff afterSecond :=
    ReachableWhere.step _ hFirst
      (show afterFirst.config.cidCodec.enabled = false by
        decide +kernel)
  exact ReachableWhere.step _ hSecond
    (show afterSecond.config.cidCodec.enabled = false by
      decide +kernel)

/-
  The retransmission follows its pair alias and takes the
  flow back to server 1; the tuple stays with server 2.
-/
theorem retransmission_disagrees :
    ReachableWhere twoHandshakes CodecOff
        afterRetransmission ∧
      ∃ i slot flow,
        afterRetransmission.sessions.get twoHandshakes.hash
            (SessionKey.tupleKey (client 4)) = some i ∧
          afterRetransmission.flows.get twoHandshakes.hash
            (client 4) = some slot ∧
          afterRetransmission.flows.flows slot = some flow ∧
          flow.backend.equals
            (afterRetransmission.sessions.backendAt i) =
              false := by
  have hTuple :
      (afterRetransmission.sessions.get twoHandshakes.hash
          (SessionKey.tupleKey (client 4))).map
            afterRetransmission.sessions.backendAt =
        some
          { storage := SockaddrStorage.ofBytes (inet 2)
            len := 16 } := by
    decide +kernel
  have hSlot :
      afterRetransmission.flows.get twoHandshakes.hash
        (client 4) = some 0 := by
    decide +kernel
  have hFlow :
      (afterRetransmission.flows.flows 0).map Flow.backend =
        some
          { storage := SockaddrStorage.ofBytes (inet 1)
            len := 16 } := by
    decide +kernel
  rcases Option.map_eq_some_iff.mp hTuple with
    ⟨i, hGet, hEntry⟩
  rcases Option.map_eq_some_iff.mp hFlow with
    ⟨flow, hSome, hBackend⟩
  refine ⟨afterRetransmission_reachable, i, 0, flow, hGet,
    hSlot, hSome, ?_⟩
  rw [hEntry, hBackend]
  decide +kernel

/- Whether a datagram is concordant, as a test. -/
def concordantTest
    (env : Env)
    (dp : Dataplane)
    (datagram : Datagram)
    (source : Sockaddr) : Bool :=
  !dp.config.cidCodec.enabled && source.valid &&
    (dp.freshBackend env datagram.packet source
      datagram.now).all Sockaddr.valid &&
    match Quic.parseInitial datagram.packet with
    | .error _ => true
    | .ok initial =>
        (selectInitial env.hash dp.config dp.sessions
          initial).all (fun i =>
            (dp.sessions.get env.hash
              (SessionKey.tupleKey source)).all (fun j =>
                (dp.sessions.backendAt i).equals
                  (dp.sessions.backendAt j)))

theorem concordant_of_test
    {env : Env}
    {dp : Dataplane}
    {datagram : Datagram}
    {source : Sockaddr}
    (hTest : concordantTest env dp datagram source = true) :
    Concordant env dp datagram source := by
  unfold concordantTest at hTest
  simp only [Bool.and_eq_true, Bool.not_eq_true'] at hTest
  rcases hTest with ⟨⟨⟨hCodec, hValid⟩, hRouted⟩, hInitial⟩
  refine ⟨hCodec, hValid, ?_, ?_⟩
  · intro backend hBackend
    rw [hBackend] at hRouted
    exact hRouted
  · intro initial i j hParse hAlias hTuple
    rw [hParse] at hInitial
    dsimp only at hInitial
    rw [hAlias, hTuple] at hInitial
    exact hInitial

/- The first connection, and its Initial once more. -/
def sentAgain : Dataplane :=
  afterFirst.step twoHandshakes opensFirst

/-
  An alias answers for the retransmission, and leads where
  the tuple leads.
-/
theorem retransmission_agrees :
    (selectInitial twoHandshakes.hash afterFirst.config
        afterFirst.sessions firstHeader).isSome = true ∧
      (sentAgain.sessions.get twoHandshakes.hash
        (SessionKey.tupleKey (client 4))).isSome = true ∧
      (sentAgain.flows.get twoHandshakes.hash
        (client 4)).isSome = true ∧
      ∀ i slot flow,
        sentAgain.sessions.get twoHandshakes.hash
            (SessionKey.tupleKey (client 4)) = some i →
          sentAgain.flows.get twoHandshakes.hash
              (client 4) = some slot →
            sentAgain.flows.flows slot = some flow →
              flow.backend.equals
                (sentAgain.sessions.backendAt i) =
                  true := by
  have hReach :
      ReachableWhere twoHandshakes
        (KeepsAgreement twoHandshakes) sentAgain :=
    ReachableWhere.step _
      (ReachableWhere.step _
        (ReachableWhere.start ⟨_, _, _, eq_okValue _ _⟩)
        (concordant_of_test (by decide +kernel)))
      (concordant_of_test (by decide +kernel))
  refine ⟨by decide +kernel, by decide +kernel,
    by decide +kernel, ?_⟩
  exact (fast_path_agrees hReach).1 (client 4)

end Deployment

end QuicSniRouter
