import QuicSniRouter.Dataplane.TupleOwners

/-
  Connections that come back from another address.  A
  datagram that only an alias answers for binds its sender
  to the alias's backend.  If it has a long header, learning
  makes the sender's flow the owner of the alias.

  Main declarations:
    * `Dataplane.Rebinds` and `Dataplane.Rebinds.chosen`
    * `Refers`, learning through a reference
    * `Dataplane.Rebinds.transfers`
-/

------------------------------------------------------------
-- Rebinding
------------------------------------------------------------

namespace QuicSniRouter

open LinearProbing SessionKey

variable {header : Quic.LongHeader} {sessions : SessionTable}

namespace Dataplane

variable {env : Env} {dp : Dataplane} {packet : Bytes}
variable {source : Sockaddr} {now : Int} {cid : Bytes}
variable {i : Nat}

/- Neither flow, encoded id, Initial nor tuple answers. -/
structure Unanswered
    (env : Env)
    (dp : Dataplane)
    (packet : Bytes)
    (source : Sockaddr)
    (now : Int) : Prop where
  fast : dp.fastPath env packet source now = none
  encoded :
    lookupEncodedCid env dp.config dp.sessions packet
      (tupleKey source) now = (none, dp.sessions)
  initial :
    ∃ status, Quic.parseInitial packet = .error status
  tuple :
    dp.sessions.get env.hash (tupleKey source) = none

/- The datagram is routed through the alias of an id. -/
structure Rebinds
    (env : Env)
    (dp : Dataplane)
    (packet : Bytes)
    (source : Sockaddr)
    (now : Int)
    (cid : Bytes)
    (i : Nat) : Prop where
  unanswered : Unanswered env dp packet source now
  stored :
    dp.sessions.get env.hash (singleCidKey cid) = some i
  found :
    lookupShortHeaderCid env.hash dp.sessions packet =
        some i ∨
      (lookupLongHeaderDcid env.hash dp.sessions packet =
          some i ∧
        dp.config.routes.hasBackend env.hash
          (dp.sessions.backendAt i) = true)
  source : source.valid = true
  backend : (dp.sessions.backendAt i).valid = true

/- Long headers have no short-header id. -/
theorem lookupShortHeaderCid_long
    {hash : Bytes → Nat}
    {sessions : SessionTable}
    (hFound :
      lookupLongHeaderDcid hash sessions packet = some i) :
    lookupShortHeaderCid hash sessions packet = none := by
  unfold lookupLongHeaderDcid at hFound
  dsimp only at hFound
  split at hFound
  · cases hFound
  · rename_i hBits
    unfold lookupShortHeaderCid
    apply if_pos
    have hLong : Quic.hasLongBit packet = true := by
      by_contra hNot
      exact hBits (Or.inr (Or.inl (by simpa using hNot)))
    exact Or.inr (Or.inl hLong)

/- Rebinding selects the tuple that it has bound. -/
theorem Rebinds.select
    (hRebinds : Rebinds env dp packet source now cid i)
    (hTables : Tables env dp) :
    ∃ sessions j entry,
      selectSession env dp.config dp.sessions packet source
          now = (some j, sessions) ∧
      SessionTable.Wrote env.hash
        (dp.sessions.makeRoom env.hash
          (bindArgs source (dp.sessions.backendAt i) now))
        (bindArgs source (dp.sessions.backendAt i) now)
        sessions j entry ∧
      sessions.backendAt j = dp.sessions.backendAt i := by
  rcases hRebinds.unanswered with
    ⟨_, hEncoded, ⟨status, hInitial⟩, hTuple⟩
  rcases bindClientTuple_wrote now hTables.sessions
      hRebinds.source hRebinds.backend with
    ⟨after, slot, entry, hBind, hWrote, hGet, hAt⟩
  refine ⟨after, slot, entry, ?_, hWrote, hAt⟩
  have hRebind :
      rebind env.hash dp.sessions (tupleKey source) i now =
        (some slot, after) := by
    unfold rebind
    rw [hBind]
    dsimp only
    rw [hGet]
  unfold selectSession
  dsimp only
  rw [hEncoded, hInitial]
  dsimp only
  rw [hTuple]
  dsimp only
  unfold rebindAny
  rcases hRebinds.found with hShort | ⟨hLong, hConfigured⟩
  · rw [hShort]
    dsimp only
    rw [hRebind]
  · rw [lookupShortHeaderCid_long hLong]
    dsimp only
    unfold rebindLong
    rw [hLong]
    dsimp only
    rw [if_pos hConfigured, hRebind]

theorem Rebinds.chosen
    (hRebinds : Rebinds env dp packet source now cid i)
    (hTables : Tables env dp) :
    dp.chosenBackend env packet source now =
      some (dp.sessions.backendAt i) := by
  rcases hRebinds.select hTables with
    ⟨sessions, j, _, hSelect, _, hAt⟩
  unfold chosenBackend
  rw [hRebinds.unanswered.fast]
  dsimp only
  rw [hSelect]
  dsimp only
  rw [SessionTable.touch_backendAt, hAt]

end Dataplane

variable {hash : Bytes → Nat} {table : SessionTable}
variable {key : SessionKey} {backend : Sockaddr} {j : Nat}

/-
  A key that is stored, and another slot to which a put may
  refer for the backend.
-/
structure Refers
    (hash : Bytes → Nat)
    (table : SessionTable)
    (key : SessionKey)
    (j : Nat)
    (backend : Sockaddr) : Prop where
  inv : table.Inv hash
  stored : ∃ i, table.get hash key = some i ∧ i ≠ j
  used : table.sessions j ≠ none
  backend : table.backendAt j = backend

/- The entry of an alias after it was learned. -/
def LearnedAs
    (backend : Sockaddr)
    (slot flowId : Nat)
    (session : Session) : Prop :=
  session.backend = backend ∧ session.ownerSlot = slot ∧
    session.ownerFlowId = flowId

/- Learning a stored alias through the reference. -/
theorem Refers.putAlias
    {now : Int}
    {slot flowId : Nat}
    (hRefers : Refers hash table key j backend)
    (hBackend : backend.valid = true)
    (hOwned : flowId ≠ 0) :
    let after :=
      putAlias hash table key (.slot j) backend.len now slot
        flowId
    Refers hash after key j backend ∧
      after.EntryOf key (LearnedAs backend slot flowId) := by
  rcases hRefers.stored with ⟨i, hGet, hij⟩
  have hValid := SessionTable.valid_of_get hGet
  have hKind : (key.hasCids || key.hasTuple) = true := by
    simp only [valid, Bool.and_eq_true] at hValid
    rw [Bool.or_comm]
    exact hValid.1.1.1.1
  have hOf :
      table.backendOf
          (aliasArgs key (.slot j) backend.len now slot
            flowId) = backend := by
    have hSame :
        table.backendOf
            (aliasArgs key (.slot j) backend.len now slot
              flowId) =
          { storage := (table.backendAt j).storage
            len := backend.len } := rfl
    rw [hSame, hRefers.backend]
  have hAccepts :
      table.Accepts
        (aliasArgs key (.slot j) backend.len now slot
          flowId) := by
    refine ⟨hRefers.inv.pos, hValid, ?_⟩
    rw [hOf]
    exact hBackend
  rcases SessionTable.putInternal_ok hRefers.inv hAccepts with
    ⟨after, p, entry, hPut, hWrote⟩
  have hRoom :
      table.makeRoom hash
          (aliasArgs key (.slot j) backend.len now slot
            flowId) = table :=
    SessionTable.makeRoom_of_get hGet
  have hThin :=
    SessionTable.makeRoom_thinned
      (aliasArgs key (.slot j) backend.len now slot flowId)
      hRefers.inv
  rw [hRoom] at hWrote hThin
  have hpj : p ≠ j := by
    rcases hWrote.old with hNone | hAt
    · intro hEq
      rw [hEq] at hNone
      exact hRefers.used hNone
    · have hSame : table.get hash key = some p := hAt
      rw [hGet] at hSame
      cases hSame
      exact hij
  have hAfter :
      QuicSniRouter.putAlias hash table key (.slot j)
          backend.len now slot flowId = after := by
    unfold QuicSniRouter.putAlias
    rw [if_pos hKind]
    exact congrArg Prod.snd hPut
  dsimp only
  rw [hAfter]
  refine ⟨⟨hWrote.inv, ⟨p, (hWrote.get hValid).1, hpj⟩, ?_,
    ?_⟩, ?_⟩
  · rw [hWrote.sessions, fill_of_ne _ _ hpj.symm]
    exact hRefers.used
  · rw [hWrote.backendAt_of_ne hpj.symm]
    exact hRefers.backend
  · refine hWrote.entryOf hThin (equals_refl _)
      ⟨hWrote.backend.trans hOf, ?_⟩
    exact hWrote.owner hOwned

/-
  After a client's long header was learned, the alias of its
  destination id has the sender's flow as its owner.
-/
theorem Refers.learnClientLongHeaderCids
    {packet : Bytes}
    {now : Int}
    {slot flowId : Nat}
    (hHeader : learnableHeader packet = some header)
    (hRefers :
      Refers hash table (singleCidKey header.dcid) j backend)
    (hBackend : backend.valid = true)
    (hOwned : flowId ≠ 0) :
    (learnClientLongHeaderCids hash table packet (.slot j)
      backend.len now slot flowId).EntryOf
        (singleCidKey header.dcid)
        (LearnedAs backend slot flowId) := by
  unfold QuicSniRouter.learnClientLongHeaderCids
  rw [hHeader]
  dsimp only
  rcases hRefers.stored with ⟨i, hGet, _⟩
  have hValid := SessionTable.valid_of_get hGet
  rcases @Refers.putAlias hash table
      (singleCidKey header.dcid) backend j now
      slot flowId hRefers hBackend hOwned with
    ⟨hAgain, hFirst⟩
  -- the pair may have the same key, if there is no source id
  cases hPair :
      (cidKey header.dcid header.scid).equals
        (singleCidKey header.dcid) with
  | true =>
      have hSame :
          cidKey header.dcid header.scid =
            singleCidKey header.dcid := by
        rw [(cidKey_equals_single hValid hPair).2,
          (singleCidKey_valid hValid).1]
      rw [hSame]
      exact (hAgain.putAlias hBackend hOwned).2
  | false =>
      exact putAlias_induction _
        (hFirst.putInternal _ hAgain.inv hPair) hFirst

------------------------------------------------------------
-- The Owner After A Rebinding
------------------------------------------------------------

/- A new key is stored without an eviction. -/
structure SessionTable.Roomy
    (table : SessionTable) : Prop where
  pressure : table.pressureEvictNeeded = false
  count : table.count < table.capacity

theorem SessionTable.Roomy.makeRoom
    {hash : Bytes → Nat}
    {table : SessionTable}
    (hRoomy : table.Roomy)
    (hInv : table.Inv hash)
    (args : PutArgs) :
    table.makeRoom hash args = table := by
  unfold SessionTable.makeRoom
  cases hProbe : table.probe hash args.key with
  | hit i => rfl
  | vacant i =>
      simp only [hRoomy.pressure, Bool.and_false]
      rfl
  | exhausted =>
      have hHome :=
        SessionTable.hash_lt hash args.key hInv.pos
      have hLess := hRoomy.count
      rw [hInv.count] at hLess
      rcases exists_vacant hLess with ⟨v, hv, hNone⟩
      rcases walk_exhausted hHome hProbe v hv with
        ⟨e, hCell, _⟩
      rw [hNone] at hCell
      cases hCell

/- The alias that a learnable long header is found by. -/
theorem lookupLongHeaderDcid_header
    {packet : Bytes}
    {i : Nat}
    (hFound :
      lookupLongHeaderDcid hash sessions packet = some i)
    (hHeader : learnableHeader packet = some header) :
    sessions.get hash
      (singleCidKey header.dcid) = some i := by
  have hDcid :=
    (Quic.parseLongHeader_of
      (learnableHeader_eq_some.mp hHeader)).dcid
  unfold lookupLongHeaderDcid at hFound
  dsimp only at hFound
  split at hFound
  · cases hFound
  · split at hFound
    · cases hFound
    · split at hFound
      · cases hFound
      · rw [hDcid]
        exact hFound

/- Short headers are not learned from. -/
theorem learnableHeader_short
    {packet : Bytes}
    {i : Nat}
    (hFound :
      lookupShortHeaderCid hash sessions packet = some i) :
    learnableHeader packet = none := by
  unfold lookupShortHeaderCid at hFound
  split at hFound
  · cases hFound
  · rename_i hBits
    unfold learnableHeader
    apply if_pos
    right
    left
    by_contra hNot
    exact hBits (Or.inr (Or.inl (by simpa using hNot)))

namespace Dataplane

variable {env : Env} {dp after : Dataplane} {packet : Bytes}
variable {source : Sockaddr} {now : Int} {cid : Bytes}
variable {i : Nat} {slot : Nat} {header : Quic.LongHeader}

/- Neither live flows nor the next one have id zero. -/
structure NonzeroIds
    (flows : FlowTable) : Prop where
  next : flows.nextId ≠ 0
  live :
    ∀ slot flow, flows.flows slot = some flow → flow.id ≠ 0

theorem Acquired.get_none
    (hAcquired :
      Acquired hash dp source backend now (none, after)) :
    dp.flows.get hash source = none := by
  cases hAcquired with
  | failed flows events answers hInv hShrinks hGet =>
      exact hGet
  | dropped base flows events answers fd s p rest hInv
      hShrinks hBase hRemoved hGet =>
      exact hGet

/- Without a flow to acquire there is none afterwards. -/
theorem Acquired.absent
    (hAcquired :
      Acquired hash dp source backend now (none, after))
    (hBefore : dp.flows.Inv hash)
    (hGet : after.flows.get hash source = some slot) :
    False := by
  have hNone := hAcquired.get_none
  rcases (FlowTable.get_eq_some (hAcquired.inv
      hBefore)).mp hGet with
    ⟨hValid, hSlot, flow, hFlow, hClient⟩
  rcases hAcquired.live hFlow with
    ⟨old, hOld, _, hSame⟩ | ⟨_, hSome, _⟩
  · have hCapacity := hAcquired.capacity
    dsimp only at hCapacity
    rw [hCapacity] at hSlot
    rw [hSame] at hClient
    have hFound :=
      (FlowTable.get_eq_some hBefore).mpr
        ⟨hValid, hSlot, old, hOld, hClient⟩
    rw [hNone] at hFound
    cases hFound
  · cases hSome

/-
  The table after the binding: the alias where it was, and
  the tuple in another slot with the alias's backend.
-/
theorem Rebinds.refers
    {sessions : SessionTable}
    {entry : Session}
    (hRebinds : Rebinds env dp packet source now cid i)
    (hTables : Tables env dp)
    (hRoomy : dp.sessions.Roomy)
    (hHeader : learnableHeader packet = some header)
    (hWrote :
      SessionTable.Wrote env.hash
        (dp.sessions.makeRoom env.hash
          (bindArgs source (dp.sessions.backendAt i) now))
        (bindArgs source (dp.sessions.backendAt i) now)
        sessions j entry)
    (hAt : sessions.backendAt j = dp.sessions.backendAt i) :
    header.dcid = cid ∧
    Refers env.hash (sessions.touch j now)
      (singleCidKey header.dcid) j
      (dp.sessions.backendAt i) := by
  rw [hRoomy.makeRoom hTables.sessions] at hWrote
  have hLong :
      lookupLongHeaderDcid env.hash dp.sessions packet =
        some i := by
    rcases hRebinds.found with hShort | ⟨hLong, _⟩
    · rw [learnableHeader_short hShort] at hHeader
      cases hHeader
    · exact hLong
  have hGet := lookupLongHeaderDcid_header hLong hHeader
  rcases SessionTable.get_used hTables.sessions hGet with
    ⟨hi, s, hCell, hSingle⟩
  rcases SessionTable.get_used hTables.sessions
      hRebinds.stored with
    ⟨_, s', hCell', hKey⟩
  rw [hCell] at hCell'
  cases hCell'
  have hij : i ≠ j := by
    rcases hWrote.old with hNone | hTuple
    · intro hEq
      rw [← hEq, hCell] at hNone
      cases hNone
    · have hFound :
          dp.sessions.get env.hash
            (tupleKey source) = some j := hTuple
      rw [hRebinds.unanswered.tuple] at hFound
      cases hFound
  have hBound : sessions.sessions j = some entry := by
    rw [hWrote.sessions, fill_self]
  have hTouched := SessionTable.touch_sessions now hBound
  have hDcid :=
    singleCidKey_inj (SessionTable.valid_of_get hGet)
      (SessionTable.valid_of_get hRebinds.stored)
      (equals_trans (equals_symm hSingle) hKey)
  refine ⟨hDcid,
    SessionTable.touch_inv env.hash j now hWrote.inv,
    ⟨i, ?_, hij⟩, ?_, ?_⟩
  · apply SessionTable.touch_get j now hWrote.inv
    apply (SessionTable.get_eq_some hWrote.inv
      (SessionTable.valid_of_get hGet)).mpr
    rw [hWrote.frame.capacity]
    refine ⟨hi, s, ?_, hSingle⟩
    rw [hWrote.sessions, fill_of_ne _ _ hij, hCell]
  · rw [hTouched, fill_self]
    exact Option.some_ne_none _
  · rw [SessionTable.touch_backendAt, hAt]

/-
  Forwarding a long header makes the sender's flow the owner
  of the alias of its destination id.
-/
theorem sessionPath_transfers
    {header : Quic.LongHeader}
    {backend : Sockaddr}
    {j slot : Nat}
    (hFlows : dp.flows.Inv env.hash)
    (hRefers :
      Refers env.hash (dp.sessions.touch j now)
        (singleCidKey header.dcid) j backend)
    (hHeader : learnableHeader packet = some header)
    (hBackend : backend.valid = true)
    (hGet :
      (dp.sessionPath env j packet source now).flows.get
        env.hash source = some slot)
    (hOwned :
      ∀ flow,
        (dp.sessionPath env j packet source
          now).flows.flows slot = some flow →
          flow.id ≠ 0) :
    let after := dp.sessionPath env j packet source now
    ∃ flow, slot < after.flows.capacity ∧
      after.flows.flows slot = some flow ∧
      flow.client.equals source = true ∧ flow.id ≠ 0 ∧
      after.sessions.EntryOf (singleCidKey header.dcid)
        (LearnedAs backend slot flow.id) := by
  have hForwarded :=
    @sessionPath_cases env dp j packet source now hFlows
  generalize dp.sessionPath env j packet source now = after
    at hForwarded hGet hOwned ⊢
  dsimp only
  cases hForwarded with
  | noFlow _ hAcquire =>
      have hAcquired := Acquired.of_eq hAcquire hFlows
      exact (hAcquired.absent hFlows hGet).elim
  | sent s reached hAcquire =>
      have hAcquired := Acquired.of_eq hAcquire hFlows
      rcases hAcquired.holder with ⟨flow, hHolder, hId⟩
      have hReached := hAcquired.inv hFlows
      unfold forward at hGet hOwned ⊢
      dsimp only at hGet hOwned ⊢
      rw [(enqueue_frame _ _).flows] at hGet hOwned ⊢
      rw [(enqueue_frame _ _).sessions, hId]
      rcases (FlowTable.get_eq_some hReached).mp hGet with
        ⟨_, hSlot, held, hHeld, hClient⟩
      have hSame : s = slot :=
        hReached.slot_unique hHolder.slot_lt hSlot
          hHolder.stored hHeld
          (Sockaddr.equals_trans hHolder.client
            (Sockaddr.equals_symm hClient))
      subst hSame
      have hFlowId := hOwned flow hHolder.stored
      refine ⟨flow, hHolder.slot_lt, hHolder.stored,
        hHolder.client, hFlowId, ?_⟩
      rw [hRefers.backend]
      exact hRefers.learnClientLongHeaderCids hHeader
        hBackend hFlowId

/- A rebinding by a long header takes the alias along. -/
theorem Rebinds.transfers
    (hRebinds : Rebinds env dp packet source now cid i)
    (hTables : Tables env dp)
    (hRoomy : dp.sessions.Roomy)
    (hIds : NonzeroIds dp.flows)
    (hHeader : learnableHeader packet = some header)
    (hGet :
      (dp.handleClientPacket env packet source
        now).flows.get env.hash source = some slot) :
    let after := dp.handleClientPacket env packet source now
    ∃ flow, slot < after.flows.capacity ∧
      after.flows.flows slot = some flow ∧
      flow.client.equals source = true ∧ flow.id ≠ 0 ∧
      after.sessions.EntryOf (singleCidKey cid)
        (LearnedAs (dp.sessions.backendAt i) slot
          flow.id) := by
  rcases hRebinds.select hTables with
    ⟨sessions, j, entry, hSelect, hWrote, hAt⟩
  rcases hRebinds.refers hTables hRoomy hHeader hWrote
      hAt with
    ⟨hDcid, hRefers⟩
  have hPath :=
    handleClientPacket_session hRebinds.unanswered.fast
      hSelect
  have hOwned :
      ∀ flow,
        (dp.handleClientPacket env packet source
          now).flows.flows slot = some flow →
          flow.id ≠ 0 := by
    intro flow hLive
    rw [hPath] at hLive
    have hForwarded :=
      @sessionPath_cases env { dp with sessions } j packet
        source now hTables.flows
    rcases hForwarded.live ⟨hWrote.inv, hTables.flows⟩
        hLive with
      ⟨old, hOld, hSame, _⟩ | hNew
    · rw [hSame]
      exact hIds.live slot old hOld
    · rw [hNew.id]
      exact hIds.next
  intro after
  rw [hPath] at hGet hOwned
  rcases @sessionPath_transfers env { dp with sessions }
      packet source now header (dp.sessions.backendAt i) j
      slot hTables.flows hRefers hHeader hRebinds.backend
      hGet hOwned with
    ⟨flow, hSlot, hFlow, hClient, hFlowId, hEntry⟩
  have hAfter :
      after =
        sessionPath env { dp with sessions } j packet source
          now := hPath
  rw [hAfter, ← hDcid]
  exact ⟨flow, hSlot, hFlow, hClient, hFlowId, hEntry⟩

end Dataplane

end QuicSniRouter
