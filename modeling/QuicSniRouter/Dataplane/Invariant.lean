import QuicSniRouter.Dataplane.Flows
import QuicSniRouter.Dataplane.Run
import QuicSniRouter.SessionTable.Contents

/-
  What the handlers leave alone, how they change the session
  table, and that both tables keep their representation in
  every reachable state.

  Main declarations:
    * `Dataplane.QueueFrame`
    * `selectSession_induction`
    * `Dataplane.chosenBackend`
    * `learnClientLongHeaderCids_induction`
    * `Dataplane.handleClientPacket_cases`
    * `Dataplane.Tables` and `Dataplane.ReachableWhere.tables`
-/

------------------------------------------------------------
-- Queueing
------------------------------------------------------------

namespace QuicSniRouter

open SessionTable

variable {P : SessionTable → Prop} {i : Nat}
variable {after : SessionTable} {source backend : Sockaddr}

namespace Dataplane

/- Only the queue, the answers and the logs may differ. -/
structure QueueFrame
    (before after : Dataplane) : Prop where
  config : after.config = before.config
  sessions : after.sessions = before.sessions
  flows : after.flows = before.flows
  pending : after.pending = before.pending
  mainFd : after.mainFd = before.mainFd
  sockets : after.sockets = before.sockets

theorem QueueFrame.trans
    {a b c : Dataplane}
    (hab : QueueFrame a b)
    (hbc : QueueFrame b c) :
    QueueFrame a c :=
  ⟨hbc.config.trans hab.config,
    hbc.sessions.trans hab.sessions,
    hbc.flows.trans hab.flows,
    hbc.pending.trans hab.pending,
    hbc.mainFd.trans hab.mainFd,
    hbc.sockets.trans hab.sockets⟩

/- A flush leaves the tables alone. -/
theorem flush_frame
    (dp : Dataplane) :
    QueueFrame dp dp.flush :=
  ⟨rfl, rfl, rfl, rfl, rfl, rfl⟩

variable (dp : Dataplane) (fd : Int)

/- Queueing leaves the tables alone. -/
theorem enqueue_frame
    (item : SendItem) :
    QueueFrame dp (dp.enqueue item) := by
  unfold enqueue
  split
  · exact ⟨rfl, rfl, rfl, rfl, rfl, rfl⟩
  · dsimp only
    split
    · exact ⟨rfl, rfl, rfl, rfl, rfl, rfl⟩
    · exact ⟨rfl, rfl, rfl, rfl, rfl, rfl⟩

theorem enqueueAll_frame
    (dest source : Sockaddr)
    (packets : List Bytes) :
    QueueFrame dp (dp.enqueueAll fd dest source packets) := by
  induction packets generalizing dp with
  | nil => exact ⟨rfl, rfl, rfl, rfl, rfl, rfl⟩
  | cons packet packets ih =>
      exact (enqueue_frame dp _).trans (ih _)

/- Packets are queued together and then sent. -/
theorem sendAll_frame
    (dest source : Sockaddr)
    (packets : List Bytes) :
    QueueFrame dp
      (dp.enqueueAll fd dest source packets).flush :=
  (enqueueAll_frame dp fd dest source packets).trans
    (flush_frame _)

/- A datagram of at most the maximal size is queued. -/
theorem enqueue_enqueued
    (item : SendItem) :
    (dp.enqueue item).enqueued =
      dp.enqueued ++
        [item].filter
          (fun item =>
            item.packet.length ≤ maxDatagramSize) := by
  unfold enqueue
  split
  · rename_i hLong
    simp [hLong]
  · rename_i hFits
    dsimp only
    have hKeep :
        [item].filter
          (fun item =>
            decide (item.packet.length ≤ maxDatagramSize)) =
          [item] := by
      simp only [List.filter_cons, List.filter_nil]
      rw [if_pos (by simpa using hFits)]
    rw [hKeep]
    split
    · rfl
    · rfl

/- The items of a list of packets. -/
def itemsFor
    (fd : Int)
    (dest source : Sockaddr)
    (packets : List Bytes) : List SendItem :=
  (packets.map
    (fun packet =>
      ({ fd, packet, dest, origin := some source } :
        SendItem))).filter
    (fun item => item.packet.length ≤ maxDatagramSize)

/- The packets are queued in their order. -/
theorem enqueueAll_enqueued
    (dest source : Sockaddr)
    (packets : List Bytes) :
    (dp.enqueueAll fd dest source packets).enqueued =
      dp.enqueued ++ itemsFor fd dest source packets := by
  induction packets generalizing dp with
  | nil => simp [enqueueAll, itemsFor]
  | cons packet packets ih =>
      have hStep :
          dp.enqueueAll fd dest source (packet :: packets) =
            (dp.enqueue
              { fd, packet, dest
                origin := some source }).enqueueAll fd dest
              source packets := rfl
      rw [hStep, ih, enqueue_enqueued, List.append_assoc]
      simp only [itemsFor, List.map_cons]
      rw [← List.filter_append]
      rfl

end Dataplane

------------------------------------------------------------
-- Changes Of The Session Table
------------------------------------------------------------

namespace SessionKey

@[simp] theorem cidKey_hasTuple
    (dcid scid : Bytes) :
    (cidKey dcid scid).hasTuple = false := by
  unfold cidKey
  split
  · rfl
  · rfl

@[simp] theorem singleCidKey_hasTuple
    (cid : Bytes) :
    (singleCidKey cid).hasTuple = false := by
  unfold singleCidKey
  split
  · rfl
  · exact cidKey_hasTuple cid []

/- The key of an alias is not the key of a tuple. -/
theorem not_equals_tupleKey
    {key : SessionKey}
    {source : Sockaddr}
    (hValid : source.valid = true)
    (hTuple : key.hasTuple = false) :
    key.equals (tupleKey source) = false := by
  by_contra hNot
  have hEquals : key.equals (tupleKey source) = true := by
    simpa using hNot
  have hSame := (equals_iff.mp hEquals).1
  rw [hTuple,
    tupleKey_hasTuple_of_valid (tupleKey_valid hValid)]
    at hSame
  cases hSame

end SessionKey

variable {env : Env} {config : Config} {packet : Bytes}
variable {now : Int}
variable {hash : Bytes → Nat} {sessions : SessionTable}
variable {key : SessionKey} {tupleKey : SessionKey}

/- Selecting a session only ever binds the tuple. -/
theorem rebindLong_induction
    (hRebind :
      ∀ sessions key i, P sessions →
        sessions.get env.hash key = some i →
        P (bindClientTuple env.hash sessions tupleKey
          (sessions.backendAt i) now))
    {sessions : SessionTable}
    (hP : P sessions) :
    P (rebindLong env.hash config sessions packet tupleKey
      now).2 := by
  unfold rebindLong
  cases hLong :
      lookupLongHeaderDcid env.hash sessions packet with
  | none => exact hP
  | some i =>
      dsimp only
      split
      · unfold lookupLongHeaderDcid at hLong
        dsimp only at hLong
        split at hLong
        · cases hLong
        · split at hLong
          · cases hLong
          · split at hLong
            · cases hLong
            · exact hRebind sessions _ i hP hLong
      · exact hP

/- The lookup finds an entry that `get` finds. -/
theorem shortHeaderCidFrom_get
    (len : Nat)
    (hFound :
      shortHeaderCidFrom hash sessions packet len = some i) :
    ∃ key, sessions.get hash key = some i := by
  induction len with
  | zero => cases hFound
  | succ len ih =>
      unfold shortHeaderCidFrom at hFound
      split at hFound
      · cases hFound
      · split at hFound
        · split at hFound
          · rename_i hGet
            cases hFound
            exact ⟨_, hGet⟩
          · exact ih hFound
        · exact ih hFound

theorem lookupShortHeaderCid_get
    (hFound :
      lookupShortHeaderCid hash sessions packet = some i) :
    ∃ key, sessions.get hash key = some i := by
  unfold lookupShortHeaderCid at hFound
  split at hFound
  · cases hFound
  · exact shortHeaderCidFrom_get _ hFound

/- What rebinds keep, a lookup keeps. -/
theorem rebindAny_induction
    (hRebind :
      ∀ sessions key i, P sessions →
        sessions.get env.hash key = some i →
        P (bindClientTuple env.hash sessions tupleKey
          (sessions.backendAt i) now))
    {sessions : SessionTable}
    (hP : P sessions) :
    P (rebindAny env.hash config sessions packet tupleKey
      now).2 := by
  unfold rebindAny
  cases hShort :
      lookupShortHeaderCid env.hash sessions packet with
  | none => exact rebindLong_induction hRebind hP
  | some i =>
      rcases lookupShortHeaderCid_get hShort with ⟨key, hGet⟩
      have hBound := hRebind sessions key i hP hGet
      dsimp only
      split
      · rename_i j after hEq
        unfold rebind at hEq
        have hAfter := (Prod.mk.injEq _ _ _ _).mp hEq
        rw [hAfter.2] at hBound
        exact hBound
      · rename_i after hEq
        unfold rebind at hEq
        have hAfter := (Prod.mk.injEq _ _ _ _).mp hEq
        rw [hAfter.2] at hBound
        exact rebindLong_induction hRebind hBound

/- Without the codec, encoded ids find and bind nothing. -/
theorem lookupEncodedCid_off
    (sessions : SessionTable)
    (tupleKey : SessionKey)
    (hOff : config.cidCodec.enabled = false) :
    lookupEncodedCid env config sessions packet tupleKey
      now = (none, sessions) := by
  unfold lookupEncodedCid encodedRoute
  simp [hOff]

/- Without encoded ids an Initial goes by its aliases only. -/
theorem selectSession_initial
    {initial : Quic.Initial}
    (sessions : SessionTable)
    (source : Sockaddr)
    (now : Int)
    (hOff : config.cidCodec.enabled = false)
    (hInitial : Quic.parseInitial packet = .ok initial) :
    selectSession env config sessions packet source now =
      (selectInitial env.hash config sessions initial,
        sessions) := by
  unfold selectSession
  dsimp only
  rw [lookupEncodedCid_off sessions _ hOff, hInitial]

/- What rebinds keep, the selection keeps. -/
theorem selectSession_induction
    {P : SessionTable → Prop}
    {source : Sockaddr}
    (hEncoded :
      ∀ sessions route, P sessions →
        encodedRoute env.crypto config packet = some route →
        P (bindClientTuple env.hash sessions
          (SessionKey.tupleKey source) route.backend now))
    (hRebind :
      ∀ sessions key i, P sessions →
        sessions.get env.hash key = some i →
        P (bindClientTuple env.hash sessions
          (SessionKey.tupleKey source)
          (sessions.backendAt i) now))
    {sessions : SessionTable}
    (hP : P sessions) :
    P (selectSession env config sessions packet source
      now).2 := by
  have hFirst :
      P (lookupEncodedCid env config sessions packet
        (SessionKey.tupleKey source) now).2 := by
    unfold lookupEncodedCid
    cases hRoute : encodedRoute env.crypto config packet with
    | none => exact hP
    | some route => exact hEncoded sessions route hP hRoute
  unfold selectSession
  dsimp only
  generalize
    lookupEncodedCid env config sessions packet
      (SessionKey.tupleKey source) now = found at hFirst ⊢
  rcases found with ⟨session, sessions'⟩
  dsimp only at hFirst ⊢
  cases Quic.parseInitial packet with
  | ok initial => exact hFirst
  | error status =>
      cases session with
      | some i => exact hFirst
      | none =>
          dsimp only
          cases sessions'.get env.hash
              (SessionKey.tupleKey source) with
          | some i => exact hFirst
          | none => exact rebindAny_induction hRebind hFirst

/- A rebound session is the tuple's. -/
theorem rebindLong_get
    (hRebind :
      rebindLong hash config sessions packet tupleKey now =
        (some i, after)) :
    after.get hash tupleKey = some i := by
  unfold rebindLong at hRebind
  split at hRebind
  · split at hRebind
    · unfold rebind at hRebind
      rcases Prod.mk.inj hRebind with ⟨hGet, hAfter⟩
      rw [← hAfter]
      exact hGet
    · cases hRebind
  · cases hRebind

/- A rebound client is found in the slot. -/
theorem rebindAny_get
    (hRebind :
      rebindAny hash config sessions packet tupleKey now =
        (some i, after)) :
    after.get hash tupleKey = some i := by
  unfold rebindAny at hRebind
  split at hRebind
  · split at hRebind
    · rename_i j bound hShort
      cases hRebind
      unfold rebind at hShort
      rcases Prod.mk.inj hShort with ⟨hGet, hAfter⟩
      rw [← hAfter]
      exact hGet
    · exact rebindLong_get hRebind
  · exact rebindLong_get hRebind

/-
  The selected slot is the tuple's, unless the datagram is
  an Initial that an alias answers for.
-/
theorem selectSession_get
    (hSelect :
      selectSession env config sessions packet source now =
        (some i, after)) :
    ((∃ status, Quic.parseInitial packet = .error status) ∧
      after.get env.hash (SessionKey.tupleKey source) =
        some i) ∨
    ∃ initial,
      Quic.parseInitial packet = .ok initial ∧
        selectInitial env.hash config after initial =
          some i := by
  unfold selectSession at hSelect
  dsimp only at hSelect
  cases hInitial : Quic.parseInitial packet with
  | ok initial =>
      rw [hInitial] at hSelect
      rcases Prod.mk.inj hSelect with ⟨hFound, hAfter⟩
      rw [hAfter] at hFound
      exact Or.inr ⟨initial, rfl, hFound⟩
  | error status =>
      rw [hInitial] at hSelect
      refine Or.inl ⟨⟨status, rfl⟩, ?_⟩
      dsimp only at hSelect
      split at hSelect
      · rename_i j hEncoded
        rcases Prod.mk.inj hSelect with ⟨hFound, hAfter⟩
        unfold lookupEncodedCid at hEncoded hAfter
        split at hEncoded
        · cases hEncoded
        · rename_i route hRoute
          simp only [hRoute] at hAfter
          rw [← hAfter, ← hFound]
          exact hEncoded
      · split at hSelect
        · rename_i j hGet
          rcases Prod.mk.inj hSelect with ⟨hFound, hAfter⟩
          rw [← hAfter, ← hFound]
          exact hGet
        · exact rebindAny_get hSelect

theorem selectInitial_get
    {initial : Quic.Initial}
    (hSelect :
      selectInitial hash config sessions initial = some i) :
    ∃ key, sessions.get hash key = some i := by
  unfold selectInitial at hSelect
  split at hSelect
  · rename_i j hGet
    cases hSelect
    exact ⟨_, hGet⟩
  · unfold lookupLongHeaderRequestDcid at hSelect
    split at hSelect
    · rename_i j hGet
      split at hSelect
      · cases hSelect
        exact ⟨_, hGet⟩
      · cases hSelect
    · cases hSelect

/- The put behind an alias. -/
def aliasArgs
    (key : SessionKey)
    (dest : BackendRef)
    (destLen : Nat)
    (now : Int)
    (ownerSlot ownerFlowId : Nat) : PutArgs :=
  { key
    backendAddr := dest
    backendAddrLen := destLen
    now
    allowPressureEvict := true
    ownerSlot, ownerFlowId }

/- A valid key and a valid address are stored and found. -/
theorem aliasArgs_wrote
    (now : Int)
    (ownerSlot ownerFlowId : Nat)
    (hInv : sessions.Inv hash)
    (hKey : key.valid = true)
    (hBackend : backend.valid = true) :
    let args :=
      aliasArgs key (.addr backend.storage) backend.len now
        ownerSlot ownerFlowId
    ∃ after i entry,
      putInternal hash 2 sessions args = (.ok, after) ∧
      SessionTable.Wrote hash (sessions.makeRoom hash args)
        args after i entry ∧
      after.get hash key = some i ∧
      after.backendAt i = backend := by
  intro args
  have hAccepts : sessions.Accepts args :=
    ⟨hInv.pos, hKey, hBackend⟩
  rcases putInternal_ok hInv hAccepts with
    ⟨after, i, entry, hPut, hWrote⟩
  rcases hWrote.get hKey with ⟨hGet, hAt⟩
  exact ⟨after, i, entry, hPut, hWrote, hGet, hAt⟩

/- The put that binds a tuple to a backend. -/
def bindArgs
    (source backend : Sockaddr)
    (now : Int) : PutArgs :=
  aliasArgs (SessionKey.tupleKey source)
    (.addr backend.storage) backend.len now 0 0

/- A valid tuple is bound and found under its key. -/
theorem bindClientTuple_wrote
    (now : Int)
    (hInv : sessions.Inv hash)
    (hSource : source.valid = true)
    (hBackend : backend.valid = true) :
    ∃ after slot entry,
      bindClientTuple hash sessions
          (SessionKey.tupleKey source) backend now = after ∧
      SessionTable.Wrote hash
        (sessions.makeRoom hash (bindArgs source backend now))
        (bindArgs source backend now) after slot entry ∧
      after.get hash (SessionKey.tupleKey source) =
        some slot ∧
      after.backendAt slot = backend := by
  rcases aliasArgs_wrote now 0 0 hInv
      (SessionKey.tupleKey_valid hSource) hBackend with
    ⟨after, slot, entry, hPut, hWrote, hGet, hAt⟩
  refine ⟨after, slot, entry, ?_, hWrote, hGet, hAt⟩
  exact congrArg Prod.snd hPut

/- A put of such a tuple is not refused. -/
theorem tuple_stored
    {ownerSlot ownerFlowId : Nat}
    {status : Status}
    (hInv : sessions.Inv hash)
    (hSource : source.valid = true)
    (hBackend : backend.valid = true)
    (hPut :
      putInternal hash 2 sessions
        (aliasArgs (SessionKey.tupleKey source)
          (.addr backend.storage) backend.len now ownerSlot
          ownerFlowId) = (status, after)) :
    status = .ok := by
  rcases aliasArgs_wrote now ownerSlot ownerFlowId hInv
      (SessionKey.tupleKey_valid hSource) hBackend with
    ⟨_, _, _, hOk, _⟩
  exact congrArg Prod.fst (hPut.symm.trans hOk)

/- What puts keep, a new alias keeps. -/
theorem putAlias_induction
    {P : SessionTable → Prop}
    {dest : BackendRef}
    {destLen ownerSlot ownerFlowId : Nat}
    {sessions : SessionTable}
    (key : SessionKey)
    (hPut :
      P (putInternal hash 2 sessions
        (aliasArgs key dest destLen now ownerSlot
          ownerFlowId)).2)
    (hP : P sessions) :
    P (putAlias hash sessions key dest destLen now ownerSlot
      ownerFlowId) := by
  unfold putAlias
  split
  · exact hPut
  · exact hP

/- The aliases that a client's long header gives. -/
def learnedKeys
    (packet : Bytes) : List SessionKey :=
  match learnableHeader packet with
  | none => []
  | some header =>
      [SessionKey.singleCidKey header.dcid,
        SessionKey.cidKey header.dcid header.scid]

/- The alias that a backend's long header gives. -/
def backendKeys
    (packet : Bytes) : List SessionKey :=
  match learnableHeader packet with
  | none => []
  | some header => [SessionKey.singleCidKey header.scid]

/- Learning only ever puts keys without a tuple. -/
theorem learnedKeys_hasTuple
    (hKey : key ∈ learnedKeys packet) :
    key.hasTuple = false := by
  unfold learnedKeys at hKey
  cases hHeader : learnableHeader packet with
  | none =>
      rw [hHeader] at hKey
      cases hKey
  | some header =>
      rw [hHeader] at hKey
      rcases List.mem_pair.mp hKey with hEq | hEq
      · rw [hEq]
        exact SessionKey.singleCidKey_hasTuple _
      · rw [hEq]
        exact SessionKey.cidKey_hasTuple _ _

/- Ids from a backend come without a tuple. -/
theorem backendKeys_hasTuple
    (hKey : key ∈ backendKeys packet) :
    key.hasTuple = false := by
  unfold backendKeys at hKey
  cases hHeader : learnableHeader packet with
  | none =>
      rw [hHeader] at hKey
      cases hKey
  | some header =>
      rw [hHeader] at hKey
      rw [List.mem_singleton.mp hKey]
      exact SessionKey.singleCidKey_hasTuple _

/- What puts of ids keep, a long header keeps. -/
theorem learnClientLongHeaderCids_induction
    {P : SessionTable → Prop}
    {dest : BackendRef}
    {destLen ownerSlot ownerFlowId : Nat}
    (hPut :
      ∀ sessions key, P sessions → key ∈ learnedKeys packet →
        P (putInternal hash 2 sessions
          (aliasArgs key dest destLen now ownerSlot
            ownerFlowId)).2)
    {sessions : SessionTable}
    (hP : P sessions) :
    P (learnClientLongHeaderCids hash sessions packet dest
      destLen now ownerSlot ownerFlowId) := by
  unfold learnClientLongHeaderCids
  unfold learnedKeys at hPut
  cases hHeader : learnableHeader packet with
  | none => exact hP
  | some header =>
      rw [hHeader] at hPut
      have hFirst :
          P (putAlias hash sessions
            (SessionKey.singleCidKey header.dcid) dest
            destLen now ownerSlot ownerFlowId) :=
        putAlias_induction _ (hPut sessions _ hP (by simp)) hP
      exact putAlias_induction _
        (hPut _ _ hFirst (by simp)) hFirst

/- What puts of ids keep, a reply keeps. -/
theorem learnBackendScid_induction
    {P : SessionTable → Prop}
    {dest : BackendRef}
    {destLen ownerSlot ownerFlowId : Nat}
    (hPut :
      ∀ sessions key, P sessions → key ∈ backendKeys packet →
        P (putInternal hash 2 sessions
          (aliasArgs key dest destLen now ownerSlot
            ownerFlowId)).2)
    {sessions : SessionTable}
    (hP : P sessions) :
    P (learnBackendScid hash sessions packet dest destLen
      now ownerSlot ownerFlowId) := by
  unfold learnBackendScid
  unfold backendKeys at hPut
  cases hHeader : learnableHeader packet with
  | none => exact hP
  | some header =>
      rw [hHeader] at hPut
      exact putAlias_induction _
        (hPut sessions _ hP (by simp)) hP

------------------------------------------------------------
-- Client Datagrams By Outcome
------------------------------------------------------------

namespace Dataplane

variable {env : Env} {dp after : Dataplane}
variable {source : Sockaddr}

/- The backend for which a fresh datagram gets a flow. -/
def freshBackend
    (env : Env)
    (dp : Dataplane)
    (packet : Bytes)
    (source : Sockaddr)
    (now : Int) : Option Sockaddr :=
  if packet.length < minInitialDatagramSize then
    none
  else
    match Quic.parseInitial packet with
    | .error _ => none
    | .ok initial =>
        match (routeInitialDatagram env dp.config dp.pending
            packet initial source now).2 with
        | .error _ => none
        | .ok routed => some routed.backend

/-
  The backend that a client datagram hands to
  `flow_acquire`, if it gets there.
-/
def chosenBackend
    (env : Env)
    (dp : Dataplane)
    (packet : Bytes)
    (source : Sockaddr)
    (now : Int) : Option Sockaddr :=
  match dp.fastPath env packet source now with
  | some _ => none
  | none =>
      match selectSession env dp.config dp.sessions packet
          source now with
      | (some i, sessions) =>
          some ((sessions.touch i now).backendAt i)
      | (none, _) =>
          freshBackend env dp packet source now

/- The pending Initials with a datagram added to them. -/
def Buffered
    (env : Env)
    (dp : Dataplane)
    (packet : Bytes)
    (source : Sockaddr)
    (now : Int)
    (pending : PendingTable) : Prop :=
  ∃ initial,
    pending =
      (routeInitialDatagram env dp.config dp.pending packet
        initial source now).1

/- How a fresh datagram ends. -/
inductive Fresh
    (env : Env)
    (dp : Dataplane)
    (packet : Bytes)
    (source : Sockaddr)
    (now : Int) :
    Dataplane → Prop
  | ignored : Fresh env dp packet source now dp
  | buffered
      (pending : PendingTable)
      (hPending : Buffered env dp packet source now pending) :
      Fresh env dp packet source now { dp with pending }
  | noFlow
      (pending : PendingTable)
      (backend : Sockaddr)
      (after : Dataplane)
      (hChosen :
        freshBackend env dp packet source now = some backend)
      (hAcquire :
        flowAcquire env { dp with pending } source backend
          now = (none, after))
      (hPending : Buffered env dp packet source now pending) :
      Fresh env dp packet source now after
  | notStored
      (pending : PendingTable)
      (backend : Sockaddr)
      (slot : Nat)
      (after : Dataplane)
      (hChosen :
        freshBackend env dp packet source now = some backend)
      (hAcquire :
        flowAcquire env { dp with pending } source backend
          now = (some slot, after))
      (sessions : SessionTable)
      (status : Status)
      (hStatus : status ≠ .ok)
      (hPut :
        putInternal env.hash 2 after.sessions
          (aliasArgs (SessionKey.tupleKey source)
            (.addr backend.storage) backend.len now slot
            (after.flowId slot)) = (status, sessions))
      (hPending : Buffered env dp packet source now pending) :
      Fresh env dp packet source now
        { after with sessions }
  | installed
      (initial : Quic.Initial)
      (pending : PendingTable)
      (routed : RoutedInitial)
      (slot : Nat)
      (after : Dataplane)
      (sessions : SessionTable)
      (hSize : minInitialDatagramSize ≤ packet.length)
      (hInitial : Quic.parseInitial packet = .ok initial)
      (hRoute :
        routeInitialDatagram env dp.config dp.pending packet
          initial source now = (pending, .ok routed))
      (hChosen :
        freshBackend env dp packet source now =
          some routed.backend)
      (hAcquire :
        flowAcquire env { dp with pending } source
          routed.backend now = (some slot, after))
      (hPut :
        putInternal env.hash 2 after.sessions
          (aliasArgs (SessionKey.tupleKey source)
            (.addr routed.backend.storage)
            routed.backend.len now slot
            (after.flowId slot)) = (.ok, sessions)) :
      Fresh env dp packet source now
        (let queued :=
          (enqueueAll
            { after with
              sessions :=
                installRoute env sessions packet
                  routed.entry.cidKey routed.backend now
                  slot (after.flowId slot) }
            (after.flowFd slot) routed.backend source
            routed.entry.packets).flush
        { queued with
          pending := queued.pending.remove routed.cell })

/- An Initial comes to one of these ends. -/
theorem freshPath_cases
    (dp : Dataplane)
    (packet : Bytes)
    (source : Sockaddr)
    (now : Int) :
    Fresh env dp packet source now
      (dp.freshPath env packet source now) := by
  unfold freshPath
  by_cases hSize : packet.length < minInitialDatagramSize
  · rw [if_pos hSize]
    exact Fresh.ignored
  · rw [if_neg hSize]
    cases hInitial : Quic.parseInitial packet with
    | error status => exact Fresh.ignored
    | ok initial =>
        dsimp only
        cases hRoute :
            routeInitialDatagram env dp.config dp.pending
              packet initial source now with
        | mk pending outcome =>
            have hPending :
                Buffered env dp packet source now
                  pending :=
              ⟨initial, by rw [hRoute]⟩
            cases outcome with
            | error status =>
                exact Fresh.buffered pending hPending
            | ok routed =>
                have hChosen :
                    freshBackend env dp packet source now =
                      some routed.backend := by
                  unfold freshBackend
                  rw [if_neg hSize, hInitial]
                  simp only [hRoute]
                dsimp only
                cases hAcquire :
                    flowAcquire env { dp with pending }
                      source routed.backend now with
                | mk slot after =>
                    cases slot with
                    | none =>
                        exact Fresh.noFlow pending
                          routed.backend after hChosen
                          hAcquire hPending
                    | some slot =>
                        dsimp only
                        cases hPut :
                            after.sessions.putOwned env.hash
                              (SessionKey.tupleKey source)
                              (.addr routed.backend.storage)
                              routed.backend.len now slot
                              (after.flowId slot) with
                        | mk status sessions =>
                            by_cases hOk : status = .ok
                            · subst hOk
                              exact Fresh.installed initial
                                pending routed slot after
                                sessions (by omega)
                                hInitial hRoute hChosen
                                hAcquire hPut
                            · have hStop :=
                                @Fresh.notStored env dp
                                  packet source now pending
                                  routed.backend slot after
                                  hChosen hAcquire sessions
                                  status hOk hPut hPending
                              cases status with
                              | ok => exact absurd rfl hOk
                              | invalid => exact hStop
                              | truncated => exact hStop
                              | unsupported => exact hStop
                              | notFound => exact hStop
                              | full => exact hStop

/- The second half of the session path, with its flow. -/
def forward
    (env : Env)
    (dp : Dataplane)
    (selected : SessionTable)
    (session slot : Nat)
    (packet : Bytes)
    (source : Sockaddr)
    (now : Int) : Dataplane :=
  let learned :=
    learnClientLongHeaderCids env.hash selected packet
      (.slot session) (selected.backendAt session).len now
      slot (dp.flowId slot)
  enqueue { dp with sessions := learned }
    { fd := dp.flowFd slot
      packet
      dest := learned.backendAt session
      origin := some source }

/- How a datagram of a known session ends. -/
inductive Forwarded
    (env : Env)
    (dp : Dataplane)
    (session : Nat)
    (packet : Bytes)
    (source : Sockaddr)
    (now : Int) :
    Dataplane → Prop
  | noFlow
      (after : Dataplane)
      (hAcquire :
        flowAcquire env
          { dp with
            sessions := dp.sessions.touch session now }
          source
          ((dp.sessions.touch session now).backendAt session)
          now = (none, after)) :
      Forwarded env dp session packet source now after
  | sent
      (slot : Nat)
      (after : Dataplane)
      (hAcquire :
        flowAcquire env
          { dp with
            sessions := dp.sessions.touch session now }
          source
          ((dp.sessions.touch session now).backendAt session)
          now = (some slot, after)) :
      Forwarded env dp session packet source now
        (forward env after (dp.sessions.touch session now)
          session slot packet source now)

/- A packet with a session comes to one of these. -/
theorem sessionPath_cases
    (dp : Dataplane)
    (session : Nat)
    (packet : Bytes)
    (source : Sockaddr)
    (now : Int)
    (hInv : dp.flows.Inv env.hash) :
    Forwarded env dp session packet source now
      (dp.sessionPath env session packet source now) := by
  unfold sessionPath
  dsimp only
  have hAcquired :=
    flowAcquire_cases
      { dp with
        sessions := dp.sessions.touch session now }
      source
      ((dp.sessions.touch session now).backendAt session)
      now hInv
  cases hAcquire :
      flowAcquire env
        { dp with
          sessions := dp.sessions.touch session now }
        source
        ((dp.sessions.touch session now).backendAt session)
        now with
  | mk slot after =>
      cases slot with
      | none => exact Forwarded.noFlow after hAcquire
      | some slot =>
          have hSessions :
              after.sessions =
                dp.sessions.touch session now := by
            rw [hAcquire] at hAcquired
            exact hAcquired.frame.sessions
          dsimp only
          rw [hSessions]
          exact Forwarded.sent slot after hAcquire

/- The three paths of a client datagram. -/
inductive Handled
    (env : Env)
    (dp : Dataplane)
    (packet : Bytes)
    (source : Sockaddr)
    (now : Int) :
    Dataplane → Prop
  | fast
      (slot : Nat)
      (flow : Flow)
      (hCodec : dp.config.cidCodec.enabled = false)
      (hShort : Quic.hasLongBit packet = false)
      (hSlot : slot < dp.flows.capacity)
      (hFlow : dp.flows.flows slot = some flow)
      (hClient : flow.client.equals source = true) :
      Handled env dp packet source now
        (enqueue
          (dp.setFlow slot { flow with lastSeen := now })
          { fd := flow.fd
            packet
            dest := flow.backend
            origin := some source })
  | session
      (i : Nat)
      (sessions : SessionTable)
      (after : Dataplane)
      (hFast : dp.fastPath env packet source now = none)
      (hSelect :
        selectSession env dp.config dp.sessions packet
          source now = (some i, sessions))
      (hForwarded :
        Forwarded env { dp with sessions } i packet source
          now after) :
      Handled env dp packet source now after
  | fresh
      (sessions : SessionTable)
      (after : Dataplane)
      (hFast : dp.fastPath env packet source now = none)
      (hSelect :
        selectSession env dp.config dp.sessions packet
          source now = (none, sessions))
      (hFresh :
        Fresh env { dp with sessions } packet source now
          after) :
      Handled env dp packet source now after

/- What the fast path does. -/
theorem fastPath_cases
    (hInv : dp.flows.Inv env.hash)
    (hFast : dp.fastPath env packet source now = some after) :
    Handled env dp packet source now after := by
  unfold fastPath at hFast
  split at hFast
  · rename_i hGuard
    simp only [Bool.and_eq_true, Bool.not_eq_true',
      decide_eq_true_eq] at hGuard
    split at hFast
    · rename_i slot hGet
      rcases (FlowTable.get_eq_some hInv).mp hGet with
        ⟨_, hSlot, flow, hFlow, hClient⟩
      simp only [hFlow, Option.some.injEq] at hFast
      subst hFast
      exact Handled.fast slot flow hGuard.1.1 hGuard.2 hSlot
        hFlow hClient
    · cases hFast
  · cases hFast

/- The backend of a session is the chosen one. -/
theorem Handled.chosen_session
    {i : Nat}
    {sessions : SessionTable}
    (hFast : dp.fastPath env packet source now = none)
    (hSelect :
      selectSession env dp.config dp.sessions packet source
        now = (some i, sessions)) :
    dp.chosenBackend env packet source now =
      some ((sessions.touch i now).backendAt i) := by
  unfold chosenBackend
  rw [hFast]
  simp only [hSelect]

/- Without a session the Initial chooses. -/
theorem Handled.chosen_fresh
    {sessions : SessionTable}
    (hFast : dp.fastPath env packet source now = none)
    (hSelect :
      selectSession env dp.config dp.sessions packet source
        now = (none, sessions)) :
    dp.chosenBackend env packet source now =
      freshBackend env { dp with sessions } packet source
        now := by
  unfold chosenBackend
  rw [hFast]
  simp only [hSelect]
  rfl

theorem handleClientPacket_session
    {dp : Dataplane}
    {packet : Bytes}
    {source : Sockaddr}
    {now : Int}
    {i : Nat}
    {sessions : SessionTable}
    (hFast : dp.fastPath env packet source now = none)
    (hSelect :
      selectSession env dp.config dp.sessions packet source
        now = (some i, sessions)) :
    dp.handleClientPacket env packet source now =
      sessionPath env { dp with sessions } i packet source
        now := by
  unfold handleClientPacket
  rw [hFast]
  dsimp only
  rw [hSelect]

/- What becomes of a datagram of a client. -/
theorem handleClientPacket_cases
    (dp : Dataplane)
    (packet : Bytes)
    (source : Sockaddr)
    (now : Int)
    (hInv : dp.flows.Inv env.hash) :
    Handled env dp packet source now
      (dp.handleClientPacket env packet source now) := by
  unfold handleClientPacket
  cases hFast : dp.fastPath env packet source now with
  | some after => exact fastPath_cases hInv hFast
  | none =>
      dsimp only
      cases hSelect :
          selectSession env dp.config dp.sessions packet
            source now with
      | mk session sessions =>
          cases session with
          | some i =>
              exact Handled.session i sessions _ hFast hSelect
                (sessionPath_cases { dp with sessions } i
                  packet source now hInv)
          | none =>
              exact Handled.fresh sessions _ hFast hSelect
                (freshPath_cases { dp with sessions } packet
                  source now)

/- The same of the event that brings it. -/
theorem step_client_cases
    (datagram : Datagram)
    (source : Sockaddr)
    (answers : Answers)
    (hInv : dp.flows.Inv env.hash) :
    Handled env (dp.withAnswers answers) datagram.packet
      source datagram.now
      (dp.step env (.client datagram source answers)) :=
  handleClientPacket_cases _ _ _ _ hInv

------------------------------------------------------------
-- The Tables Of Reachable States
------------------------------------------------------------

/- Both tables represent their maps. -/
structure Tables
    (env : Env)
    (dp : Dataplane) : Prop where
  sessions : dp.sessions.Inv env.hash
  flows : dp.flows.Inv env.hash

/- The selection keeps the invariant. -/
theorem selectSession_inv
    (config : Config)
    {sessions : SessionTable}
    (packet : Bytes)
    (source : Sockaddr)
    (now : Int)
    (hInv : sessions.Inv env.hash) :
    (selectSession env config sessions packet source
      now).2.Inv env.hash :=
  selectSession_induction
    (fun _ _ h _ => putInternal_inv env.hash _ h)
    (fun _ _ _ h _ =>
      putInternal_inv env.hash _ h)
    hInv

theorem learnClientLongHeaderCids_inv
    {hash : Bytes → Nat}
    {sessions : SessionTable}
    (packet : Bytes)
    (dest : BackendRef)
    (destLen : Nat)
    (now : Int)
    (ownerSlot ownerFlowId : Nat)
    (hInv : sessions.Inv hash) :
    (learnClientLongHeaderCids hash sessions packet dest
      destLen now ownerSlot ownerFlowId).Inv hash :=
  @learnClientLongHeaderCids_induction packet now hash
    (fun sessions => sessions.Inv hash) dest destLen
    ownerSlot ownerFlowId
    (fun _ _ h _ => putInternal_inv hash _ h)
    sessions hInv

/- Installing a route keeps the invariant. -/
theorem installRoute_inv
    {sessions : SessionTable}
    (packet : Bytes)
    (cidKey : SessionKey)
    (backend : Sockaddr)
    (now : Int)
    (slot flowId : Nat)
    (hInv : sessions.Inv env.hash) :
    (installRoute env sessions packet cidKey backend now
      slot flowId).Inv env.hash := by
  unfold installRoute
  apply learnClientLongHeaderCids_inv
  exact @putAlias_induction now env.hash
    (fun sessions => sessions.Inv env.hash) _ _ _ _ sessions
    cidKey (putInternal_inv env.hash _ hInv)
    hInv

/- Acquiring a flow keeps both invariants. -/
theorem flowAcquire_tables
    {client backend : Sockaddr}
    {slot : Option Nat}
    (hTables : Tables env dp)
    (hAcquire :
      dp.flowAcquire env client backend now = (slot, after)) :
    Tables env after := by
  have hAcquired := Acquired.of_eq hAcquire hTables.flows
  have hSessions := hAcquired.frame.sessions
  have hFlows := hAcquired.inv hTables.flows
  dsimp only at hSessions hFlows
  exact ⟨by rw [hSessions]; exact hTables.sessions, hFlows⟩

theorem QueueFrame.tables
    {before : Dataplane}
    (hFrame : QueueFrame before after)
    (hTables : Tables env before) :
    Tables env after := by
  constructor
  · rw [hFrame.sessions]
    exact hTables.sessions
  · rw [hFrame.flows]
    exact hTables.flows

/- The path over a session keeps both. -/
theorem Forwarded.tables
    {session : Nat}
    (hTables : Tables env dp)
    (hForwarded :
      Forwarded env dp session packet source now after) :
    Tables env after := by
  have hTouched :
      Tables env
        { dp with
          sessions := dp.sessions.touch session now } :=
    ⟨touch_inv env.hash session now
      hTables.sessions, hTables.flows⟩
  cases hForwarded with
  | noFlow _ hAcquire =>
      exact flowAcquire_tables hTouched hAcquire
  | sent slot reached hAcquire =>
      have hReached := flowAcquire_tables hTouched hAcquire
      apply (enqueue_frame _ _).tables
      exact ⟨learnClientLongHeaderCids_inv _ _ _ _ _ _
        hTouched.sessions, hReached.flows⟩

/- The path of an Initial keeps both. -/
theorem Fresh.tables
    (hTables : Tables env dp)
    (hFresh : Fresh env dp packet source now after) :
    Tables env after := by
  have hBuffered :
      ∀ pending, Tables env { dp with pending } :=
    fun _ => ⟨hTables.sessions, hTables.flows⟩
  cases hFresh with
  | ignored => exact hTables
  | buffered pending => exact hBuffered pending
  | noFlow pending backend _ hChosen hAcquire =>
      exact flowAcquire_tables (hBuffered pending) hAcquire
  | notStored pending backend slot reached hChosen hAcquire
      sessions status hStatus hPut =>
      have hReached :=
        flowAcquire_tables (hBuffered pending) hAcquire
      have hStored :=
        putInternal_inv env.hash
          (aliasArgs (SessionKey.tupleKey source)
            (.addr backend.storage) backend.len now slot
            (reached.flowId slot))
          hReached.sessions
      rw [hPut] at hStored
      exact ⟨hStored, hReached.flows⟩
  | installed initial pending routed slot reached sessions
      hSize hInitial hRoute hChosen hAcquire hPut =>
      have hReached :=
        flowAcquire_tables (hBuffered pending) hAcquire
      have hStored :=
        putInternal_inv env.hash
          (aliasArgs (SessionKey.tupleKey source)
            (.addr routed.backend.storage)
            routed.backend.len now slot
            (reached.flowId slot))
          hReached.sessions
      rw [hPut] at hStored
      have hInstalled :=
        installRoute_inv packet routed.entry.cidKey
          routed.backend now slot (reached.flowId slot)
          hStored
      have hQueued :=
        (sendAll_frame
          { reached with
            sessions :=
              installRoute env sessions packet
                routed.entry.cidKey routed.backend now slot
                (reached.flowId slot) }
          (reached.flowFd slot) routed.backend source
          routed.entry.packets).tables
          ⟨hInstalled, hReached.flows⟩
      exact ⟨hQueued.sessions, hQueued.flows⟩

theorem setFlow_tables
    {slot : Nat}
    {flow : Flow}
    (new : Flow)
    (hTables : Tables env dp)
    (hFlow : dp.flows.flows slot = some flow)
    (hClient : new.client = flow.client) :
    Tables env (dp.setFlow slot new) :=
  ⟨hTables.sessions,
    FlowTable.setFlow_inv hTables.flows hFlow hClient⟩

/- Datagrams of clients keep both. -/
theorem handleClientPacket_tables
    (packet : Bytes)
    (source : Sockaddr)
    (now : Int)
    (hTables : Tables env dp) :
    Tables env
      (dp.handleClientPacket env packet source now) := by
  have hHandled :=
    handleClientPacket_cases dp packet source now
      hTables.flows
  generalize
    dp.handleClientPacket env packet source now = after
    at hHandled ⊢
  have hSelected :=
    selectSession_inv dp.config packet source now
      hTables.sessions
  cases hHandled with
  | fast slot flow hCodec hShort hSlot hFlow hClient =>
      exact (enqueue_frame _ _).tables
        (setFlow_tables _ hTables hFlow rfl)
  | session i sessions _ hFast hSelect hForwarded =>
      rw [hSelect] at hSelected
      have hFound : Tables env { dp with sessions } :=
        ⟨hSelected, hTables.flows⟩
      exact hForwarded.tables hFound
  | fresh sessions _ hFast hSelect hFresh =>
      rw [hSelect] at hSelected
      have hFound : Tables env { dp with sessions } :=
        ⟨hSelected, hTables.flows⟩
      exact hFresh.tables hFound

/- Datagrams of backends keep both. -/
theorem handleBackendPacket_tables
    (slot : Nat)
    (packet : Bytes)
    (now : Int)
    (hTables : Tables env dp) :
    Tables env
      (dp.handleBackendPacket env slot packet now) := by
  unfold handleBackendPacket
  cases hSlot : dp.flows.slot slot with
  | none => exact hTables
  | some flow =>
      have hFlow := (FlowTable.slot_eq_some hSlot).2
      apply (enqueue_frame _ _).tables
      refine ⟨?_, FlowTable.setFlow_inv hTables.flows hFlow
        rfl⟩
      exact @learnBackendScid_induction packet now env.hash
        (fun sessions => sessions.Inv env.hash) _ _ _ _
        (fun _ _ h _ =>
          putInternal_inv env.hash _ h)
        dp.sessions hTables.sessions

/- Sweeps keep both. -/
theorem runExpirySweeps_tables
    (now : Int)
    (hTables : Tables env dp) :
    Tables env (dp.runExpirySweeps env now) :=
  ⟨expireIncremental_inv env.hash _ _ _ _ hTables.sessions,
    (FlowTable.expireLoop_spec _ _ _ hTables.flows).1⟩

theorem reloadFromPath_tables
    (file : ConfigFile)
    (resolver : Resolver)
    (hTables : Tables env dp) :
    Tables env (dp.reloadFromPath env file resolver) := by
  unfold reloadFromPath
  cases loadResolved env.hash file resolver with
  | error status => exact hTables
  | ok config =>
      exact ⟨deleteWhere_inv env.hash _ _ 0 hTables.sessions,
        (FlowTable.evictIf_spec _ hTables.flows).1⟩

/- Each event keeps both invariants. -/
theorem step_tables
    (event : Event)
    (hTables : Tables env dp) :
    Tables env (dp.step env event) := by
  cases event with
  | client datagram source answers =>
      exact handleClientPacket_tables _ _ _
        ⟨hTables.sessions, hTables.flows⟩
  | backend slot datagram answers =>
      exact handleBackendPacket_tables _ _ _
        ⟨hTables.sessions, hTables.flows⟩
  | flush answers => exact ⟨hTables.sessions, hTables.flows⟩
  | sweep now => exact runExpirySweeps_tables now hTables
  | reload file resolver =>
      exact reloadFromPath_tables file resolver hTables

/- The parts of a freshly started router. -/
structure Started
    (hash : Bytes → Nat)
    (dp : Dataplane) : Prop where
  sessions :
    init dp.config.maxSessions = .ok dp.sessions
  flows :
    FlowTable.init (flowCapacity dp.config.maxSessions) =
      .ok dp.flows
  routes :
    ∃ table resolver,
      RouteTable.resolve hash resolver table =
        .ok dp.config.routes
  pending : dp.pending = PendingTable.init
  queue : dp.queue = []
  sockets : ∃ listen, dp.sockets = [listen]
  enqueued : dp.enqueued = []
  wire : dp.wire = []

/- A start has empty tables. -/
theorem Starts.started
    (hStarts : Starts env dp) :
    Started env.hash dp := by
  rcases hStarts with ⟨file, resolver, listen, hBoot⟩
  unfold boot at hBoot
  rcases except_bind_eq_ok hBoot with ⟨config, _, hStart⟩
  unfold start at hStart
  rcases except_bind_eq_ok hStart with
    ⟨sessions, hSessions, hRest⟩
  rcases except_bind_eq_ok hRest with ⟨flows, hFlows, hRest'⟩
  rcases except_bind_eq_ok hRest' with
    ⟨routes, hRoutes, hDone⟩
  cases hDone
  exact
    { sessions := hSessions
      flows := hFlows
      routes := ⟨config.routes, resolver, hRoutes⟩
      pending := rfl
      queue := rfl
      sockets := ⟨listen, rfl⟩
      enqueued := rfl
      wire := rfl }

theorem Starts.no_flows
    (hStarts : Starts env dp)
    (s : Nat) :
    dp.flows.flows s = none := by
  rw [(FlowTable.init_fresh hStarts.started.flows).1]

theorem Starts.no_sessions
    (hStarts : Starts env dp)
    (s : Nat) :
    dp.sessions.sessions s = none := by
  have hInit := hStarts.started.sessions
  unfold init at hInit
  split at hInit
  · cases hInit
  · simp only [Except.ok.injEq] at hInit
    rw [← hInit]

/- A start has both invariants. -/
theorem Starts.tables
    (hStarts : Starts env dp) :
    Tables env dp :=
  ⟨init_inv hStarts.started.sessions,
    FlowTable.init_inv hStarts.started.flows⟩

/- Both hold in each state that is reached. -/
theorem ReachableWhere.tables
    {allowed : Dataplane → Event → Prop}
    (hReach : ReachableWhere env allowed dp) :
    Tables env dp :=
  ReachableWhere.induction (fun _ h => h.tables)
    (fun _ event h _ => step_tables event h)
    hReach

end Dataplane

end QuicSniRouter
