import QuicSniRouter.Dataplane.Buffers

/-
  Everything that a datagram may write to the two tables:
  which puts it makes, under which keys and for which owner,
  which entries it refreshes, and what it does to the flows.
  Invariants of the tables are proved over these writes.

  Main declarations:
    * `Holder`
    * `ClientPut` and `BackendPut`
    * `Dataplane.client_sessions_induction`
    * `Dataplane.step_sessions_induction`
    * `Dataplane.step_entries_induction`
    * `Dataplane.ClientFlows` and `Dataplane.client_flows`
-/

------------------------------------------------------------
-- The Ids Of An Initial
------------------------------------------------------------

namespace QuicSniRouter

open SessionTable SessionKey

variable {initial : Quic.Initial} {config : Config}

/- The bits that are asked for are those the parser checks. -/
theorem learnableHeader_eq_some
    {packet : Bytes}
    {header : Quic.LongHeader} :
    learnableHeader packet = some header ↔
      Quic.parseLongHeader packet = .ok header := by
  constructor
  · intro hHeader
    unfold learnableHeader at hHeader
    split at hHeader
    · cases hHeader
    · cases hParse : Quic.parseLongHeader packet with
      | error status =>
          rw [hParse] at hHeader
          cases hHeader
      | ok parsed =>
          rw [hParse] at hHeader
          cases hHeader
          rfl
  · intro hParse
    have hOf := Quic.parseLongHeader_of hParse
    have hLength := hOf.length
    have hBits :
        ¬ (packet.length = 0 ∨ !Quic.hasLongBit packet ∨
          !Quic.hasFixedBit packet) := by
      rw [hOf.long, hOf.fixed]
      rintro (hZero | hLong | hFixed)
      · omega
      · cases hLong
      · cases hFixed
    unfold learnableHeader
    rw [if_neg hBits, hParse]
    rfl

/- An Initial is a long header with a long enough id. -/
theorem parseInitial_header
    {packet : Bytes}
    (hInitial : Quic.parseInitial packet = .ok initial) :
    ∃ header, learnableHeader packet = some header ∧
      header.dcid = initial.dcid ∧
      header.scid = initial.scid ∧
      minLearnedCidLen ≤ initial.dcid.length := by
  unfold Quic.parseInitial at hInitial
  rcases except_bind_eq_ok hInitial with
    ⟨header, hHeader, hRest⟩
  rcases except_guard_eq_ok hRest with ⟨_, hRest⟩
  rcases except_guard_eq_ok hRest with ⟨hDcid, hRest⟩
  rcases except_bind_eq_ok hRest with ⟨_, _, hRest⟩
  rcases except_guard_eq_ok hRest with ⟨_, hRest⟩
  rcases except_bind_eq_ok hRest with ⟨_, _, hRest⟩
  rcases except_guard_eq_ok hRest with ⟨_, hRest⟩
  rcases except_guard_eq_ok hRest with ⟨_, hRest⟩
  cases hRest
  exact ⟨header, learnableHeader_eq_some.mpr hHeader, rfl,
    rfl, Nat.le_of_not_lt hDcid⟩

theorem initial_learnedKeys
    {packet : Bytes}
    (hInitial : Quic.parseInitial packet = .ok initial) :
    singleCidKey initial.dcid ∈ learnedKeys packet ∧
      cidKey initial.dcid initial.scid ∈
        learnedKeys packet := by
  rcases parseInitial_header hInitial with
    ⟨header, hHeader, hDcid, hScid, _⟩
  unfold learnedKeys
  rw [hHeader, ← hDcid, ← hScid]
  simp

namespace PendingInitial

/- An entry stands for the two ids of an Initial. -/
def IdsOf
    (initial : Quic.Initial)
    (entry : PendingInitial) : Prop :=
  entry.dcid = initial.dcid ∧ entry.scid = initial.scid

theorem IdsOf.append
    {initial : Quic.Initial}
    {entry : PendingInitial}
    (packet : Bytes)
    (hIds : entry.IdsOf initial) :
    (entry.appendPacket packet).IdsOf initial := by
  unfold appendPacket
  split
  · exact hIds
  · split
    · exact hIds
    · split
      · exact hIds
      · exact hIds

end PendingInitial

namespace PendingTable

theorem findCell_test
    {pending : PendingTable}
    {test : Option PendingInitial → Bool}
    {i : Nat}
    (hFind : pending.findCell test = some i) :
    test (pending.entries i) = true := by
  have hTest := List.find?_some hFind
  exact hTest

/- The entry of an Initial stands for its ids. -/
theorem getEntry_idsOf
    (pending : PendingTable)
    (source : Sockaddr)
    (initial : Quic.Initial)
    (now : Int) :
    (pending.getEntry source initial now).2.1.IdsOf
      initial := by
  unfold getEntry
  dsimp only
  split
  · rename_i i hFind
    have hTest := findCell_test hFind
    cases hEntry : pending.entries i with
    | none =>
        rw [hEntry] at hTest
        cases hTest
    | some entry =>
        rw [hEntry] at hTest
        simp only [PendingInitial.matchesInitial,
          Bool.and_eq_true, beq_iff_eq] at hTest
        exact ⟨hTest.1.2, hTest.2⟩
  · split
    · exact ⟨rfl, rfl⟩
    · exact ⟨rfl, rfl⟩

end PendingTable

/- The alias of a routed Initial is that of its two ids. -/
theorem routed_cidKey
    {env : Env}
    {pending pending' : PendingTable}
    {packet : Bytes}
    {source : Sockaddr}
    {now : Int}
    {routed : RoutedInitial}
    (hKeyed : pending.Every PendingInitial.Keyed)
    (hRoute :
      routeInitialDatagram env config pending packet initial
        source now = (pending', .ok routed)) :
    routed.entry.cidKey =
      cidKey initial.dcid initial.scid := by
  rcases routed_entry (congrArg Prod.snd hRoute) with
    ⟨crypto, hEntry⟩
  have hKey : routed.entry.Keyed := by
    rw [hEntry]
    exact (bufferInitial_every packet initial source now
      crypto PendingInitial.kept_keyed hKeyed).1
  have hIds : routed.entry.IdsOf initial := by
    rw [hEntry]
    exact (pending.getEntry_idsOf source initial
      now).append packet
  rw [hKey, hIds.1, hIds.2]

------------------------------------------------------------
-- The Writes Of A Datagram
------------------------------------------------------------

/- The flow of a client that has just been used. -/
structure Holder
    (flows : FlowTable)
    (client : Sockaddr)
    (now : Int)
    (slot : Nat)
    (flow : Flow) : Prop where
  slot_lt : slot < flows.capacity
  stored : flows.flows slot = some flow
  client : flow.client.equals client = true
  lastSeen : flow.lastSeen = now

/-
  The puts of a client datagram, with the flow table that it
  leaves: a binding of its tuple without an owner, and the
  tuple and the learned ids for the client's flow.
-/
inductive ClientPut
    (packet : Bytes)
    (source : Sockaddr)
    (now : Int)
    (flows : FlowTable) :
    PutArgs → Prop
  | bound
      (backend : Sockaddr) :
      ClientPut packet source now flows
        (aliasArgs (tupleKey source)
          (.addr backend.storage) backend.len now 0 0)
  | tuple
      (backend : Sockaddr)
      (slot : Nat)
      (flow : Flow)
      (hHolder : Holder flows source now slot flow) :
      ClientPut packet source now flows
        (aliasArgs (tupleKey source)
          (.addr backend.storage) backend.len now slot
          flow.id)
  | learned
      (key : SessionKey)
      (dest : BackendRef)
      (destLen : Nat)
      (slot : Nat)
      (flow : Flow)
      (hKey : key ∈ learnedKeys packet)
      (hHolder : Holder flows source now slot flow) :
      ClientPut packet source now flows
        (aliasArgs key dest destLen now slot flow.id)

/- The keys by which a client datagram is looked up. -/
def LookupKey
    (packet : Bytes)
    (source : Sockaddr)
    (key : SessionKey) : Prop :=
  key = tupleKey source ∨ key ∈ learnedKeys packet

/- The put of a backend datagram on a flow. -/
inductive BackendPut
    (packet : Bytes)
    (now : Int)
    (slot : Nat)
    (flow : Flow) :
    PutArgs → Prop
  | learned
      (key : SessionKey)
      (hKey : key ∈ backendKeys packet) :
      BackendPut packet now slot flow
        (aliasArgs key (.addr flow.backend.storage)
          flow.backend.len now slot flow.id)

/- A selected entry is one that the datagram looks up. -/
theorem selectSession_lookupKey
    {env : Env}
    {sessions after : SessionTable}
    {packet : Bytes}
    {source : Sockaddr}
    {now : Int}
    {i : Nat}
    (hSelect :
      selectSession env config sessions packet source now =
        (some i, after)) :
    ∃ key, LookupKey packet source key ∧
      after.get env.hash key = some i := by
  rcases selectSession_get hSelect with
    ⟨_, hGet⟩ | ⟨initial, hInitial, hFound⟩
  · exact ⟨_, Or.inl rfl, hGet⟩
  · rcases initial_learnedKeys hInitial with ⟨hSingle, hPair⟩
    unfold selectInitial at hFound
    split at hFound
    · rename_i j hGet
      cases hFound
      exact ⟨_, Or.inr hPair, hGet⟩
    · unfold lookupLongHeaderRequestDcid at hFound
      split at hFound
      · rename_i j hGet
        split at hFound
        · cases hFound
          exact ⟨_, Or.inr hSingle, hGet⟩
        · cases hFound
      · cases hFound

namespace Dataplane

variable {env : Env} {dp : Dataplane} {packet : Bytes}
variable {source : Sockaddr} {now : Int} {backend : Sockaddr}
variable {slot : Nat} {after : Dataplane} {flows : FlowTable}
variable {sessions : SessionTable}

/- The flow that was acquired holds what is put for it. -/
theorem Acquired.holder
    {hash : Bytes → Nat}
    (hAcquired :
      Acquired hash dp source backend now
        (some slot, after)) :
    ∃ flow, Holder after.flows source now slot flow ∧
      after.flowId slot = flow.id := by
  rcases hAcquired.flow rfl with
    ⟨hSlot, flow, hFlow, hClient, _, hSeen⟩
  have hCapacity := hAcquired.capacity
  refine ⟨flow, ⟨?_, hFlow, hClient, hSeen⟩, ?_⟩
  · dsimp only at hCapacity
    rw [hCapacity]
    exact hSlot
  · dsimp only at hFlow
    simp [flowId, hFlow]

/- A property that all writes of a client keep. -/
structure ClientKeeps
    (env : Env)
    (packet : Bytes)
    (source : Sockaddr)
    (now : Int)
    (flows : FlowTable)
    (P : SessionTable → Prop) : Prop where
  put :
    ∀ table args, table.Inv env.hash → P table →
      ClientPut packet source now flows args →
        P (putInternal env.hash 2 table args).2
  touch :
    ∀ table key i, table.Inv env.hash → P table →
      LookupKey packet source key →
      table.get env.hash key = some i → P (table.touch i now)

variable {P : SessionTable → Prop}

theorem learned_induction
    {flow : Flow}
    (dest : BackendRef)
    (destLen : Nat)
    (hKeeps : ClientKeeps env packet source now flows P)
    (hHolder : Holder flows source now slot flow)
    (hInv : sessions.Inv env.hash)
    (hP : P sessions) :
    P (learnClientLongHeaderCids env.hash sessions packet
      dest destLen now slot flow.id) := by
  have hBoth :=
    @learnClientLongHeaderCids_induction packet now env.hash
      (fun table => table.Inv env.hash ∧ P table) dest
      destLen slot flow.id
      (fun table key h hKey =>
        ⟨putInternal_inv env.hash _ h.1,
          hKeeps.put table _ h.1 h.2
            (ClientPut.learned key dest destLen slot flow
              hKey hHolder)⟩)
      sessions ⟨hInv, hP⟩
  exact hBoth.2

theorem selected_induction
    (config : Config)
    (hKeeps : ClientKeeps env packet source now flows P)
    (hInv : sessions.Inv env.hash)
    (hP : P sessions) :
    P (selectSession env config sessions packet source
      now).2 := by
  have hBound :
      ∀ table (backend : Sockaddr),
        (table.Inv env.hash ∧ P table) →
          (bindClientTuple env.hash table
              (tupleKey source) backend
              now).Inv env.hash ∧
            P (bindClientTuple env.hash table
              (tupleKey source) backend now) :=
    fun table backend h =>
      ⟨putInternal_inv env.hash _ h.1,
        hKeeps.put table _ h.1 h.2 (ClientPut.bound backend)⟩
  have hBoth :=
    @selectSession_induction env config packet now
      (fun table => table.Inv env.hash ∧ P table) source
      (fun table route h _ => hBound table _ h)
      (fun table _ i h _ => hBound table _ h)
      sessions ⟨hInv, hP⟩
  exact hBoth.2

theorem Forwarded.sessions_induction
    {i : Nat}
    {key : SessionKey}
    (hForwarded : Forwarded env dp i packet source now after)
    (hKeeps : ClientKeeps env packet source now after.flows P)
    (hTables : Tables env dp)
    (hKey : LookupKey packet source key)
    (hGet : dp.sessions.get env.hash key = some i)
    (hP : P dp.sessions) :
    P after.sessions := by
  have hTouched :=
    hKeeps.touch _ key i hTables.sessions hP hKey hGet
  have hInv := touch_inv env.hash i now hTables.sessions
  cases hForwarded with
  | noFlow _ hAcquire =>
      have hAcquired := Acquired.of_eq hAcquire hTables.flows
      have hSessions := hAcquired.frame.sessions
      dsimp only at hSessions
      rw [hSessions]
      exact hTouched
  | sent slot reached hAcquire =>
      have hAcquired := Acquired.of_eq hAcquire hTables.flows
      rcases hAcquired.holder with ⟨flow, hHolder, hId⟩
      unfold forward at hKeeps ⊢
      dsimp only at hKeeps ⊢
      rw [(enqueue_frame _ _).flows] at hKeeps
      rw [(enqueue_frame _ _).sessions, hId]
      exact learned_induction _ _ hKeeps hHolder hInv hTouched

theorem Fresh.sessions_induction
    (hFresh : Fresh env dp packet source now after)
    (hKeeps : ClientKeeps env packet source now after.flows P)
    (hTables : Tables env dp)
    (hKeyed : dp.pending.Every PendingInitial.Keyed)
    (hP : P dp.sessions) :
    P after.sessions := by
  cases hFresh with
  | ignored => exact hP
  | buffered pending => exact hP
  | noFlow pending backend _ hChosen hAcquire =>
      have hAcquired := Acquired.of_eq hAcquire hTables.flows
      have hSessions := hAcquired.frame.sessions
      dsimp only at hSessions
      rw [hSessions]
      exact hP
  | notStored pending backend slot reached hChosen hAcquire
      sessions status hStatus hPut =>
      have hAcquired := Acquired.of_eq hAcquire hTables.flows
      have hSessions := hAcquired.frame.sessions
      dsimp only at hSessions
      rcases hAcquired.holder with ⟨flow, hHolder, hId⟩
      rw [hSessions, hId] at hPut
      have hAfter :=
        hKeeps.put dp.sessions _ hTables.sessions hP
          (ClientPut.tuple backend slot flow hHolder)
      rw [hPut] at hAfter
      exact hAfter
  | installed initial pending routed slot reached sessions
      hSize hInitial hRoute hChosen hAcquire hPut =>
      have hAcquired := Acquired.of_eq hAcquire hTables.flows
      have hSessions := hAcquired.frame.sessions
      dsimp only at hSessions
      rcases hAcquired.holder with ⟨flow, hHolder, hId⟩
      dsimp only at hKeeps ⊢
      rw [(sendAll_frame _ _ _ _ _).flows] at hKeeps
      rw [(sendAll_frame _ _ _ _ _).sessions]
      dsimp only at hKeeps ⊢
      rw [hSessions, hId] at hPut
      rw [hId]
      -- The tuple, the pair of ids, then what is learned.
      have hTuple :=
        hKeeps.put dp.sessions _ hTables.sessions hP
          (ClientPut.tuple routed.backend slot flow hHolder)
      have hTupleInv :=
        putInternal_inv env.hash
          (aliasArgs (tupleKey source)
            (.addr routed.backend.storage)
            routed.backend.len now slot flow.id)
          hTables.sessions
      rw [hPut] at hTuple hTupleInv
      have hPair :=
        hKeeps.put sessions _ hTupleInv hTuple
          (ClientPut.learned routed.entry.cidKey
            (.addr routed.backend.storage)
            routed.backend.len slot flow
            (by
              rw [routed_cidKey hKeyed hRoute]
              exact (initial_learnedKeys hInitial).2)
            hHolder)
      unfold installRoute
      apply learned_induction _ _ hKeeps hHolder
      · exact @putAlias_induction now env.hash
          (fun table => table.Inv env.hash) _ _ _ _ sessions
          routed.entry.cidKey
          (putInternal_inv env.hash _ hTupleInv)
          hTupleInv
      · exact @putAlias_induction now env.hash P _ _ _ _
          sessions routed.entry.cidKey hPair hTuple

/-
  What all writes of a client datagram keep, the datagram
  keeps.
-/
theorem client_sessions_induction
    (hKeeps :
      ClientKeeps env packet source now
        (dp.handleClientPacket env packet source now).flows
        P)
    (hTables : Tables env dp)
    (hKeyed : dp.pending.Every PendingInitial.Keyed)
    (hP : P dp.sessions) :
    P (dp.handleClientPacket env packet source
      now).sessions := by
  have hHandled :=
    handleClientPacket_cases dp packet source now
      hTables.flows
  have hInv :=
    selectSession_inv dp.config packet source now
      hTables.sessions
  have hSelected :=
    selected_induction dp.config hKeeps hTables.sessions hP
  generalize
    dp.handleClientPacket env packet source now = after
    at hHandled hKeeps ⊢
  cases hHandled with
  | fast slot flow hCodec hShort hSlot hFlow hClient =>
      rw [(enqueue_frame _ _).sessions]
      exact hP
  | session i sessions _ hFast hSelect hForwarded =>
      rcases selectSession_lookupKey hSelect with
        ⟨key, hKey, hGet⟩
      rw [hSelect] at hSelected hInv
      exact hForwarded.sessions_induction hKeeps
        ⟨hInv, hTables.flows⟩ hKey hGet hSelected
  | fresh sessions _ hFast hSelect hFresh =>
      rw [hSelect] at hSelected hInv
      exact hFresh.sessions_induction hKeeps
        ⟨hInv, hTables.flows⟩ hKeyed hSelected

/- A backend datagram puts at most one alias. -/
theorem backend_sessions_induction
    {slot : Nat}
    (hPut :
      ∀ flow args, dp.flows.slot slot = some flow →
        BackendPut packet now slot flow args →
          P (putInternal env.hash 2 dp.sessions args).2)
    (hP : P dp.sessions) :
    P (dp.handleBackendPacket env slot packet
      now).sessions := by
  unfold handleBackendPacket
  cases hSlot : dp.flows.slot slot with
  | none => exact hP
  | some flow =>
      dsimp only
      rw [(enqueue_frame _ _).sessions]
      unfold learnBackendScid
      cases hHeader : learnableHeader packet with
      | none => exact hP
      | some header =>
          exact putAlias_induction _
            (hPut flow _ hSlot
              (BackendPut.learned _
                (by simp [backendKeys, hHeader])))
            hP

/- A property that all session writes of a step keep. -/
def StepKeeps
    (env : Env)
    (dp : Dataplane)
    (P : SessionTable → Prop) :
    Event → Prop
| .client datagram source answers =>
    ClientKeeps env datagram.packet source datagram.now
      (dp.step env (.client datagram source answers)).flows
      P
| .backend slot datagram _ =>
    ∀ flow args, dp.flows.slot slot = some flow →
      BackendPut datagram.packet datagram.now slot flow args →
      P (putInternal env.hash 2 dp.sessions args).2
| .flush _ => True
| .sweep now => P (dp.runExpirySweeps env now).sessions
| .reload _ _ =>
    ∀ pred, P (dp.sessions.evictIf env.hash pred).2

theorem step_sessions_induction
    (event : Event)
    (hKeeps : StepKeeps env dp P event)
    (hTables : Tables env dp)
    (hKeyed : dp.pending.Every PendingInitial.Keyed)
    (hP : P dp.sessions) :
    P (dp.step env event).sessions := by
  cases event with
  | client datagram source answers =>
      have hAsked : Tables env (dp.withAnswers answers) :=
        ⟨hTables.sessions, hTables.flows⟩
      exact client_sessions_induction hKeeps hAsked hKeyed hP
  | backend slot datagram answers =>
      exact @backend_sessions_induction env
        (dp.withAnswers answers) datagram.packet
        datagram.now P slot hKeeps hP
  | flush answers => exact hP
  | sweep now => exact hKeeps
  | reload file resolver =>
      rw [step_reload]
      unfold reloadFromPath
      cases loadResolved env.hash file resolver with
      | error status => exact hP
      | ok config => exact hKeeps _

/- The puts of an event, with the flows that it leaves. -/
def StepPut
    (env : Env)
    (dp : Dataplane)
    (args : PutArgs) :
    Event → Prop
| .client datagram source answers =>
    ClientPut datagram.packet source datagram.now
      (dp.step env (.client datagram source answers)).flows
      args
| .backend slot datagram _ =>
    ∃ flow, dp.flows.slot slot = some flow ∧
      BackendPut datagram.packet datagram.now slot flow args
| _ => False

/-
  What holds of the entries along a step, if it does not
  depend on time stamps and every put of the step keeps it.
-/
theorem step_entries_induction
    {Q : Session → Prop}
    (event : Event)
    (hRenew :
      ∀ old new, SessionTable.Renewed old new → Q old → Q new)
    (hNew :
      ∀ (table : SessionTable) args,
        StepPut env dp args event → table.Accepts args →
          Q ((table.makeRoom env.hash args).newEntry args))
    (hUpdate :
      ∀ (table : SessionTable) args old,
        StepPut env dp args event → table.Accepts args →
        Q old → old.key.equals args.key = true →
          Q (refresh old
            ((table.makeRoom env.hash args).backendOf args)
            args))
    (hTables : Tables env dp)
    (hKeyed : dp.pending.Every PendingInitial.Keyed)
    (hAll : dp.sessions.Entries Q) :
    (dp.step env event).sessions.Entries Q := by
  have hPut :
      ∀ (table : SessionTable) args,
        table.Inv env.hash → StepPut env dp args event →
        table.Entries Q →
          (putInternal env.hash 2 table args).2.Entries Q :=
    fun table args hInv hStepPut hEntries =>
      putInternal_entries args hInv (hNew table args hStepPut)
        (fun old hAccepts =>
          hUpdate table args old hStepPut hAccepts)
        hEntries
  refine step_sessions_induction event ?_ hTables hKeyed hAll
  cases event with
  | client datagram source answers =>
      exact
        { put := fun table args hInv hEntries hClientPut =>
            hPut table args hInv hClientPut hEntries
          touch := fun table key i hInv hEntries hKey hGet =>
            (touch_inherits table i
              datagram.now).every hRenew hEntries }
  | backend slot datagram answers =>
      intro flow args hSlot hBackendPut
      exact hPut dp.sessions args hTables.sessions
        ⟨flow, hSlot, hBackendPut⟩ hAll
  | flush answers => trivial
  | sweep now =>
      exact (expireIncremental_inherits _ _ _ _
        hTables.sessions).every hRenew hAll
  | reload file resolver =>
      intro pred
      exact (deleteWhere_thinned pred _ 0
        hTables.sessions).inherits.every hRenew hAll

/- The session path ends with the flows it has acquired. -/
theorem sessionPath_flows
    (i : Nat) :
    (dp.sessionPath env i packet source now).flows =
      (dp.flowAcquire env source
        ((dp.sessions.touch i now).backendAt i)
        now).2.flows := by
  unfold sessionPath
  dsimp only
  have hElsewhere :=
    @flowAcquire_elsewhere env (dp.sessions.touch i now)
      dp.pending dp source
      ((dp.sessions.touch i now).backendAt i) now
  have hSame :
      dp.elsewhere (dp.sessions.touch i now) dp.pending =
        { dp with
          sessions := dp.sessions.touch i now } := rfl
  rw [hSame] at hElsewhere
  rw [hElsewhere]
  cases (dp.flowAcquire env source
      ((dp.sessions.touch i now).backendAt i) now).1 with
  | none => rfl
  | some slot =>
      dsimp only
      rw [(enqueue_frame _ _).flows]
      rfl

/- So does the fresh path, if it chooses a backend. -/
theorem freshPath_flows
    (hChosen :
      freshBackend env dp packet source now = some backend) :
    (dp.freshPath env packet source now).flows =
      (dp.flowAcquire env source backend now).2.flows := by
  unfold freshBackend at hChosen
  unfold freshPath
  by_cases hSize : packet.length < minInitialDatagramSize
  · rw [if_pos hSize] at hChosen
    cases hChosen
  · rw [if_neg hSize] at hChosen ⊢
    cases hInitial : Quic.parseInitial packet with
    | error status =>
        rw [hInitial] at hChosen
        cases hChosen
    | ok initial =>
        rw [hInitial] at hChosen
        dsimp only at hChosen ⊢
        cases hRoute :
            routeInitialDatagram env dp.config dp.pending
              packet initial source now with
        | mk pending outcome =>
            rw [hRoute] at hChosen
            cases outcome with
            | error status => cases hChosen
            | ok routed =>
                cases hChosen
                dsimp only
                have hElsewhere :=
                  @flowAcquire_elsewhere env dp.sessions
                    pending dp source routed.backend now
                have hSame :
                    dp.elsewhere dp.sessions pending =
                      { dp with pending } := rfl
                rw [hSame] at hElsewhere
                rw [hElsewhere]
                cases (dp.flowAcquire env source
                    routed.backend now).1 with
                | none => rfl
                | some slot =>
                    dsimp only
                    split
                    · dsimp only
                      rw [(sendAll_frame _ _ _ _ _).flows]
                      rfl
                    · rfl

/- A datagram that is not routed leaves the flows alone. -/
theorem freshPath_flows_of_none
    (hChosen : freshBackend env dp packet source now = none) :
    (dp.freshPath env packet source now).flows =
      dp.flows := by
  unfold freshBackend at hChosen
  unfold freshPath
  by_cases hSize : packet.length < minInitialDatagramSize
  · rw [if_pos hSize]
  · rw [if_neg hSize] at hChosen ⊢
    cases hInitial : Quic.parseInitial packet with
    | error status => rfl
    | ok initial =>
        rw [hInitial] at hChosen
        dsimp only at hChosen ⊢
        cases hRoute :
            routeInitialDatagram env dp.config dp.pending
              packet initial source now with
        | mk pending outcome =>
            rw [hRoute] at hChosen
            cases outcome with
            | error status => rfl
            | ok routed => cases hChosen

/-
  What a client datagram does to the flows: with a chosen
  backend it acquires the client's flow, else it refreshes
  it or leaves everything alone.
-/
inductive ClientFlows
    (env : Env)
    (dp : Dataplane)
    (source : Sockaddr)
    (now : Int) :
    Option Sockaddr → FlowTable → Prop
  | same : ClientFlows env dp source now none dp.flows
  | fast
      (slot : Nat)
      (flow : Flow)
      (hSlot : slot < dp.flows.capacity)
      (hFlow : dp.flows.flows slot = some flow)
      (hClient : flow.client.equals source = true) :
      ClientFlows env dp source now none
        (dp.flows.setFlow slot { flow with lastSeen := now })
  | acquired
      (backend : Sockaddr) :
      ClientFlows env dp source now (some backend)
        (dp.flowAcquire env source backend now).2.flows

theorem client_flows
    (packet : Bytes)
    (source : Sockaddr)
    (now : Int)
    (hTables : Tables env dp) :
    ClientFlows env dp source now
      (dp.chosenBackend env packet source now)
      (dp.handleClientPacket env packet source
        now).flows := by
  cases hFast : dp.fastPath env packet source now with
  | some after =>
      have hNone :
          dp.chosenBackend env packet source now =
            none := by
        unfold chosenBackend
        rw [hFast]
      have hAfter :
          dp.handleClientPacket env packet source now =
            after := by
        unfold handleClientPacket
        rw [hFast]
      have hHandled := fastPath_cases hTables.flows hFast
      rw [hNone, hAfter]
      cases hHandled with
      | fast slot flow hCodec hShort hSlot hFlow hClient =>
          rw [(enqueue_frame _ _).flows]
          exact ClientFlows.fast slot flow hSlot hFlow hClient
      | session i sessions _ hMiss =>
          rw [hMiss] at hFast
          cases hFast
      | fresh sessions _ hMiss =>
          rw [hMiss] at hFast
          cases hFast
  | none =>
      unfold handleClientPacket
      rw [hFast]
      dsimp only
      cases hSelect :
          selectSession env dp.config dp.sessions packet
            source now with
      | mk session sessions =>
          have hPath :
              ∀ backend,
                (flowAcquire env { dp with sessions } source
                  backend now).2.flows =
                  (dp.flowAcquire env source backend
                    now).2.flows := by
            intro backend
            have hElsewhere :=
              @flowAcquire_elsewhere env sessions dp.pending
                dp source backend now
            have hSame :
                dp.elsewhere sessions dp.pending =
                  { dp with sessions } := rfl
            rw [hSame] at hElsewhere
            rw [hElsewhere]
            rfl
          cases session with
          | some i =>
              rw [Handled.chosen_session hFast hSelect]
              dsimp only
              rw [sessionPath_flows, hPath]
              exact ClientFlows.acquired _
          | none =>
              rw [Handled.chosen_fresh hFast hSelect]
              dsimp only
              cases hChosen :
                  freshBackend env { dp with sessions }
                    packet source now with
              | none =>
                  rw [freshPath_flows_of_none hChosen]
                  exact ClientFlows.same
              | some backend =>
                  rw [freshPath_flows hChosen, hPath]
                  exact ClientFlows.acquired backend

end Dataplane

end QuicSniRouter
