import QuicSniRouter.Dataplane.Rebound
import QuicSniRouter.Dataplane.ShortHeader

/-
  Ids that a backend has chosen for its connections.  They
  are read from its long headers by the full parser, and
  looked for in client datagrams by three other readers of
  the header.  All of them see the same id, so what one
  backend packet teaches, the next client datagram finds.

  Main declarations:
    * `Dataplane.ReachableWhere.masked`
    * `Dataplane.backend_learned`
    * `Dataplane.Carries`
    * `Dataplane.learned_id_resolved`
-/

------------------------------------------------------------
-- The Length Masks Of A Run
------------------------------------------------------------

namespace QuicSniRouter

open SessionTable SessionKey Quic

namespace Dataplane

variable {env : Env} {dp : Dataplane}

theorem step_masked
    (event : Event)
    (hTables : Tables env dp)
    (hKeyed : dp.pending.Every PendingInitial.Keyed)
    (hMasked : dp.sessions.Masked) :
    (dp.step env event).sessions.Masked := by
  have hPut :
      ∀ (table : SessionTable) args, table.Masked →
        (putInternal env.hash 2 table args).2.Masked :=
    fun _ args hBefore =>
      writes_masked.putInternal 2 args hBefore
  refine step_sessions_induction event ?_ hTables hKeyed
    hMasked
  cases event with
  | client datagram source answers =>
      exact {
        put := fun table args _ hBefore _ =>
          hPut table args hBefore
        touch := fun _ _ i _ hBefore _ _ =>
          hBefore.touch i _ }
  | backend slot datagram answers =>
      intro flow args _ _
      exact hPut dp.sessions args hMasked
  | flush answers => trivial
  | sweep now =>
      exact expireLoop_masked now _ _ _
        hTables.sessions hMasked
  | reload file resolver =>
      intro pred
      exact writes_masked.deleteWhere pred _ 0 hMasked

theorem ReachableWhere.masked
    {allowed : Dataplane → Event → Prop}
    (hReach : ReachableWhere env allowed dp) :
    dp.sessions.Masked := by
  induction hReach with
  | start hStarts =>
      exact init_masked hStarts.started.sessions
  | step event hReach _ ih =>
      exact step_masked event hReach.tables
        (hReach.every PendingInitial.kept_keyed) ih

/- The source id of a flow's long header is an alias now. -/
theorem backend_learned
    {slot : Nat}
    {flow : Flow}
    {reply : Datagram}
    {header : Quic.LongHeader}
    (answers : Answers)
    (hTables : Tables env dp)
    (hFlow : dp.flows.slot slot = some flow)
    (hParse : parseLongHeader reply.packet = .ok header)
    (hMin : minLearnedCidLen ≤ header.scid.length)
    (hBackend : flow.backend.valid = true) :
    ∃ i,
      (dp.step env (.backend slot reply answers)).sessions.get
          env.hash (singleCidKey header.scid) =
        some i ∧
      (dp.step env
          (.backend slot reply answers)).sessions.backendAt
          i = flow.backend := by
  have hOf := parseLongHeader_of hParse
  have hKey := singleCidKey_valid_of_length hMin hOf.scid_le
  rcases aliasArgs_wrote reply.now slot flow.id
      hTables.sessions hKey hBackend with
    ⟨after, i, entry, hPut, _, hGet, hAt⟩
  have hSessions :
      (dp.step env (.backend slot reply answers)).sessions =
        after := by
    show ((dp.withAnswers answers).handleBackendPacket env
      slot reply.packet reply.now).sessions = after
    have hAsked :
        (dp.withAnswers answers).flows.slot slot =
          some flow :=
      hFlow
    unfold handleBackendPacket
    rw [hAsked]
    dsimp only
    rw [(enqueue_frame _ _).sessions]
    unfold learnBackendScid
    rw [learnableHeader_eq_some.mpr hParse]
    dsimp only
    rw [putAlias_eq]
    exact congrArg Prod.snd hPut
  rw [hSessions]
  exact ⟨i, hGet, hAt⟩

theorem backend_config
    (slot : Nat)
    (reply : Datagram)
    (answers : Answers) :
    (dp.step env (.backend slot reply answers)).config =
      dp.config := by
  show ((dp.withAnswers answers).handleBackendPacket env
    slot reply.packet reply.now).config = dp.config
  unfold handleBackendPacket
  split
  · rfl
  · exact (enqueue_frame _ _).config

end Dataplane

------------------------------------------------------------
-- Reading The Id Back
------------------------------------------------------------

/- The peek at a long header sees the id that is parsed. -/
theorem lookupLongHeaderDcid_eq
    {packet : Bytes}
    {header : Quic.LongHeader}
    (hash : Bytes → Nat)
    (sessions : SessionTable)
    (hParse : parseLongHeader packet = .ok header)
    (hMin : minLearnedCidLen ≤ header.dcid.length) :
    lookupLongHeaderDcid hash sessions packet =
      sessions.get hash (singleCidKey header.dcid) := by
  have hOf := parseLongHeader_of hParse
  have hLength := hOf.length
  have hDcid := hOf.dcid_length
  have hMax := hOf.dcid_le
  have hFits := hOf.dcid_fits
  have hBits :
      ¬ (packet.length < 7 ∨ !hasLongBit packet ∨
        !hasFixedBit packet) := by
    rw [hOf.long, hOf.fixed]
    rintro (hShort | hLong | hFixed)
    · omega
    · cases hLong
    · cases hFixed
  have hVersion :
      ¬ (versionOf packet ≠ quicV1 ∧
        versionOf packet ≠ quicV2) := by
    rintro ⟨hFirst, hSecond⟩
    exact hOf.version.elim hFirst hSecond
  unfold lookupLongHeaderDcid
  dsimp only
  rw [if_neg hBits, if_neg hVersion, if_neg (by omega),
    hOf.dcid]

/- The search of a short header stops at a stored id. -/
theorem lookupShortHeaderCid_longest
    {hash : Bytes → Nat}
    {table : SessionTable}
    {packet cid : Bytes}
    {i : Nat}
    (hInv : table.Inv hash)
    (hMasked : table.Masked)
    (hShort : hasLongBit packet = false)
    (hFixed : hasFixedBit packet = true)
    (hMin : minLearnedCidLen ≤ cid.length)
    (hMax : cid.length ≤ maxQuicCidLen)
    (hStarts : (packet.drop 1).take cid.length = cid)
    (hLonger :
      ∀ len, cid.length < len →
        len ≤ min maxQuicCidLen (packet.length - 1) →
          table.get hash (shortHeaderKey packet len) = none)
    (hGet : table.get hash (singleCidKey cid) = some i) :
    lookupShortHeaderCid hash table packet = some i := by
  have hFits : cid.length ≤ packet.length - 1 := by
    have hLength := congrArg List.length hStarts
    rw [List.length_take, List.length_drop] at hLength
    omega
  rw [lookupShortHeaderCid_eq hash table hShort hFixed,
    shortHeaderCidFrom_eq_some hInv hMasked
      (Nat.min_le_right _ _) (Nat.min_le_left _ _)]
  refine ⟨cid.length, hMin, Nat.le_min.mpr ⟨hFits, hMax⟩,
    ?_, ?_⟩
  · unfold shortHeaderKey
    rw [hStarts]
    exact hGet
  · intro len hLt hLe
    rw [Nat.min_comm] at hLe
    exact hLonger len hLt hLe

namespace Dataplane

variable {sessions : SessionTable}

/-
  The datagrams that name a stored id: a long header that is
  no Initial, an Initial whose pair of ids has no entry of
  its own, and a short header with no longer match.
-/
inductive Carries
    (hash : Bytes → Nat)
    (sessions : SessionTable)
    (cid packet : Bytes) : Prop
  | long
      (header : Quic.LongHeader)
      (hParse : parseLongHeader packet = .ok header)
      (hDcid : header.dcid = cid)
      (hOther : ∀ initial, parseInitial packet ≠ .ok initial)
  | initial
      (initial : Quic.Initial)
      (hParse : parseInitial packet = .ok initial)
      (hDcid : initial.dcid = cid)
      (hPair :
        initial.scid ≠ [] →
          sessions.get hash
            (cidKey initial.dcid initial.scid) = none)
  | short
      (hShort : hasLongBit packet = false)
      (hFixed : hasFixedBit packet = true)
      (hStarts : (packet.drop 1).take cid.length = cid)
      (hLonger :
        ∀ len, cid.length < len →
          len ≤ min maxQuicCidLen (packet.length - 1) →
            sessions.get hash (shortHeaderKey packet len) =
              none)

/-
  A client datagram is forwarded by a session entry with
  this backend, which is what `flow_acquire` is asked for.
-/
def ResolvedTo
    (env : Env)
    (dp : Dataplane)
    (packet : Bytes)
    (source : Sockaddr)
    (now : Int)
    (backend : Sockaddr) : Prop :=
  ∃ session sessions,
    dp.handleClientPacket env packet source now =
      sessionPath env { dp with sessions } session packet
        source now ∧
    (sessions.touch session now).backendAt session = backend

/- The router knows nothing of this client. -/
structure Unknown
    (env : Env)
    (dp : Dataplane)
    (source : Sockaddr) : Prop where
  flow : dp.flows.get env.hash source = none
  tuple :
    dp.sessions.get env.hash (tupleKey source) = none

variable {env : Env} {dp : Dataplane} {packet : Bytes}
variable {source : Sockaddr} {now : Int} {cid : Bytes}
variable {i : Nat}

theorem ResolvedTo.of_select
    (hFast : dp.fastPath env packet source now = none)
    (hSelect :
      selectSession env dp.config dp.sessions packet source
        now = (some i, sessions)) :
    ResolvedTo env dp packet source now
      (sessions.backendAt i) := by
  exact ⟨i, sessions,
    handleClientPacket_session hFast hSelect,
    touch_backendAt sessions i i now⟩

theorem Unknown.fastPath
    (packet : Bytes)
    (now : Int)
    (hUnknown : Unknown env dp source) :
    dp.fastPath env packet source now = none := by
  unfold Dataplane.fastPath
  rw [hUnknown.flow]
  simp

theorem Unknown.unanswered
    (now : Int)
    (hUnknown : Unknown env dp source)
    (hOff : dp.config.cidCodec.enabled = false)
    (hOther : ∀ initial, parseInitial packet ≠ .ok initial) :
    Unanswered env dp packet source now where
  fast := hUnknown.fastPath packet now
  encoded := lookupEncodedCid_off dp.sessions _ hOff
  initial := by
    cases hParse : parseInitial packet with
    | error status => exact ⟨status, rfl⟩
    | ok initial => exact absurd hParse (hOther initial)
  tuple := hUnknown.tuple

theorem Rebinds.resolved
    (hRebinds : Rebinds env dp packet source now cid i)
    (hTables : Tables env dp) :
    ResolvedTo env dp packet source now
      (dp.sessions.backendAt i) := by
  rcases hRebinds.select hTables with
    ⟨sessions, j, _, hSelect, _, hAt⟩
  rw [← hAt]
  exact ResolvedTo.of_select hRebinds.unanswered.fast hSelect

/- An Initial goes by its destination id's entry. -/
theorem selectInitial_dcid
    {hash : Bytes → Nat}
    {config : Config}
    {initial : Quic.Initial}
    (hMin : minLearnedCidLen ≤ initial.dcid.length)
    (hGet :
      sessions.get hash (singleCidKey initial.dcid) = some i)
    (hPair :
      initial.scid ≠ [] →
        sessions.get hash
          (cidKey initial.dcid initial.scid) = none)
    (hRoute :
      config.routes.hasBackend hash
        (sessions.backendAt i) = true) :
    selectInitial hash config sessions initial = some i := by
  unfold selectInitial
  by_cases hScid : initial.scid = []
  · -- Without a source id the pair is the id alone.
    have hSame :
        cidKey initial.dcid [] =
          singleCidKey initial.dcid := by
      unfold singleCidKey
      rw [if_neg (by omega)]
    rw [hScid, hSame, hGet]
  · rw [hPair hScid]
    dsimp only
    unfold lookupLongHeaderRequestDcid
    rw [hGet]
    dsimp only
    rw [if_pos hRoute]

/- Every datagram that names a stored id finds its entry. -/
theorem Carries.resolved
    (hCarries : Carries env.hash dp.sessions cid packet)
    (hTables : Tables env dp)
    (hMasked : dp.sessions.Masked)
    (hOff : dp.config.cidCodec.enabled = false)
    (hUnknown : Unknown env dp source)
    (hSource : source.valid = true)
    (hMin : minLearnedCidLen ≤ cid.length)
    (hMax : cid.length ≤ maxQuicCidLen)
    (hGet :
      dp.sessions.get env.hash (singleCidKey cid) = some i)
    (hBackend : (dp.sessions.backendAt i).valid = true)
    (hRoute :
      dp.config.routes.hasBackend env.hash
        (dp.sessions.backendAt i) = true) :
    ResolvedTo env dp packet source now
      (dp.sessions.backendAt i) := by
  cases hCarries with
  | long header hParse hDcid hOther =>
      subst hDcid
      have hFound :=
        lookupLongHeaderDcid_eq env.hash dp.sessions hParse
          hMin
      have hRebinds :
          Rebinds env dp packet source now header.dcid i :=
        ⟨hUnknown.unanswered now hOff hOther, hGet,
          Or.inr ⟨hFound.trans hGet, hRoute⟩, hSource,
          hBackend⟩
      exact hRebinds.resolved hTables
  | initial initial hParse hDcid hPair =>
      subst hDcid
      apply ResolvedTo.of_select
        (hUnknown.fastPath packet now)
      rw [selectSession_initial dp.sessions source now hOff
          hParse,
        selectInitial_dcid hMin hGet hPair hRoute]
  | short hShort hFixed hStarts hLonger =>
      have hFound :=
        lookupShortHeaderCid_longest hTables.sessions
          hMasked hShort hFixed hMin hMax hStarts hLonger
          hGet
      have hOther :
          ∀ initial, parseInitial packet ≠ .ok initial := by
        intro initial hParse
        have hLong := parseInitial_hasLongBit hParse
        rw [hShort] at hLong
        cases hLong
      have hRebinds :
          Rebinds env dp packet source now cid i :=
        ⟨hUnknown.unanswered now hOff hOther, hGet,
          Or.inl hFound, hSource, hBackend⟩
      exact hRebinds.resolved hTables

/-
  What is learned from a backend is found from a client.
  The addresses that the kernel and the resolver hand out
  are IPv4 or IPv6 ones.
-/
theorem learned_id_resolved
    (env : Env)
    (dp after : Dataplane)
    (slot : Nat)
    (flow : Flow)
    (reply : Datagram)
    (answers : Answers)
    (header : Quic.LongHeader)
    (hReach : Reachable env dp)
    (hOff : dp.config.cidCodec.enabled = false)
    (hFlow : dp.flows.slot slot = some flow)
    (hParse : parseLongHeader reply.packet = .ok header)
    (hMin : minLearnedCidLen ≤ header.scid.length)
    (hBackend : flow.backend.valid = true)
    (hRoute : dp.config.routes.Provides flow.backend)
    (hAfter :
      after = dp.step env (.backend slot reply answers)) :
    ∀ (datagram : Datagram) source asked,
      source.valid = true →
      Unknown env after source →
      Carries env.hash after.sessions header.scid
        datagram.packet →
      ResolvedTo env (after.withAnswers asked)
        datagram.packet source datagram.now
        flow.backend := by
  intro datagram source asked hSource hUnknown hCarries
  have hNext : Reachable env after := by
    rw [hAfter]
    exact ReachableWhere.step _ hReach trivial
  have hTables := hNext.tables
  have hConfig : after.config = dp.config := by
    rw [hAfter]
    exact backend_config slot reply answers
  rcases backend_learned answers hReach.tables hFlow hParse
      hMin hBackend with
    ⟨i, hGet, hAt⟩
  rw [← hAfter] at hGet hAt
  have hHas :
      after.config.routes.hasBackend env.hash
        flow.backend = true := by
    rw [hConfig]
    exact (RouteTable.hasBackend_iff hReach.resolved _).mpr
      hRoute
  have hScid := (parseLongHeader_of hParse).scid_le
  rw [← hAt] at hBackend hHas ⊢
  exact @Carries.resolved env (after.withAnswers asked)
    datagram.packet source datagram.now header.scid i
    hCarries ⟨hTables.sessions, hTables.flows⟩ hNext.masked
    (by rw [← hOff, ← hConfig]; rfl)
    ⟨hUnknown.flow, hUnknown.tuple⟩ hSource hMin hScid hGet
    hBackend hHas

end Dataplane

namespace Deployment

open Dataplane

/- A connection by name whose server has not answered. -/
def awaiting : Dataplane :=
  byName.step (envWith [connection1]) firstInitial

/- The server has answered and named its id. -/
def answered : Dataplane :=
  awaiting.step (envWith [connection1])
    (.backend 0 serverHandshake (opens 9))

theorem awaiting_reachable :
    Reachable (envWith [connection1]) awaiting :=
  ReachableWhere.step _ (reachable_byName [connection1])
    trivial

theorem answered_unknown :
    Unknown (envWith [connection1]) answered (client 6) where
  flow := by
    apply Option.isNone_iff_eq_none.mp
    decide +kernel
  tuple := by
    apply Option.isNone_iff_eq_none.mp
    decide +kernel

/- The server id of a short header has no longer match. -/
theorem movedShort_carries :
    Carries env.hash answered.sessions serverId
      (movedShort 1).packet := by
  refine Carries.short (by decide) (by decide) (by decide) ?_
  intro len hLt hLe
  have hLen : len = 9 := by
    have hMin :
        min maxQuicCidLen ((movedShort 1).packet.length - 1) =
          9 := by
      decide
    have hEight : serverId.length = 8 := rfl
    omega
  rw [hLen]
  apply Option.isNone_iff_eq_none.mp
  decide +kernel

/- A short header of a moved client finds the backend. -/
theorem moved_client_resolved :
    ∃ flow, awaiting.flows.slot 0 = some flow ∧
      ResolvedTo (envWith [connection1])
        (answered.withAnswers (opens 5))
        (movedShort 1).packet (client 6) 1 flow.backend := by
  have hFlow :
      (awaiting.flows.slot 0).any
          (fun flow =>
            flow.backend.valid &&
              awaiting.config.routes.hasBackend env.hash
                flow.backend) =
        true := by
    decide +kernel
  rcases (Option.any_eq_true _ _).mp hFlow with
    ⟨flow, hSlot, hFacts⟩
  rw [Bool.and_eq_true] at hFacts
  have hProvides :=
    (RouteTable.hasBackend_iff awaiting_reachable.resolved
      _).mp hFacts.2
  have hOff :
      awaiting.config.cidCodec.enabled = false := by
    decide +kernel
  have hHeader :
      (parseLongHeader serverHandshake.packet).map
          (fun header => header.scid) =
        .ok serverId := by
    decide +kernel
  refine ⟨flow, hSlot, ?_⟩
  cases hParse : parseLongHeader serverHandshake.packet with
  | error status =>
      rw [hParse] at hHeader
      cases hHeader
  | ok header =>
      rw [hParse] at hHeader
      have hScid : header.scid = serverId :=
        Except.ok.inj hHeader
      have hMin :
          minLearnedCidLen ≤ header.scid.length := by
        rw [hScid]
        decide
      apply learned_id_resolved (envWith [connection1])
        awaiting answered 0 flow serverHandshake (opens 9)
        header awaiting_reachable hOff hSlot hParse hMin
        hFacts.1 hProvides rfl (movedShort 1) (client 6)
        (opens 5) (by decide) answered_unknown
      rw [hScid]
      exact movedShort_carries

end Deployment

end QuicSniRouter
