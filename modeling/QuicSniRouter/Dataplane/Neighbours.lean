import QuicSniRouter.Dataplane.FreshInitial
import QuicSniRouter.Dataplane.Writes

/-
  What a datagram leaves alone: the flows and the tuple
  entries of other clients, up to evictions, and the whole
  state when it comes from nowhere and does not hold up.

  Main declarations:
    * `SessionTable.Spares`
    * `Dataplane.Acquired.spares`
    * `Dataplane.clients_undisturbed`
    * `Dataplane.Rejected`
    * `Dataplane.rejected_leaves_no_trace`
-/

------------------------------------------------------------
-- Entries Of Other Keys
------------------------------------------------------------

namespace QuicSniRouter

open LinearProbing SessionKey

namespace SessionTable

variable {hash : Bytes → Nat} {key : SessionKey}
variable {table : SessionTable} {i : Nat}

/- The entry of a key, if there is one, is an old one. -/
structure Spares
    (key : SessionKey)
    (before after : SessionTable) : Prop where
  capacity : after.capacity = before.capacity
  entries :
    ∀ s, Holds after.capacity after.sessions s →
      s.key.equals key = true →
        Holds before.capacity before.sessions s

theorem Spares.refl
    (table : SessionTable) :
    Spares key table table :=
  ⟨rfl, fun _ h _ => h⟩

theorem Spares.trans
    {a b c : SessionTable}
    (hab : Spares key a b)
    (hbc : Spares key b c) :
    Spares key a c :=
  ⟨hbc.capacity.trans hab.capacity,
    fun s h hKey => hab.entries s (hbc.entries s h hKey) hKey⟩

theorem putInternal_spares
    (args : PutArgs)
    (hInv : table.Inv hash)
    (hOther : args.key.equals key = false) :
    Spares key table (putInternal hash 2 table args).2 := by
  by_cases hAccepts : table.Accepts args
  · rcases putInternal_ok hInv hAccepts with
      ⟨after, slot, entry, hPut, hWrote⟩
    have hThin := makeRoom_thinned args hInv
    have hCapacity :=
      hWrote.frame.capacity.trans hThin.frame.capacity
    rw [hPut]
    refine ⟨hCapacity, ?_⟩
    intro s hHolds hKey
    rw [hCapacity] at hHolds
    rcases hWrote.holds hThin hHolds with hEq | ⟨hOld, _⟩
    · have hSame :=
        equals_trans (equals_symm hWrote.key)
          (by rw [← hEq]; exact hKey)
      rw [hOther] at hSame
      cases hSame
    · exact hOld
  · rw [putInternal_refused hash hAccepts]
    exact Spares.refl table

theorem touch_spares
    {key' : SessionKey}
    (now : Int)
    (hInv : table.Inv hash)
    (hGet : table.get hash key' = some i)
    (hOther : key'.equals key = false) :
    Spares key table (table.touch i now) := by
  rcases get_used hInv hGet with ⟨_, session, hCell, hKey'⟩
  unfold touch
  rw [hCell]
  refine ⟨rfl, ?_⟩
  rintro s ⟨p, hp, hSome⟩ hKey
  rcases fill_eq_some hSome with ⟨_, hEq⟩ | ⟨_, hOld⟩
  · subst hEq
    have hSame := equals_trans (equals_symm hKey') hKey
    rw [hOther] at hSame
    cases hSame
  · exact ⟨p, hp, hOld⟩

/- The entry of a spared key is unchanged or gone. -/
theorem Spares.unchanged
    {before after : SessionTable}
    {session : Session}
    (hSpares : Spares key before after)
    (hBefore : before.Inv hash)
    (hAfter : after.Inv hash)
    (hGet : before.get hash key = some i)
    (hCell : before.sessions i = some session) :
    after.get hash key = none ∨
      ∃ j, after.get hash key = some j ∧
        after.sessions j = some session := by
  cases hFound : after.get hash key with
  | none => exact Or.inl rfl
  | some j =>
      right
      rcases get_used hBefore hGet with
        ⟨hi, old, hOld, hOldKey⟩
      rcases get_used hAfter hFound with
        ⟨hj, new, hNew, hNewKey⟩
      rcases hSpares.entries new ⟨j, hj, hNew⟩ hNewKey with
        ⟨p, hp, hSame⟩
      have hpi : p = i :=
        hBefore.distinct p hp i hi new old hSame hOld
          (equals_trans hNewKey (equals_symm hOldKey))
      subst hpi
      rw [hCell] at hSame
      cases hSame
      exact ⟨j, rfl, hNew⟩

end SessionTable

/- A datagram looks up and puts no tuple but its own. -/
theorem LookupKey.other
    {packet : Bytes}
    {source client : Sockaddr}
    {key : SessionKey}
    (hKey : LookupKey packet source key)
    (hTuple : (tupleKey client).hasTuple = true)
    (hOther : client.equals source = false) :
    key.equals (tupleKey client) = false := by
  by_contra hSame
  have hEquals :
      key.equals (tupleKey client) = true := by
    simpa using hSame
  rcases hKey with hEq | hLearned
  · rw [hEq] at hEquals
    have hClient :=
      equals_of_tupleKey (equals_symm hEquals) hTuple
    rw [hOther] at hClient
    cases hClient
  · have hFlags := (equals_iff.mp hEquals).1
    rw [learnedKeys_hasTuple hLearned, hTuple] at hFlags
    cases hFlags

theorem ClientPut.lookupKey
    {packet : Bytes}
    {source : Sockaddr}
    {now : Int}
    {flows : FlowTable}
    {args : PutArgs}
    (hPut : ClientPut packet source now flows args) :
    LookupKey packet source args.key := by
  cases hPut with
  | bound backend => exact Or.inl rfl
  | tuple backend slot flow hHolder => exact Or.inl rfl
  | learned key dest destLen slot flow hKey hHolder =>
      exact Or.inr hKey

namespace Dataplane

variable {env : Env} {dp : Dataplane} {packet : Bytes}
variable {source : Sockaddr} {now : Int} {before : FlowTable}
variable {hash : Bytes → Nat} {backend : Sockaddr}
variable {result : Option Nat × Dataplane}

/-
  All flows of other clients stay, but for one at most; what
  is not an old flow belongs to the client.
-/
structure SparesFlows
    (source : Sockaddr)
    (before after : FlowTable) : Prop where
  capacity : after.capacity = before.capacity
  kept :
    ∃ victim, ∀ t, t ≠ victim → ∀ flow,
      before.flows t = some flow →
      flow.client.equals source = false →
        after.flows t = some flow
  fresh :
    ∀ t flow, after.flows t = some flow →
      before.flows t = some flow ∨
        flow.client.equals source = true

theorem losesAtMostOne_kept
    {base : Nat → Option Flow}
    (hLoses : FlowTable.LosesAtMostOne before.flows base) :
    ∃ victim, ∀ t, t ≠ victim → ∀ flow,
      before.flows t = some flow → base t = some flow := by
  rcases hLoses with hSame | ⟨victim, hGone⟩
  · exact ⟨0, fun t _ flow hFlow => by rw [hSame, hFlow]⟩
  · refine ⟨victim, ?_⟩
    intro t hNe flow hFlow
    rw [hGone, vacate_of_ne _ hNe, hFlow]

theorem Acquired.kept
    (hAcquired : Acquired hash dp source backend now result) :
    ∃ victim, ∀ t, t ≠ victim → ∀ flow,
      dp.flows.flows t = some flow →
        result.2.flows.flows t = some flow := by
  cases hAcquired with
  | reaimed slot old hSlot hOld hClient hGet =>
      refine ⟨slot, ?_⟩
      intro t hNe flow hFlow
      show fill _ _ _ _ = _
      rw [fill_of_ne _ _ hNe, hFlow]
  | failed flows events answers hAfter hShrinks hGet hLoses =>
      exact losesAtMostOne_kept hLoses
  | dropped base flows events answers fd s p rest hAfter
      hShrinks hBase hRemoved hGet hLoses =>
      rcases losesAtMostOne_kept hLoses with ⟨victim, hKept⟩
      refine ⟨victim, ?_⟩
      intro t hNe flow hFlow
      have hOld := hKept t hNe flow hFlow
      have hts : t ≠ s := by
        intro hEq
        rw [hEq, hBase] at hOld
        cases hOld
      show flows.flows t = some flow
      rw [hRemoved.flows, vacate_of_ne _ hts]
      show fill _ _ _ _ = _
      rw [fill_of_ne _ _ hts, hOld]
  | created middle base first second answers fd s p rest
      hValid hAbsent hFirst hSecond hSlot hBase hInv hAnswer
      hFresh hGet hLoses =>
      rcases losesAtMostOne_kept hLoses with ⟨victim, hKept⟩
      refine ⟨victim, ?_⟩
      intro t hNe flow hFlow
      have hOld := hKept t hNe flow hFlow
      have hts : t ≠ s := by
        intro hEq
        rw [hEq, hBase] at hOld
        cases hOld
      show fill _ _ _ _ = _
      rw [fill_of_ne _ _ hts, hOld]

theorem Acquired.spares
    (hAcquired : Acquired hash dp source backend now result) :
    SparesFlows source dp.flows result.2.flows where
  capacity := hAcquired.capacity
  kept := by
    rcases hAcquired.kept with ⟨victim, hKept⟩
    exact ⟨victim, fun t hNe flow hFlow _ =>
      hKept t hNe flow hFlow⟩
  fresh := by
    intro t flow hFlow
    rcases hAcquired.others hFlow with
      hOld | ⟨_, hClient, _⟩
    · exact Or.inl hOld
    · exact Or.inr hClient

theorem client_sparesFlows
    (packet : Bytes)
    (source : Sockaddr)
    (now : Int)
    (hTables : Tables env dp) :
    SparesFlows source dp.flows
      (dp.handleClientPacket env packet source
        now).flows := by
  have hClientFlows := client_flows packet source now hTables
  generalize
    (dp.handleClientPacket env packet source now).flows =
      flows at hClientFlows ⊢
  generalize dp.chosenBackend env packet source now = chosen
    at hClientFlows
  cases hClientFlows with
  | same =>
      exact
        { capacity := rfl
          kept := ⟨0, fun _ _ _ h _ => h⟩
          fresh := fun _ _ h => Or.inl h }
  | fast slot flow hSlot hFlow hClient =>
      refine
        { capacity := rfl
          kept := ⟨slot, ?_⟩
          fresh := ?_ }
      · intro t hNe other hOther _
        show fill _ _ _ _ = _
        rw [fill_of_ne _ _ hNe, hOther]
      · intro t other hOther
        rcases fill_eq_some hOther with ⟨_, hEq⟩ | ⟨_, hOld⟩
        · rw [hEq]
          exact Or.inr hClient
        · exact Or.inl hOld
  | acquired backend =>
      exact (flowAcquire_cases dp source backend now
        hTables.flows).spares

/- A flow of another client that changed is gone. -/
theorem SparesFlows.absent
    {after : FlowTable}
    {t : Nat}
    {flow : Flow}
    (hSpares : SparesFlows source before after)
    (hInv : before.Inv hash)
    (ht : t < before.capacity)
    (hFlow : before.flows t = some flow)
    (hOther : flow.client.equals source = false)
    (hChanged : after.flows t ≠ some flow) :
    after.Absent flow.client := by
  intro u hu other hSome
  rw [hSpares.capacity] at hu
  by_contra hSame
  have hEquals : other.client.equals flow.client = true := by
    simpa using hSame
  rcases hSpares.fresh u other hSome with hOld | hClient
  · have hut : u = t :=
      hInv.clientsDistinct u hu t ht other flow hOld hFlow
        hEquals
    subst hut
    rw [hOld] at hFlow
    cases hFlow
    exact hChanged hSome
  · have hSource :=
      Sockaddr.equals_trans (Sockaddr.equals_symm hEquals)
        hClient
    rw [hOther] at hSource
    cases hSource

/- The tuple entry of a client is unchanged or evicted. -/
def TupleUndisturbed
    (env : Env)
    (before after : SessionTable)
    (client : Sockaddr) : Prop :=
  ∀ i session,
    before.get env.hash (tupleKey client) = some i →
    before.sessions i = some session →
      after.get env.hash (tupleKey client) = none ∨
      ∃ j, after.get env.hash (tupleKey client) = some j ∧
        after.sessions j = some session

theorem client_tuple_undisturbed
    (hTables : Tables env dp)
    (hKeyed : dp.pending.Every PendingInitial.Keyed)
    (client : Sockaddr)
    (hOther : client.equals source = false) :
    TupleUndisturbed env dp.sessions
      (dp.handleClientPacket env packet source now).sessions
      client := by
  intro i session hGet hCell
  have hTuple :=
    tupleKey_hasTuple_of_valid
      (SessionTable.valid_of_get hGet)
  have hKeeps :
      ClientKeeps env packet source now
        (dp.handleClientPacket env packet source now).flows
        (SessionTable.Spares (tupleKey client) dp.sessions) :=
    { put := fun table args hInv hSpares hPut =>
        hSpares.trans
          (SessionTable.putInternal_spares args hInv
            (hPut.lookupKey.other hTuple hOther))
      touch := fun table key j hInv hSpares hKey hFound =>
        hSpares.trans
          (SessionTable.touch_spares now hInv hFound
            (hKey.other hTuple hOther)) }
  have hSpares :=
    client_sessions_induction hKeeps hTables hKeyed
      (SessionTable.Spares.refl dp.sessions)
  exact hSpares.unchanged hTables.sessions
    (handleClientPacket_tables packet source now
      hTables).sessions hGet hCell

theorem backend_tuple_undisturbed
    {slot : Nat}
    (hTables : Tables env dp)
    (client : Sockaddr) :
    TupleUndisturbed env dp.sessions
      (dp.handleBackendPacket env slot packet now).sessions
      client := by
  intro i session hGet hCell
  have hTuple :=
    tupleKey_hasTuple_of_valid
      (SessionTable.valid_of_get hGet)
  have hSpares :
      SessionTable.Spares (tupleKey client) dp.sessions
        (dp.handleBackendPacket env slot packet
          now).sessions := by
    apply backend_sessions_induction
    · intro flow args _ hPut
      apply SessionTable.putInternal_spares args
        hTables.sessions
      cases hPut with
      | learned key hKey =>
          by_contra hSame
          have hFlags :=
            (equals_iff.mp (by simpa using hSame)).1
          simp only [aliasArgs, hTuple] at hFlags
          rw [backendKeys_hasTuple hKey] at hFlags
          cases hFlags
    · exact SessionTable.Spares.refl dp.sessions
  exact hSpares.unchanged hTables.sessions
    (handleBackendPacket_tables slot packet now
      hTables).sessions hGet hCell

/-
  A datagram of one client leaves every other flow and every
  other tuple entry as it is, but for one evicted flow and
  evicted entries.  A datagram from a backend leaves all
  other flows and all tuple entries, up to evictions.
-/
theorem clients_undisturbed
    (env : Env)
    (dp : Dataplane)
    (hReach : Reachable env dp) :
    (∀ datagram source answers,
      let after :=
        dp.step env (.client datagram source answers)
      (∀ t < dp.flows.capacity, ∀ flow,
        dp.flows.flows t = some flow →
        flow.client.equals source = false →
          after.flows.flows t = some flow ∨
            after.flows.Absent flow.client) ∧
      (∀ t u flow flow', dp.flows.flows t = some flow →
        dp.flows.flows u = some flow' →
        flow.client.equals source = false →
        flow'.client.equals source = false →
        after.flows.flows t ≠ some flow →
        after.flows.flows u ≠ some flow' → t = u) ∧
      (∀ client, client.equals source = false →
        TupleUndisturbed env dp.sessions after.sessions
          client)) ∧
    (∀ slot datagram answers,
      let after :=
        dp.step env (.backend slot datagram answers)
      (∀ t, t ≠ slot →
        after.flows.flows t = dp.flows.flows t) ∧
      (∀ client,
        TupleUndisturbed env dp.sessions after.sessions
          client)) := by
  have hTables := hReach.tables
  have hKeyed := hReach.every PendingInitial.kept_keyed
  constructor
  · intro datagram source answers
    have hAsked : Tables env (dp.withAnswers answers) :=
      ⟨hTables.sessions, hTables.flows⟩
    have hSpares :=
      client_sparesFlows datagram.packet source
        datagram.now hAsked
    rcases hSpares.kept with ⟨victim, hKept⟩
    refine ⟨?_, ?_, ?_⟩
    · intro t ht flow hFlow hOther
      by_cases hSame :
          (dp.step env
            (.client datagram source answers)).flows.flows
              t = some flow
      · exact Or.inl hSame
      · exact Or.inr
          (hSpares.absent hTables.flows ht hFlow hOther hSame)
    · intro t u flow flow' hFlow hFlow' hOther hOther' hGone
        hGone'
      have ht : t = victim := by
        by_contra hNe
        exact hGone (hKept t hNe flow hFlow hOther)
      have hu : u = victim := by
        by_contra hNe
        exact hGone' (hKept u hNe flow' hFlow' hOther')
      rw [ht, hu]
    · intro client hOther
      exact client_tuple_undisturbed hAsked hKeyed client
        hOther
  · intro slot datagram answers
    have hAsked : Tables env (dp.withAnswers answers) :=
      ⟨hTables.sessions, hTables.flows⟩
    refine ⟨?_, fun client =>
      backend_tuple_undisturbed hAsked client⟩
    intro t hNe
    rw [step_backend]
    unfold handleBackendPacket
    cases hSlot :
        (dp.withAnswers answers).flows.slot slot with
    | none => rfl
    | some flow =>
        dsimp only
        rw [(enqueue_frame _ _).flows]
        exact fill_of_ne _ _ hNe

end Dataplane

namespace Deployment

open Dataplane

/- A router of four slots with one client. -/
def oneClient : Dataplane :=
  fourSlots.run env [.client (datagram 1) (client 4) (opens 5)]

/- A second client arrives and opens a flow of its own. -/
def secondClient : Event :=
  .client (datagram 1) (client 5) (opens 6)

/- What the second client does, the first keeps. -/
theorem first_client_undisturbed :
    (∃ flow, oneClient.flows.flows 0 = some flow ∧
      ((oneClient.step env secondClient).flows.flows 0 =
          some flow ∨
        (oneClient.step env secondClient).flows.Absent
          flow.client)) ∧
    TupleUndisturbed env oneClient.sessions
      (oneClient.step env secondClient).sessions
      (client 4) := by
  have hReach : Reachable env oneClient :=
    reachable_okValue _ _ _
  rcases (clients_undisturbed env oneClient hReach).1
      (datagram 1) (client 5) (opens 6) with
    ⟨hFlows, _, hTuples⟩
  have hUsed :
      (oneClient.flows.flows 0).map
          (fun flow => flow.client.equals (client 5)) =
        some false := by
    decide +kernel
  rcases Option.map_eq_some_iff.mp hUsed with
    ⟨flow, hFlow, hOther⟩
  refine ⟨⟨flow, hFlow, ?_⟩,
    hTuples (client 4) (by decide +kernel)⟩
  have hSlot : 0 < oneClient.flows.capacity := by
    decide +kernel
  unfold secondClient
  exact hFlows 0 hSlot flow hFlow hOther

end Deployment

namespace Dataplane

variable {env : Env} {packet : Bytes}

/-
  A datagram that the Initial pipeline turns down: too
  short, no Initial, not decrypted, or with bad frames.
-/
inductive Rejected
    (crypto : Crypto)
    (packet : Bytes) : Prop
  | short
      (hSize : packet.length < minInitialDatagramSize)
  | notInitial
      (status : Status)
      (hInitial : Quic.parseInitial packet = .error status)
  | notDecrypted
      (initial : Quic.Initial)
      (status : Status)
      (hInitial : Quic.parseInitial packet = .ok initial)
      (hDecrypt :
        Quic.decryptInitial crypto packet initial =
          .error status)
  | badFrames
      (initial : Quic.Initial)
      (plaintext : Bytes)
      (status : Status)
      (hInitial : Quic.parseInitial packet = .ok initial)
      (hDecrypt :
        Quic.decryptInitial crypto packet initial =
          .ok plaintext)
      (hFrames :
        Quic.extractCrypto plaintext
          Quic.CryptoStream.init = .error status)

/- Some stored alias answers for an id of the datagram. -/
def MatchesAlias
    (hash : Bytes → Nat)
    (sessions : SessionTable)
    (packet : Bytes) : Prop :=
  lookupShortHeaderCid hash sessions packet ≠ none ∨
  lookupLongHeaderDcid hash sessions packet ≠ none ∨
  ∃ initial, Quic.parseInitial packet = .ok initial ∧
    (sessions.get hash (cidKey initial.dcid initial.scid) ≠
      none ∨
    sessions.get hash (singleCidKey initial.dcid) ≠ none)

/- No branch of the lookup finds or binds anything. -/
theorem selectSession_unknown
    {config : Config}
    {sessions : SessionTable}
    {source : Sockaddr}
    {now : Int}
    (hCodec : config.cidCodec.enabled = false)
    (hTuple : sessions.get env.hash (tupleKey source) = none)
    (hAlias : ¬ MatchesAlias env.hash sessions packet) :
    selectSession env config sessions packet source now =
      (none, sessions) := by
  simp only [MatchesAlias, not_or, not_exists, not_and,
    ne_eq, not_not] at hAlias
  rcases hAlias with ⟨hShort, hLong, hInitial⟩
  unfold selectSession
  dsimp only
  rw [lookupEncodedCid_off sessions _ hCodec]
  cases hParse : Quic.parseInitial packet with
  | ok initial =>
      rcases hInitial initial hParse with ⟨hPair, hSingle⟩
      simp [selectInitial, lookupLongHeaderRequestDcid,
        hPair, hSingle]
  | error status =>
      simp [hTuple, rebindAny, hShort, rebindLong, hLong]

/- The pipeline stops before it writes anything. -/
theorem freshPath_rejected
    {dp : Dataplane}
    (source : Sockaddr)
    (now : Int)
    (hRejected : Rejected env.crypto packet) :
    dp.freshPath env packet source now = dp := by
  unfold freshPath
  by_cases hSize : packet.length < minInitialDatagramSize
  · rw [if_pos hSize]
  · rw [if_neg hSize]
    cases hRejected with
    | short hShort => exact absurd hShort hSize
    | notInitial status hInitial => rw [hInitial]
    | notDecrypted initial status hInitial hDecrypt =>
        have hStop :
            initialCrypto env.crypto packet initial =
              .error status := by
          unfold initialCrypto
          rw [hDecrypt]
          rfl
        rw [hInitial]
        simp only [routeInitialDatagram, hStop]
    | badFrames initial plaintext status hInitial hDecrypt
        hFrames =>
        have hStop :
            initialCrypto env.crypto packet initial =
              .error status := by
          unfold initialCrypto
          rw [hDecrypt]
          exact hFrames
        rw [hInitial]
        simp only [routeInitialDatagram, hStop]

/-
  Without encoded ids, a datagram of an unknown source that
  no alias answers for and that the pipeline turns down is
  dropped without a trace.
-/
theorem rejected_leaves_no_trace
    (env : Env)
    (dp : Dataplane)
    (datagram : Datagram)
    (source : Sockaddr)
    (answers : Answers)
    (hCodec : dp.config.cidCodec.enabled = false)
    (hTuple :
      dp.sessions.get env.hash (tupleKey source) = none)
    (hFlow : dp.flows.get env.hash source = none)
    (hAlias :
      ¬ MatchesAlias env.hash dp.sessions datagram.packet)
    (hRejected : Rejected env.crypto datagram.packet) :
    let after :=
      dp.step env (.client datagram source answers)
    after.enqueued = dp.enqueued ∧ after.queue = dp.queue ∧
      after.sessions = dp.sessions ∧
      after.flows = dp.flows ∧ after.pending = dp.pending ∧
      after = dp.withAnswers answers := by
  have hFast :
      (dp.withAnswers answers).fastPath env datagram.packet
          source datagram.now = none := by
    have hGet :
        (dp.withAnswers answers).flows.get env.hash source =
          none := hFlow
    unfold fastPath
    split
    · rw [hGet]
    · rfl
  have hSelect :
      selectSession env (dp.withAnswers answers).config
          (dp.withAnswers answers).sessions datagram.packet
          source datagram.now =
        (none, dp.sessions) :=
    selectSession_unknown hCodec hTuple hAlias
  have hAfter :
      dp.step env (.client datagram source answers) =
        dp.withAnswers answers := by
    rw [step_client]
    unfold handleClientPacket
    rw [hFast]
    dsimp only
    rw [hSelect]
    exact freshPath_rejected source datagram.now hRejected
  intro after
  have hEq : after = dp.withAnswers answers := hAfter
  rw [hEq]
  exact ⟨rfl, rfl, rfl, rfl, rfl, rfl⟩

end Dataplane

namespace Deployment

open Dataplane

/- A router with one connection. -/
def visited : Dataplane :=
  byName.step (envWith [connection1, connection2])
    (.client (opening connection1 connection1_size)
      (client 4) (opens 4))

/- An Initial of another connection with a wrong tag. -/
def forged : Datagram where
  packet := connection2.packet.set 80 0
  now := 1
  nonempty := by decide +kernel
  bounded := by decide +kernel

/- The header that the forged packet shows. -/
def forgedHeader : Quic.Initial :=
  okValue (Quic.parseInitial forged.packet)
    (by decide +kernel)

/- A forged Initial leaves all as it was. -/
theorem forged_packet_leaves_no_trace :
    visited.flows.count = 1 ∧ 0 < visited.sessions.count ∧
      Quic.parseInitial forged.packet = .ok forgedHeader ∧
      visited.step (envWith [connection1, connection2])
          (.client forged (client 5) (opens 5)) =
        visited.withAnswers (opens 5) := by
  have hParse :
      Quic.parseInitial forged.packet = .ok forgedHeader :=
    eq_okValue _ _
  have hAlias :
      ¬ MatchesAlias env.hash visited.sessions
        forged.packet := by
    rintro (hShort | hLong | ⟨initial, hInitial, hGet⟩)
    · exact hShort (by decide +kernel)
    · exact hLong (by decide +kernel)
    · rw [hParse] at hInitial
      rw [← Except.ok.inj hInitial] at hGet
      rcases hGet with hPair | hSingle
      · exact hPair (by decide +kernel)
      · exact hSingle (by decide +kernel)
  rcases rejected_leaves_no_trace
      (envWith [connection1, connection2]) visited forged
      (client 5) (opens 5) (by decide +kernel)
      (by decide +kernel) (by decide +kernel) hAlias
      (Rejected.notDecrypted forgedHeader .invalid hParse
        (by decide +kernel)) with
    ⟨_, _, _, _, _, hSame⟩
  exact ⟨by decide +kernel, by decide +kernel, hParse, hSame⟩

end Deployment

end QuicSniRouter
