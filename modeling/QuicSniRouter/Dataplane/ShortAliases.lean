import QuicSniRouter.Dataplane.Writes

/-
  Ids below the minimum learned length.  They get into the
  session table only as the pair of a client's long header
  whose source id is empty, and no lookup answers with them.

  Main declarations:
    * `SessionKey.BelowMinimum`
    * `PairedBy`
    * `Dataplane.short_aliases_are_pairs`
-/

------------------------------------------------------------
-- Keys Below The Minimum
------------------------------------------------------------

namespace QuicSniRouter

variable {key : SessionKey} {packet : Bytes}
variable {hash : Bytes → Nat} {sessions : SessionTable}
variable {i : Nat}

namespace SessionKey

variable {a b : SessionKey}

/- A single id that is too short to be learned. -/
def BelowMinimum
    (key : SessionKey) : Prop :=
  key.hasCids = true ∧ key.hasTuple = false ∧
    key.scid = [] ∧ key.dcid.length < minLearnedCidLen

instance
    (key : SessionKey) :
    Decidable key.BelowMinimum :=
  inferInstanceAs (Decidable (_ ∧ _ ∧ _ ∧ _))

theorem BelowMinimum.of_equals
    (hEquals : a.equals b = true)
    (hBelow : a.BelowMinimum) :
    b.BelowMinimum ∧ b.dcid = a.dcid := by
  rcases hBelow with ⟨hCids, hTuple, hScid, hLen⟩
  rcases equals_iff.mp hEquals with
    ⟨hSameTuple, hSameCids, _, _, _, _, hIds⟩
  rcases hIds hCids with ⟨hDcid, hScids⟩
  refine ⟨⟨?_, ?_, ?_, ?_⟩, hDcid.symm⟩
  · rw [← hSameCids, hCids]
  · rw [← hSameTuple, hTuple]
  · rw [← hScids, hScid]
  · rw [← hDcid]
    exact hLen

theorem not_belowMinimum_zero :
    ¬ zero.BelowMinimum := by
  rintro ⟨hCids, _⟩
  cases hCids

theorem not_belowMinimum_tupleKey
    (addr : Sockaddr) :
    ¬ (tupleKey addr).BelowMinimum := by
  rintro ⟨hCids, _⟩
  rw [tupleKey_hasCids] at hCids
  cases hCids

theorem not_belowMinimum_cidKey
    {dcid : Bytes}
    (scid : Bytes)
    (hLen : minLearnedCidLen ≤ dcid.length) :
    ¬ (cidKey dcid scid).BelowMinimum := by
  rintro ⟨hCids, _, _, hShort⟩
  rw [(cidKey_dcid hCids).1] at hShort
  omega

theorem not_belowMinimum_singleCidKey
    (cid : Bytes) :
    ¬ (singleCidKey cid).BelowMinimum := by
  unfold singleCidKey
  split
  · exact not_belowMinimum_zero
  · rename_i hLen
    exact not_belowMinimum_cidKey [] (Nat.le_of_not_lt hLen)

end SessionKey

/-
  A client's long header, not of an Initial, with an empty
  source id in front of this destination id.
-/
def PairedBy
    (dcid : Bytes) :
    Event → Prop
| .client datagram _ _ =>
    (∃ status,
      Quic.parseInitial datagram.packet = .error status) ∧
    ∃ header,
      learnableHeader datagram.packet = some header ∧
        header.dcid = dcid ∧ header.scid = []
| _ => False

/- The short keys that a client header gives. -/
theorem learnedKeys_belowMinimum
    {datagram : Datagram}
    (source : Sockaddr)
    (answers : Answers)
    (hKey : key ∈ learnedKeys datagram.packet)
    (hBelow : key.BelowMinimum) :
    PairedBy key.dcid (.client datagram source answers) := by
  unfold learnedKeys at hKey
  cases hHeader : learnableHeader datagram.packet with
  | none =>
      rw [hHeader] at hKey
      cases hKey
  | some header =>
      rw [hHeader] at hKey
      rcases List.mem_pair.mp hKey with hEq | hEq
      · rw [hEq] at hBelow
        exact absurd hBelow
          (SessionKey.not_belowMinimum_singleCidKey _)
      · rcases hBelow with ⟨hCids, _, hScid, hLen⟩
        rw [hEq] at hCids
        rcases SessionKey.cidKey_dcid hCids with
          ⟨hDcid, hScid'⟩
        rw [← hEq] at hDcid hScid'
        refine ⟨?_, header, hHeader, hDcid.symm, ?_⟩
        · cases hInitial :
              Quic.parseInitial datagram.packet with
          | error status => exact ⟨status, rfl⟩
          | ok initial =>
              rcases parseInitial_header hInitial with
                ⟨other, hOther, hSame, _, hLong⟩
              rw [hHeader] at hOther
              cases hOther
              rw [hDcid, hSame] at hLen
              omega
        · rw [← hScid', hScid]

theorem backendKeys_not_belowMinimum
    (hKey : key ∈ backendKeys packet) :
    ¬ key.BelowMinimum := by
  unfold backendKeys at hKey
  cases hHeader : learnableHeader packet with
  | none =>
      rw [hHeader] at hKey
      cases hKey
  | some header =>
      rw [hHeader] at hKey
      rw [List.mem_singleton.mp hKey]
      exact SessionKey.not_belowMinimum_singleCidKey _

open LinearProbing

namespace Dataplane

variable {env : Env} {dp : Dataplane} {events : List Event}
variable {key : SessionKey}

/- Short keys are pairs of headers that have been seen. -/
def Paired
    (events : List Event)
    (key : SessionKey) : Prop :=
  key.BelowMinimum → ∃ event ∈ events, PairedBy key.dcid event

theorem Paired.of_not
    {key' : SessionKey}
    (hEquals : key.equals key' = true)
    (hNot : ¬ key'.BelowMinimum) :
    Paired events key :=
  fun hBelow =>
    absurd (hBelow.of_equals hEquals).1 hNot

theorem StepPut.paired
    {event : Event}
    {args : PutArgs}
    (hPut : StepPut env dp args event)
    (hSeen : event ∈ events)
    (hEquals : key.equals args.key = true) :
    Paired events key := by
  cases event with
  | client datagram source answers =>
      cases hPut with
      | bound backend =>
          exact Paired.of_not hEquals
            (SessionKey.not_belowMinimum_tupleKey source)
      | tuple backend slot flow hHolder =>
          exact Paired.of_not hEquals
            (SessionKey.not_belowMinimum_tupleKey source)
      | learned key' dest destLen slot flow hKey hHolder =>
          intro hBelow
          rcases hBelow.of_equals hEquals with
            ⟨hBelow', hDcid⟩
          have hDcid' : key'.dcid = key.dcid := hDcid
          refine ⟨_, hSeen, ?_⟩
          rw [← hDcid']
          exact learnedKeys_belowMinimum source answers hKey
            hBelow'
  | backend slot datagram answers =>
      rcases hPut with ⟨flow, _, hBackendPut⟩
      cases hBackendPut with
      | learned key' hKey =>
          exact Paired.of_not hEquals
            (backendKeys_not_belowMinimum hKey)
  | flush answers => exact hPut.elim
  | sweep now => exact hPut.elim
  | reload file resolver => exact hPut.elim

/- One more event keeps the short keys accounted for. -/
theorem step_paired
    (event : Event)
    (hTables : Tables env dp)
    (hKeyed : dp.pending.Every PendingInitial.Keyed)
    (hAll : dp.sessions.Keys (Paired events)) :
    (dp.step env event).sessions.Keys
      (Paired (events ++ [event])) := by
  have hSeen : event ∈ events ++ [event] :=
    List.mem_append_right _ List.mem_cons_self
  refine step_entries_induction event ?_ ?_ ?_ hTables
    hKeyed ?_
  · intro old new hRenewed hOld
    rw [hRenewed.key]
    exact hOld
  · intro table args hPut _
    exact StepPut.paired hPut hSeen (SessionKey.equals_refl _)
  · intro table args old hPut _ _ hEquals
    exact StepPut.paired hPut hSeen hEquals
  · intro s hHolds hBelow
    rcases hAll s hHolds hBelow with ⟨seen, hMem, hPaired⟩
    exact ⟨seen, List.mem_append_left _ hMem, hPaired⟩

theorem run_paired
    (hStarts : Starts env dp)
    (events : List Event) :
    (dp.run env events).sessions.Keys (Paired events) := by
  have hReach :
      ∀ events, Reachable env (dp.run env events) :=
    fun events =>
      reachable_run events (ReachableWhere.start hStarts)
  apply @run_induction env dp
    (fun events dp => dp.sessions.Keys (Paired events))
  · rintro s ⟨i, hi, hCell⟩
    rw [hStarts.no_sessions i] at hCell
    cases hCell
  · intro events event hAll
    exact step_paired event (hReach events).tables
      ((hReach events).every PendingInitial.kept_keyed) hAll

end Dataplane

/- The entry of a slot has a key that is too short. -/
def ShortAt
    (sessions : SessionTable)
    (i : Nat) : Prop :=
  ∃ s, sessions.sessions i = some s ∧ s.key.BelowMinimum

theorem not_shortAt
    (hInv : sessions.Inv hash)
    (hNot : ¬ key.BelowMinimum)
    (hGet : sessions.get hash key = some i) :
    ¬ ShortAt sessions i := by
  rintro ⟨s, hCell, hBelow⟩
  rcases SessionTable.get_used hInv hGet with
    ⟨_, s', hCell', hEquals⟩
  rw [hCell] at hCell'
  cases hCell'
  exact hNot (hBelow.of_equals hEquals).1

theorem shortHeaderCidFrom_not_short
    (len : Nat)
    (hInv : sessions.Inv hash)
    (hFound :
      shortHeaderCidFrom hash sessions packet len = some i) :
    ¬ ShortAt sessions i := by
  induction len with
  | zero => cases hFound
  | succ len ih =>
      unfold shortHeaderCidFrom at hFound
      split at hFound
      · cases hFound
      · split at hFound
        · split at hFound
          · rename_i hGet
            cases hFound
            exact not_shortAt hInv
              (SessionKey.not_belowMinimum_singleCidKey _)
              hGet
          · exact ih hFound
        · exact ih hFound

theorem lookups_not_short
    (config : Config)
    (hInv : sessions.Inv hash)
    (hFound :
      lookupShortHeaderCid hash sessions packet = some i ∨
      lookupLongHeaderDcid hash sessions packet = some i ∨
      ∃ initial, Quic.parseInitial packet = .ok initial ∧
        selectInitial hash config sessions initial = some i) :
    ¬ ShortAt sessions i := by
  rcases hFound with
    hShort | hLong | ⟨initial, hInitial, hSelect⟩
  · unfold lookupShortHeaderCid at hShort
    split at hShort
    · cases hShort
    · exact shortHeaderCidFrom_not_short _ hInv hShort
  · unfold lookupLongHeaderDcid at hLong
    dsimp only at hLong
    split at hLong
    · cases hLong
    · split at hLong
      · cases hLong
      · split at hLong
        · cases hLong
        · exact not_shortAt hInv
            (SessionKey.not_belowMinimum_singleCidKey _)
            hLong
  · rcases parseInitial_header hInitial with
      ⟨_, _, _, _, hLen⟩
    unfold selectInitial at hSelect
    split at hSelect
    · rename_i hGet
      cases hSelect
      exact not_shortAt hInv
        (SessionKey.not_belowMinimum_cidKey _ hLen) hGet
    · unfold lookupLongHeaderRequestDcid at hSelect
      split at hSelect
      · rename_i hGet
        split at hSelect
        · cases hSelect
          exact not_shortAt hInv
            (SessionKey.not_belowMinimum_singleCidKey _)
            hGet
        · cases hSelect
      · cases hSelect

namespace Dataplane

/-
  In every run a stored single id below the minimum is the
  destination id of an earlier client header with an empty
  source id, and no datagram is answered for by it.
-/
theorem short_aliases_are_pairs
    (env : Env)
    (start : Dataplane)
    (events : List Event)
    (hStarts : Starts env start) :
    let dp := start.run env events
    (∀ i < dp.sessions.capacity, ∀ s,
      dp.sessions.sessions i = some s →
      s.key.BelowMinimum →
        ∃ event ∈ events, PairedBy s.key.dcid event) ∧
    (∀ packet i,
      lookupShortHeaderCid env.hash dp.sessions packet =
          some i ∨
      lookupLongHeaderDcid env.hash dp.sessions packet =
          some i ∨
      (∃ initial, Quic.parseInitial packet = .ok initial ∧
        selectInitial env.hash dp.config dp.sessions
          initial = some i) →
        ¬ ShortAt dp.sessions i) := by
  intro dp
  have hReach : Reachable env dp :=
    reachable_run events (ReachableWhere.start hStarts)
  constructor
  · intro i hi s hCell hBelow
    exact run_paired hStarts events s ⟨i, hi, hCell⟩ hBelow
  · intro packet i hFound
    exact lookups_not_short dp.config
      hReach.tables.sessions hFound

end Dataplane

namespace Deployment

open Dataplane

/- A Handshake packet with ids of four and zero bytes. -/
def shortHandshake : Datagram where
  packet := [0xe0, 0, 0, 0, 1, 4, 1, 2, 3, 4, 0, 0]
  now := 1
  nonempty := by decide
  bounded := by decide

/- A handshake with an id below the minimum. -/
def shortHandshakeRun : List Event :=
  [.client (datagram 1) (client 4) (opens 5),
    .client shortHandshake (client 4) (opens 6)]

/- A session table after the four-byte id was seen. -/
def shortHandshakeSessions : SessionTable :=
  (fourSlots.run env shortHandshakeRun).sessions

/- An id of four bytes is stored as a single id. -/
theorem short_alias_stored :
    Starts env fourSlots ∧
      2 < shortHandshakeSessions.capacity ∧
      ShortAt shortHandshakeSessions 2 := by
  have hStored :
      (shortHandshakeSessions.sessions 2).map
          (fun s => decide s.key.BelowMinimum) =
        some true := by
    decide +kernel
  rcases Option.map_eq_some_iff.mp hStored with
    ⟨s, hCell, hBelow⟩
  exact ⟨starts_okValue _ _, by decide +kernel, s, hCell,
    of_decide_eq_true hBelow⟩

/- The short id came with a handshake. -/
theorem short_alias_is_pair :
    ShortAt shortHandshakeSessions 2 ∧
      ∃ event ∈ shortHandshakeRun,
        PairedBy [1, 2, 3, 4] event := by
  have hStored :
      (shortHandshakeSessions.sessions 2).map
          (fun s =>
            decide (s.key.BelowMinimum ∧
              s.key.dcid = [1, 2, 3, 4])) =
        some true := by
    decide +kernel
  rcases Option.map_eq_some_iff.mp hStored with
    ⟨s, hCell, hDecided⟩
  rcases of_decide_eq_true hDecided with ⟨hBelow, hDcid⟩
  refine ⟨⟨s, hCell, hBelow⟩, ?_⟩
  have hPairs :=
    short_aliases_are_pairs env fourSlots shortHandshakeRun
      (starts_okValue _ _)
  have hSlot : 2 < shortHandshakeSessions.capacity := by
    decide +kernel
  rw [← hDcid]
  unfold shortHandshakeSessions at hSlot hCell
  exact hPairs.1 2 hSlot s hCell hBelow

end Deployment

end QuicSniRouter
