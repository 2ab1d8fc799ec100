import QuicSniRouter.Dataplane.Invariant
import QuicSniRouter.Dataplane.PendingLookup

/-
  The buffered Initials over a whole run.  A fact that holds
  of a new entry and that buffering a datagram keeps holds of
  every entry in every reachable state.

  Main declarations:
    * `PendingTable.Every`
    * `PendingInitial.Kept`
    * `Dataplane.Merged`
    * `Dataplane.step_pending`
    * `Dataplane.ReachableWhere.every`
    * `Dataplane.ReachableWhere.pendingInv`
    * `PendingInitial.mem_appendPacket`
-/

------------------------------------------------------------
-- Facts About Every Entry
------------------------------------------------------------

namespace QuicSniRouter

open LinearProbing

namespace PendingInitial

/- What new entries have and buffering a datagram keeps. -/
structure Kept
    (fact : PendingInitial → Prop) : Prop where
  start :
    ∀ source initial now, fact (start source initial now)
  seen :
    ∀ entry now, fact entry →
      fact { entry with lastSeen := now }
  append :
    ∀ entry packet, fact entry →
      fact (entry.appendPacket packet)
  merge :
    ∀ entry crypto, fact entry → fact { entry with crypto }

end PendingInitial

namespace PendingTable

/- A fact about all entries that are pending. -/
def Every
    (fact : PendingInitial → Prop)
    (pending : PendingTable) : Prop :=
  ∀ i entry, pending.entries i = some entry → fact entry

variable {fact : PendingInitial → Prop}
variable {pending : PendingTable}

theorem getEntry_every
    (source : Sockaddr)
    (initial : Quic.Initial)
    (now : Int)
    (hKept : PendingInitial.Kept fact)
    (hEvery : pending.Every fact) :
    let found := pending.getEntry source initial now
    fact found.2.1 ∧ found.2.2.Every fact := by
  have hStart := hKept.start source initial now
  unfold getEntry
  dsimp only
  split
  · rename_i i _
    cases hEntry : pending.entries i with
    | some entry =>
        exact ⟨hKept.seen entry now (hEvery i entry hEntry),
          hEvery⟩
    | none => exact ⟨hStart, hEvery⟩
  · split
    · exact ⟨hStart, hEvery⟩
    · exact ⟨hStart, hEvery⟩

theorem store_every
    {entry : PendingInitial}
    (i : Nat)
    (hEvery : pending.Every fact)
    (hEntry : fact entry) :
    (pending.store i entry).Every fact := by
  intro j other hOther
  rcases fill_eq_some hOther with ⟨_, hEq⟩ | ⟨_, hOld⟩
  · rw [hEq]
    exact hEntry
  · exact hEvery j other hOld

theorem remove_every
    (i : Nat)
    (hEvery : pending.Every fact) :
    (pending.remove i).Every fact := by
  unfold remove
  split
  · intro j entry hEntry
    exact hEvery j entry (vacate_eq_some hEntry).2
  · exact hEvery

theorem expire_every
    (now : Int)
    (hEvery : pending.Every fact) :
    (pending.expire now).Every fact := by
  intro i entry hEntry
  exact hEvery i entry (Option.filter_eq_some_iff.mp hEntry).1

end PendingTable

variable {fact : PendingInitial → Prop} {env : Env}
variable {config : Config} {pending : PendingTable}

theorem bufferInitial_every
    (packet : Bytes)
    (initial : Quic.Initial)
    (source : Sockaddr)
    (now : Int)
    (crypto : Quic.CryptoStream)
    (hKept : PendingInitial.Kept fact)
    (hEvery : pending.Every fact) :
    let buffered :=
      bufferInitial pending packet initial source now crypto
    fact buffered.2.1 ∧ buffered.2.2.Every fact := by
  rcases PendingTable.getEntry_every source initial now
      hKept hEvery with ⟨hFound, hTable⟩
  have hEntry :=
    hKept.merge _
      (((pending.getEntry source initial
        now).2.1.appendPacket packet).crypto.merge crypto)
      (hKept.append _ packet hFound)
  exact ⟨hEntry, PendingTable.store_every _ hTable hEntry⟩

/- A routed Initial comes with the entry that buffers it. -/
theorem routed_entry
    {packet : Bytes}
    {initial : Quic.Initial}
    {source : Sockaddr}
    {now : Int}
    {routed : RoutedInitial}
    (hRoute :
      (routeInitialDatagram env config pending packet
        initial source now).2 = .ok routed) :
    ∃ crypto,
      routed.entry =
        (bufferInitial pending packet initial source now
          crypto).2.1 := by
  unfold routeInitialDatagram at hRoute
  cases hCrypto : initialCrypto env.crypto packet initial with
  | error status =>
      rw [hCrypto] at hRoute
      cases hRoute
  | ok crypto =>
      rw [hCrypto] at hRoute
      rcases except_bind_eq_ok hRoute with ⟨backend, _, hDone⟩
      cases hDone
      exact ⟨crypto, rfl⟩

end QuicSniRouter

------------------------------------------------------------
-- One Step
------------------------------------------------------------

namespace QuicSniRouter

namespace Dataplane

variable {env : Env} {dp : Dataplane} {source : Sockaddr}
variable {datagram : Datagram} {initial : Quic.Initial}
variable {crypto : Quic.CryptoStream}

theorem Forwarded.pending
    {after : Dataplane}
    {i : Nat}
    {packet : Bytes}
    {now : Int}
    (hForwarded : Forwarded env dp i packet source now after)
    (hFlows : dp.flows.Inv env.hash) :
    after.pending = dp.pending := by
  cases hForwarded with
  | noFlow _ hAcquire =>
      have hAcquired := Acquired.of_eq hAcquire hFlows
      exact hAcquired.frame.pending
  | sent slot reached hAcquire =>
      have hAcquired := Acquired.of_eq hAcquire hFlows
      exact (enqueue_frame _ _).pending.trans
        hAcquired.frame.pending

/-
  A datagram whose CRYPTO bytes are merged into a pending
  entry: no session answers for it, and it is a full-size
  Initial that can be decrypted and read.
-/
structure Merged
    (env : Env)
    (dp : Dataplane)
    (datagram : Datagram)
    (source : Sockaddr)
    (initial : Quic.Initial)
    (crypto : Quic.CryptoStream) : Prop where
  noSession :
    (selectSession env dp.config dp.sessions
      datagram.packet source datagram.now).1 = none
  size : minInitialDatagramSize ≤ datagram.packet.length
  parsed :
    Quic.parseInitial datagram.packet = .ok initial
  crypto :
    initialCrypto env.crypto datagram.packet initial =
      .ok crypto

/- An Initial that no session answers for is fresh. -/
theorem step_fresh
    (answers : Answers)
    (hParse : Quic.parseInitial datagram.packet = .ok initial)
    (hNone :
      (selectSession env dp.config dp.sessions
        datagram.packet source datagram.now).1 = none) :
    dp.step env (.client datagram source answers) =
      freshPath env
        { dp.withAnswers answers with
          sessions :=
            (selectSession env dp.config dp.sessions
              datagram.packet source datagram.now).2 }
        datagram.packet source datagram.now := by
  have hLong := Quic.parseInitial_hasLongBit hParse
  have hFast :
      (dp.withAnswers answers).fastPath env datagram.packet
        source datagram.now = none := by
    simp [fastPath, hLong]
  have hSelect :
      selectSession env (dp.withAnswers answers).config
          (dp.withAnswers answers).sessions datagram.packet
          source datagram.now =
        (none,
          (selectSession env dp.config dp.sessions
            datagram.packet source datagram.now).2) :=
    Prod.ext hNone rfl
  unfold step handleClientPacket
  simp only [hFast, hSelect]

/- What a merged datagram is routed by. -/
theorem Merged.route
    (hMerged : Merged env dp datagram source initial crypto) :
    let buffered :=
      bufferInitial dp.pending datagram.packet initial
        source datagram.now crypto
    routeInitialDatagram env dp.config dp.pending
        datagram.packet initial source datagram.now =
      (buffered.2.2, do
        let backend ←
          routeCryptoStream env.hash dp.config
            buffered.2.1.crypto
        return {
          backend
          cell := buffered.1
          entry := buffered.2.1 }) := by
  unfold routeInitialDatagram
  rw [hMerged.crypto]

/- A fresh datagram with a backend has been merged. -/
theorem freshBackend_merged
    {backend : Sockaddr}
    (hNone :
      (selectSession env dp.config dp.sessions
        datagram.packet source datagram.now).1 = none)
    (hFresh :
      dp.freshBackend env datagram.packet source
        datagram.now = some backend) :
    ∃ initial crypto,
      Merged env dp datagram source initial crypto ∧
        routeCryptoStream env.hash dp.config
          (bufferInitial dp.pending datagram.packet initial
            source datagram.now crypto).2.1.crypto =
              .ok backend := by
  unfold freshBackend at hFresh
  split at hFresh
  · cases hFresh
  · rename_i hSize
    cases hParse : Quic.parseInitial datagram.packet with
    | error status =>
        rw [hParse] at hFresh
        cases hFresh
    | ok initial =>
        cases hCrypto :
            initialCrypto env.crypto datagram.packet
              initial with
        | error status =>
            rw [hParse] at hFresh
            unfold routeInitialDatagram at hFresh
            simp only [hCrypto] at hFresh
            cases hFresh
        | ok crypto =>
            have hMerged :
                Merged env dp datagram source initial
                  crypto :=
              ⟨hNone, by omega, hParse, hCrypto⟩
            refine ⟨initial, crypto, hMerged, ?_⟩
            rw [hParse] at hFresh
            simp only [hMerged.route] at hFresh
            cases hRoute :
                routeCryptoStream env.hash dp.config
                  (bufferInitial dp.pending datagram.packet
                    initial source datagram.now
                    crypto).2.1.crypto with
            | error status =>
                rw [hRoute] at hFresh
                cases hFresh
            | ok chosen =>
                rw [hRoute] at hFresh
                rw [← Option.some.inj hFresh]

/- What is merged stays buffered, or is routed and freed. -/
theorem Merged.pending
    (answers : Answers)
    (hMerged : Merged env dp datagram source initial crypto)
    (hFlows : dp.flows.Inv env.hash) :
    let buffered :=
      bufferInitial dp.pending datagram.packet initial
        source datagram.now crypto
    let after :=
      dp.step env (.client datagram source answers)
    after.pending = buffered.2.2 ∨
      after.pending = buffered.2.2.remove buffered.1 := by
  intro buffered
  have hSize := hMerged.size
  rw [step_fresh answers hMerged.parsed hMerged.noSession]
  unfold freshPath
  dsimp only
  rw [if_neg (by omega), hMerged.parsed]
  dsimp only [withAnswers]
  rw [hMerged.route]
  cases routeCryptoStream env.hash dp.config
      buffered.2.1.crypto with
  | error status => exact Or.inl rfl
  | ok backend =>
      simp only [bind, Except.bind, pure, Except.pure]
      have hAcquired :=
        @flowAcquire_cases env
          { dp with
            answers
            sessions :=
              (selectSession env dp.config dp.sessions
                datagram.packet source datagram.now).2
            pending := buffered.2.2 }
          source backend datagram.now hFlows
      cases hAcquire :
          flowAcquire env
            { dp with
              answers
              sessions :=
                (selectSession env dp.config dp.sessions
                  datagram.packet source datagram.now).2
              pending := buffered.2.2 }
            source backend datagram.now with
      | mk slot reached =>
          rw [hAcquire] at hAcquired
          have hSame : reached.pending = buffered.2.2 :=
            hAcquired.frame.pending
          cases slot with
          | none => exact Or.inl hSame
          | some slot =>
              dsimp only
              split
              · refine Or.inr ?_
                dsimp only
                rw [(sendAll_frame _ _ _ _ _).pending]
                dsimp only
                rw [hSame]
              · exact Or.inl hSame

/- A merged datagram that is routed, with its flow. -/
theorem Merged.installed
    {acquired : Dataplane}
    {datagram : Datagram}
    {source backend : Sockaddr}
    {initial : Quic.Initial}
    {crypto : Quic.CryptoStream}
    {answers : Answers}
    {slot : Nat}
    (hMerged : Merged env dp datagram source initial crypto)
    (hBackend :
      routeCryptoStream env.hash dp.config
        (bufferInitial dp.pending datagram.packet initial
          source datagram.now crypto).2.1.crypto =
            .ok backend)
    (hAcquire :
      flowAcquire env { dp with answers } source backend
        datagram.now = (some slot, acquired))
    (hPut :
      ((selectSession env dp.config dp.sessions
          datagram.packet source
          datagram.now).2.putOwned env.hash
        (SessionKey.tupleKey source)
        (.addr backend.storage) backend.len datagram.now
        slot (acquired.flowId slot)).1 = .ok) :
    let buffered :=
      bufferInitial dp.pending datagram.packet initial
        source datagram.now crypto
    ∃ sessions,
      dp.step env (.client datagram source answers) =
        let queued :=
          (enqueueAll
            (acquired.elsewhere sessions buffered.2.2)
            (acquired.flowFd slot) backend source
            buffered.2.1.packets).flush
        { queued with
          pending := queued.pending.remove buffered.1 } := by
  intro buffered
  have hSize := hMerged.size
  let selected :=
    (selectSession env dp.config dp.sessions datagram.packet
      source datagram.now).2
  have hElsewhere :
      flowAcquire env
        { dp with
          answers
          sessions := selected
          pending := buffered.2.2 }
        source backend datagram.now =
          (some slot,
            acquired.elsewhere selected buffered.2.2) := by
    have hSame :=
      @flowAcquire_elsewhere env selected buffered.2.2
        { dp with answers } source backend datagram.now
    rw [hAcquire] at hSame
    exact hSame
  have hStored :
      (acquired.elsewhere selected
          buffered.2.2).sessions.putOwned env.hash
        (SessionKey.tupleKey source) (.addr backend.storage)
        backend.len datagram.now slot
        ((acquired.elsewhere selected
          buffered.2.2).flowId slot) = (.ok, _) :=
    Prod.ext hPut rfl
  rw [step_fresh answers hMerged.parsed hMerged.noSession]
  unfold freshPath
  dsimp only
  rw [if_neg (by omega), hMerged.parsed]
  dsimp only [withAnswers]
  rw [hMerged.route, hBackend]
  simp only [bind, Except.bind, pure, Except.pure]
  rw [hElsewhere]
  dsimp only
  rw [hStored]
  exact ⟨_, rfl⟩

/- Other datagrams leave the buffered Initials alone. -/
theorem client_pending
    (answers : Answers)
    (hFlows : dp.flows.Inv env.hash)
    (hOther :
      ∀ initial crypto,
        ¬ Merged env dp datagram source initial crypto) :
    (dp.step env (.client datagram source answers)).pending =
      dp.pending := by
  have hHandled :=
    step_client_cases datagram source answers hFlows
  by_cases hFresh :
      ∃ initial,
        Quic.parseInitial datagram.packet = .ok initial ∧
          (selectSession env dp.config dp.sessions
            datagram.packet source datagram.now).1 = none
  · -- A fresh Initial that is short or cannot be read.
    rcases hFresh with ⟨initial, hParse, hNone⟩
    rw [step_fresh answers hParse hNone]
    unfold freshPath
    split
    · rfl
    · rename_i hSize
      rw [hParse]
      dsimp only [withAnswers]
      unfold routeInitialDatagram
      cases hCrypto :
          initialCrypto env.crypto datagram.packet
            initial with
      | error status => rfl
      | ok crypto =>
          exact absurd
            ⟨hNone, by omega, hParse, hCrypto⟩
            (hOther initial crypto)
  · generalize hAfter :
      dp.step env (.client datagram source answers) = after
      at hHandled ⊢
    cases hHandled with
    | fast slot flow => exact (enqueue_frame _ _).pending
    | session i sessions _ hFast hSelect hForwarded =>
        exact hForwarded.pending hFlows
    | fresh sessions _ hFast hSelect =>
        rw [← hAfter, step_client]
        unfold handleClientPacket freshPath
        simp only [hFast, hSelect]
        split
        · rfl
        · cases hParse :
              Quic.parseInitial datagram.packet with
          | error status => rfl
          | ok initial =>
              exact absurd
                ⟨initial, hParse, congrArg Prod.fst hSelect⟩
                hFresh

/- What an event does to the buffered Initials. -/
inductive PendingStep
    (env : Env)
    (dp : Dataplane) :
    Event → PendingTable → Prop
  | kept
      (event : Event) :
      PendingStep env dp event dp.pending
  | buffered
      (datagram : Datagram)
      (source : Sockaddr)
      (answers : Answers)
      (initial : Quic.Initial)
      (crypto : Quic.CryptoStream)
      (hMerged :
        Merged env dp datagram source initial crypto) :
      PendingStep env dp (.client datagram source answers)
        (bufferInitial dp.pending datagram.packet initial
          source datagram.now crypto).2.2
  | routed
      (datagram : Datagram)
      (source : Sockaddr)
      (answers : Answers)
      (initial : Quic.Initial)
      (crypto : Quic.CryptoStream)
      (hMerged :
        Merged env dp datagram source initial crypto) :
      PendingStep env dp (.client datagram source answers)
        (let buffered :=
          bufferInitial dp.pending datagram.packet initial
            source datagram.now crypto
        buffered.2.2.remove buffered.1)
  | swept
      (now : Int) :
      PendingStep env dp (.sweep now) (dp.pending.expire now)

theorem step_pending
    (event : Event)
    (hFlows : dp.flows.Inv env.hash) :
    PendingStep env dp event (dp.step env event).pending := by
  cases event with
  | client datagram source answers =>
      by_cases hMerged :
          ∃ initial crypto,
            Merged env dp datagram source initial crypto
      · rcases hMerged with ⟨initial, crypto, hMerged⟩
        rcases hMerged.pending answers hFlows with
          hBuffered | hRouted
        · rw [hBuffered]
          exact PendingStep.buffered datagram source answers
            initial crypto hMerged
        · rw [hRouted]
          exact PendingStep.routed datagram source answers
            initial crypto hMerged
      · rw [client_pending answers hFlows
          (fun initial crypto hOther =>
            hMerged ⟨initial, crypto, hOther⟩)]
        exact PendingStep.kept _
  | backend slot datagram answers =>
      have hSame :
          (dp.step env
            (.backend slot datagram answers)).pending =
              dp.pending := by
        rw [step_backend]
        unfold handleBackendPacket
        split
        · rfl
        · exact (enqueue_frame _ _).pending
      rw [hSame]
      exact PendingStep.kept _
  | flush answers => exact PendingStep.kept _
  | sweep now => exact PendingStep.swept now
  | reload file resolver =>
      have hSame :
          (dp.step env (.reload file resolver)).pending =
            dp.pending := by
        rw [step_reload]
        unfold reloadFromPath
        split
        · rfl
        · rfl
      rw [hSame]
      exact PendingStep.kept _

end Dataplane

namespace Dataplane

variable {env : Env} {dp : Dataplane}
variable {fact : PendingInitial → Prop}
variable {allowed : Dataplane → Event → Prop}

theorem step_every
    (event : Event)
    (hFlows : dp.flows.Inv env.hash)
    (hKept : PendingInitial.Kept fact)
    (hEvery : dp.pending.Every fact) :
    (dp.step env event).pending.Every fact := by
  have hStep := step_pending event hFlows
  generalize (dp.step env event).pending = after at hStep ⊢
  cases hStep with
  | kept => exact hEvery
  | buffered datagram source answers initial crypto =>
      exact (bufferInitial_every _ _ _ _ _ hKept hEvery).2
  | routed datagram source answers initial crypto =>
      exact PendingTable.remove_every _
        (bufferInitial_every _ _ _ _ _ hKept hEvery).2
  | swept now =>
      exact PendingTable.expire_every now hEvery

theorem step_pendingInv
    (event : Event)
    (hFlows : dp.flows.Inv env.hash)
    (hInv : dp.pending.Inv) :
    (dp.step env event).pending.Inv := by
  have hStep := step_pending event hFlows
  generalize (dp.step env event).pending = after at hStep ⊢
  cases hStep with
  | kept => exact hInv
  | buffered datagram source answers initial crypto =>
      exact bufferInitial_inv _ _ _ _ _ hInv
  | routed datagram source answers initial crypto =>
      exact (bufferInitial_inv _ _ _ _ _ hInv).of_sub
        (PendingTable.remove_sub _ _)
  | swept now =>
      exact hInv.of_sub (PendingTable.expire_sub _ now)

theorem ReachableWhere.every
    (hReach : ReachableWhere env allowed dp)
    (hKept : PendingInitial.Kept fact) :
    dp.pending.Every fact := by
  induction hReach with
  | start hStarts =>
      intro i entry hEntry
      rw [hStarts.started.pending] at hEntry
      cases hEntry
  | step event hReach _ ih =>
      exact step_every event hReach.tables.flows hKept ih

/- No connection has two entries. -/
theorem ReachableWhere.pendingInv
    (hReach : ReachableWhere env allowed dp) :
    dp.pending.Inv := by
  induction hReach with
  | start hStarts =>
      rw [hStarts.started.pending]
      exact PendingTable.init_inv
  | step event hReach _ ih =>
      exact step_pendingInv event hReach.tables.flows ih

end Dataplane

namespace PendingInitial

/- An entry has the key of its two ids. -/
def Keyed
    (entry : PendingInitial) : Prop :=
  entry.cidKey = SessionKey.cidKey entry.dcid entry.scid

theorem kept_keyed :
    Kept Keyed where
  start := fun _ _ _ => rfl
  seen := fun _ _ hKeyed => hKeyed
  append := by
    intro entry packet hKeyed
    unfold appendPacket
    split
    · exact hKeyed
    · split
      · exact hKeyed
      · split
        · exact hKeyed
        · exact hKeyed
  merge := fun _ _ hKeyed => hKeyed

/- The entry has the datagram or room for it. -/
def takes
    (entry : PendingInitial)
    (packet : Bytes) : Bool :=
  packet ∈ entry.packets ||
    entry.packets.length < pendingInitialMaxPackets

end PendingInitial

end QuicSniRouter
