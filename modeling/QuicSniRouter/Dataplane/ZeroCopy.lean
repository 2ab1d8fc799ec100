import QuicSniRouter.Dataplane.Machine
import QuicSniRouter.Dataplane.Queue

/-
  Forwarding without copies.  Following the queued pointers
  now gives a state of the dataplane in which the queue
  holds the bytes themselves.  Every operation over memory
  does to it what the dataplane does: no buffer and no
  pending entry changes while the queue points into it, and
  a flow lives as long as its socket is drained.

  Main declarations:
    * `Machine.view`
    * `Machine.Borrowing`
    * `Machine.Tracks`
    * `MainLoop.run_explained`
    * `MainLoop.loop_refines_events`
-/

------------------------------------------------------------
-- Following The Pointers
------------------------------------------------------------

namespace QuicSniRouter

namespace Machine

variable {m next last : Machine} {payload : Payload}
variable {dp : Dataplane}

/- The dataplane whose queue holds what is pointed at. -/
def view
    (m : Machine) : Dataplane :=
  { m.dp with queue := m.items.map m.load }

/- No queued pointer leads into the pending table. -/
def Borrowing
    (m : Machine) : Prop :=
  ∀ item ∈ m.items, ∃ slot offset,
    item.payload.pointer = .received slot offset

/- A payload of a receive buffer, as long as it says. -/
structure Readable
    (m : Machine)
    (payload : Payload) : Prop where
  received : ∃ slot offset,
    payload.pointer = .received slot offset
  length : (m.bytes payload).length = payload.len

/-
  An operation over memory that the dataplane mirrors,
  leaving the buffers alone.
-/
structure Tracks
    (m next : Machine)
    (dp : Dataplane) : Prop where
  view : next.view = dp
  borrowing : next.Borrowing
  buffers : next.buffers = m.buffers
  delivered : next.delivered = m.delivered

/- Operations in sequence. -/
theorem Tracks.trans
    {middle after : Dataplane}
    (hFirst : m.Tracks next middle)
    (hSecond : next.Tracks last after) :
    m.Tracks last after where
  view := hSecond.view
  borrowing := hSecond.borrowing
  buffers := hSecond.buffers.trans hFirst.buffers
  delivered := hSecond.delivered.trans hFirst.delivered

theorem Tracks.refl
    (hBorrow : m.Borrowing) :
    m.Tracks m m.view :=
  ⟨rfl, hBorrow, rfl, rfl⟩

/- Received bytes do not depend on anything but buffers. -/
theorem bytes_received
    (hReceived : ∃ slot offset,
      payload.pointer = .received slot offset)
    (hBuffers : next.buffers = m.buffers) :
    next.bytes payload = m.bytes payload := by
  rcases hReceived with ⟨slot, offset, hPointer⟩
  unfold bytes
  rw [hPointer, hBuffers]

/- The bytes of a payload stay. -/
theorem Tracks.bytes
    (hTracks : m.Tracks next dp)
    (hRead : m.Readable payload) :
    next.bytes payload = m.bytes payload :=
  bytes_received hRead.received hTracks.buffers

theorem Tracks.readable
    (hTracks : m.Tracks next dp)
    (hRead : m.Readable payload) :
    next.Readable payload :=
  ⟨hRead.received, by
    rw [hTracks.bytes hRead]
    exact hRead.length⟩

end Machine

namespace Machine

variable {m : Machine} {item : BorrowedItem}

/- A flush sends what is pointed at. -/
theorem flush_view :
    m.flush.view = m.view.flush :=
  rfl

theorem flush_tracks :
    m.Tracks m.flush m.view.flush :=
  ⟨rfl, fun _ hIn => absurd hIn List.not_mem_nil, rfl, rfl⟩

/- The queue does not notice a change of the rest. -/
theorem withDp_tracks
    (hBorrow : m.Borrowing)
    (dp : Dataplane) :
    m.Tracks (m.withDp dp)
      { dp with queue := m.view.queue } := by
  refine ⟨?_, hBorrow, rfl, rfl⟩
  have hLoad :
      m.items.map (m.withDp dp).load =
        m.items.map m.load := by
    apply List.map_congr_left
    intro item hIn
    have hBytes :
        (m.withDp dp).bytes item.payload =
          m.bytes item.payload :=
      bytes_received (hBorrow item hIn) rfl
    unfold load
    rw [hBytes]
  unfold view
  rw [← hLoad]
  rfl

theorem withAnswers_tracks
    (hBorrow : m.Borrowing)
    (answers : Answers) :
    m.Tracks (m.withAnswers answers)
      (m.view.withAnswers answers) :=
  withDp_tracks hBorrow _

theorem withSessions_tracks
    (hBorrow : m.Borrowing)
    (sessions : SessionTable) :
    m.Tracks (m.withSessions sessions)
      { m.view with sessions } :=
  withDp_tracks hBorrow _

theorem withPending_tracks
    (hBorrow : m.Borrowing)
    (pending : PendingTable) :
    m.Tracks (m.withPending pending)
      { m.view with pending } :=
  withDp_tracks hBorrow _

/- Queueing does not touch what pointers lead to. -/
theorem enqueue_bytes
    (item : BorrowedItem) :
    (m.enqueue item).bytes = m.bytes := by
  unfold enqueue
  split
  · rfl
  · split <;> rfl

/- Queueing a pointer is queueing its bytes. -/
theorem enqueue_view
    (hLen :
      (m.bytes item.payload).length = item.payload.len) :
    (m.enqueue item).view = m.view.enqueue (m.load item) := by
  have hCount : m.view.queue.length = m.items.length :=
    List.length_map _
  have hSize :
      (m.load item).packet.length = item.payload.len :=
    hLen
  unfold enqueue Dataplane.enqueue
  rw [hSize, hCount]
  by_cases hLarge : item.payload.len > maxDatagramSize
  · rw [if_pos hLarge, if_pos hLarge]
  · rw [if_neg hLarge, if_neg hLarge]
    by_cases hFull : m.items.length ≥ udpBatchSize
    · rw [if_pos hFull, if_pos hFull]
      rfl
    · rw [if_neg hFull, if_neg hFull]
      unfold view
      dsimp only
      rw [List.map_append]
      rfl

/- Queueing leaves the buffers alone. -/
theorem enqueue_memory
    (item : BorrowedItem) :
    (m.enqueue item).buffers = m.buffers ∧
      (m.enqueue item).delivered = m.delivered ∧
      (m.enqueue item).dp.flows = m.dp.flows := by
  unfold enqueue
  split
  · exact ⟨rfl, rfl, rfl⟩
  · split <;> exact ⟨rfl, rfl, rfl⟩

theorem enqueue_borrowing
    (hBorrow : m.Borrowing)
    (hReceived : ∃ slot offset,
      item.payload.pointer = .received slot offset) :
    (m.enqueue item).Borrowing := by
  unfold enqueue
  split
  · exact hBorrow
  · intro other hIn
    rcases List.mem_append.mp hIn with hOld | hNew
    · split at hOld
      · cases hOld
      · exact hBorrow other hOld
    · rw [List.mem_singleton.mp hNew]
      exact hReceived

/- Queueing a pointer, as an operation. -/
theorem enqueue_tracks
    (item : BorrowedItem)
    (hBorrow : m.Borrowing)
    (hRead : m.Readable item.payload) :
    m.Tracks (m.enqueue item)
      (m.view.enqueue (m.load item)) :=
  ⟨enqueue_view hRead.length,
    enqueue_borrowing hBorrow hRead.received,
    (enqueue_memory item).1, (enqueue_memory item).2.1⟩

end Machine

namespace Machine

variable {m : Machine} (env : Env)

theorem flowAcquire_view
    (hBorrow : m.Borrowing)
    (client backend : Sockaddr)
    (now : Int) :
    m.view.flowAcquire env client backend now =
      ((m.flowAcquire env client backend now).1,
        (m.flowAcquire env client backend now).2.view) := by
  have hOwn :=
    m.dp.flowAcquire_amid env m.dp client backend now
  have hOver :=
    m.dp.flowAcquire_amid env m.view client backend now
  have hView :
      (m.flowAcquire env client backend now).2.view =
        { (m.dp.flowAcquire env client backend now).2 with
          queue := m.view.queue } :=
    (withDp_tracks hBorrow _).view
  rw [m.dp.amid_self] at hOwn
  rw [hView, hOwn]
  exact hOver

/- Acquiring a flow, as an operation. -/
theorem flowAcquire_tracks
    (hBorrow : m.Borrowing)
    (client backend : Sockaddr)
    (now : Int) :
    m.Tracks (m.flowAcquire env client backend now).2
      (m.flowAcquire env client backend now).2.view :=
  ⟨rfl, hBorrow, rfl, rfl⟩

end Machine

end QuicSniRouter

------------------------------------------------------------
-- Routed Initials
------------------------------------------------------------

namespace QuicSniRouter

/- What the fresh path does once the backend is known. -/
def Dataplane.forwardRouted
    (env : Env)
    (dp : Dataplane)
    (routed : RoutedInitial)
    (packet : Bytes)
    (source : Sockaddr)
    (now : Int) : Dataplane :=
  let backend := routed.backend
  match dp.flowAcquire env source backend now with
  | (none, dp) => dp
  | (some slot, dp) =>
      match dp.sessions.putOwned env.hash
          (SessionKey.tupleKey source)
          (.addr backend.storage) backend.len now slot
          (dp.flowId slot) with
      | (.ok, sessions) =>
          let sessions :=
            Dataplane.installRoute env sessions packet
              routed.entry.cidKey backend now slot
              (dp.flowId slot)
          let dp := { dp with sessions }
          let dp :=
            dp.enqueueAll (dp.flowFd slot) backend source
              routed.entry.packets
          let dp := dp.flush
          { dp with
            pending := dp.pending.remove routed.cell }
      | (_, sessions) => { dp with sessions }

/- What a routed Initial was buffered as. -/
theorem routed_buffered
    {env : Env}
    {config : Config}
    {before pending : PendingTable}
    {packet : Bytes}
    {initial : Quic.Initial}
    {source : Sockaddr}
    {now : Int}
    {routed : RoutedInitial}
    (hRoute :
      routeInitialDatagram env config before packet initial
        source now = (pending, .ok routed)) :
    ∃ crypto,
      bufferInitial before packet initial source now crypto =
        (routed.cell, routed.entry, pending) := by
  unfold routeInitialDatagram at hRoute
  cases hCrypto : initialCrypto env.crypto packet initial with
  | error status =>
      rw [hCrypto] at hRoute
      cases congrArg Prod.snd hRoute
  | ok crypto =>
      rw [hCrypto] at hRoute
      dsimp only at hRoute
      rcases (Prod.mk.injEq _ _ _ _).mp hRoute with
        ⟨hTable, hOutcome⟩
      rcases except_bind_eq_ok hOutcome with
        ⟨backend, _, hDone⟩
      cases hDone
      rw [← hTable]
      exact ⟨crypto, rfl⟩

namespace Machine

variable {m : Machine} {env : Env} {cell : Nat}
variable {entry : PendingInitial} {routed : RoutedInitial}

/- What is queued from a pending entry is its packets. -/
theorem pendingPayloads_bytes
    (hEntry : m.dp.pending.entries cell = some entry) :
    (m.pendingPayloads cell).map m.bytes = entry.packets := by
  unfold pendingPayloads
  rw [hEntry]
  dsimp only
  rw [List.map_map]
  apply List.ext_getElem
  · simp
  · intro index hLeft hRight
    rw [List.getElem_map, List.getElem_zipIdx]
    simp only [Function.comp, bytes, pendingPacket, hEntry,
      Nat.zero_add]
    rw [List.getD_eq_getElem?_getD,
      List.getElem?_eq_getElem hRight, Option.getD_some,
      List.take_append_of_le_length (Nat.le_refl _),
      List.take_length]

/- Each of them is as long as its pointer says. -/
theorem pendingPayloads_length
    {payload : Payload}
    (hIn : payload ∈ m.pendingPayloads cell) :
    (m.bytes payload).length = payload.len := by
  unfold pendingPayloads at hIn
  split at hIn
  · rcases List.mem_map.mp hIn with ⟨packet, _, hEq⟩
    subst hEq
    unfold bytes
    dsimp only
    rw [List.length_take, List.length_append,
      List.length_replicate]
    omega
  · cases hIn

/- Queueing pointers is queueing their bytes. -/
theorem enqueueAll_view
    (fd : Int)
    (dest source : Sockaddr)
    (payloads : List Payload)
    (hLen :
      ∀ payload ∈ payloads,
        (m.bytes payload).length = payload.len) :
    (m.enqueueAll fd dest source payloads).view =
      m.view.enqueueAll fd dest source
        (payloads.map m.bytes) := by
  induction payloads generalizing m with
  | nil => rfl
  | cons payload payloads ih =>
      let item : BorrowedItem :=
        { payload, dest, fd, origin := some source }
      have hHead :
          (m.enqueue item).view =
            m.view.enqueue (m.load item) :=
        enqueue_view (hLen payload List.mem_cons_self)
      have hSame : (m.enqueue item).bytes = m.bytes :=
        enqueue_bytes item
      have hTail :=
        ih (m := m.enqueue item) (by
          intro other hIn
          rw [hSame]
          exact hLen other (List.mem_cons_of_mem _ hIn))
      rw [hHead, hSame] at hTail
      exact hTail

theorem enqueueAll_memory
    (fd : Int)
    (dest source : Sockaddr)
    (payloads : List Payload) :
    (m.enqueueAll fd dest source payloads).buffers =
        m.buffers ∧
      (m.enqueueAll fd dest source payloads).delivered =
        m.delivered := by
  induction payloads generalizing m with
  | nil => exact ⟨rfl, rfl⟩
  | cons payload payloads ih =>
      have hHead :=
        enqueue_memory (m := m)
          { payload, dest, fd, origin := some source }
      have hTail :=
        ih (m := m.enqueue
          { payload, dest, fd, origin := some source })
      exact ⟨hTail.1.trans hHead.1, hTail.2.trans hHead.2.1⟩

/-
  The packets of a pending entry are sent before anything
  can happen to the entry.
-/
theorem deliver_tracks
    (hEntry : m.dp.pending.entries cell = some entry)
    (fd : Int)
    (dest source : Sockaddr) :
    m.Tracks
      (m.enqueueAll fd dest source
        (m.pendingPayloads cell)).flush
      (m.view.enqueueAll fd dest source
        entry.packets).flush := by
  have hQueued :=
    enqueueAll_view fd dest source (m.pendingPayloads cell)
      (fun _ hIn => pendingPayloads_length hIn)
  have hMemory :=
    enqueueAll_memory (m := m) fd dest source
      (m.pendingPayloads cell)
  rw [pendingPayloads_bytes hEntry] at hQueued
  refine ⟨?_, flush_tracks.borrowing, hMemory.1, hMemory.2⟩
  rw [flush_view, hQueued]

theorem Tracks.remove
    {next : Machine}
    {dp : Dataplane}
    (hTracks : m.Tracks next dp)
    (cell : Nat) :
    m.Tracks (next.withPending (next.dp.pending.remove cell))
      { dp with pending := dp.pending.remove cell } := by
  have hView := hTracks.view
  subst hView
  exact hTracks.trans (withPending_tracks hTracks.borrowing _)

/- A routed Initial names the cell that buffers it. -/
theorem routed_cell
    {config : Config}
    {pending after : PendingTable}
    {packet : Bytes}
    {initial : Quic.Initial}
    {source : Sockaddr}
    {now : Int}
    (hRoute :
      routeInitialDatagram env config pending packet
        initial source now = (after, .ok routed)) :
    after.entries routed.cell = some routed.entry := by
  rcases routed_buffered hRoute with ⟨crypto, hBuffer⟩
  have hStored :
      let buffered :=
        bufferInitial pending packet initial source now crypto
      buffered.2.2.entries buffered.1 = some buffered.2.1 :=
    LinearProbing.fill_self _ _ _
  rw [hBuffer] at hStored
  exact hStored

/- A routed Initial is forwarded alike. -/
theorem forwardRouted_tracks
    (hBorrow : m.Borrowing)
    (hEntry :
      m.dp.pending.entries routed.cell = some routed.entry)
    (packet : Bytes)
    (source : Sockaddr)
    (now : Int) :
    m.Tracks (m.forwardRouted env routed packet source now)
      (m.view.forwardRouted env routed packet source
        now) := by
  unfold forwardRouted Dataplane.forwardRouted
  have hAcquire :=
    flowAcquire_tracks env hBorrow source routed.backend now
  have hPending :
      (m.flowAcquire env source routed.backend
        now).2.dp.pending = m.dp.pending :=
    (m.dp.flowAcquire_frame env _ _ _).pending
  dsimp only
  rw [flowAcquire_view env hBorrow]
  revert hAcquire hPending
  rcases m.flowAcquire env source routed.backend now with
    ⟨found, acquired⟩
  intro hAcquire hPending
  cases found with
  | none => exact hAcquire
  | some slot =>
      refine hAcquire.trans ?_
      rw [← hPending] at hEntry
      have hPut :
          acquired.view.sessions.putOwned env.hash
              (SessionKey.tupleKey source)
              (.addr routed.backend.storage)
              routed.backend.len now slot
              (acquired.view.flowId slot) =
            acquired.dp.sessions.putOwned env.hash
              (SessionKey.tupleKey source)
              (.addr routed.backend.storage)
              routed.backend.len now slot
              (acquired.dp.flowId slot) :=
        rfl
      dsimp only
      rw [hPut]
      rcases acquired.dp.sessions.putOwned env.hash
        (SessionKey.tupleKey source)
        (.addr routed.backend.storage) routed.backend.len
        now slot (acquired.dp.flowId slot) with
        ⟨status, sessions⟩
      cases status with
      | ok =>
          let installed :=
            acquired.withSessions
              (Dataplane.installRoute env sessions packet
                routed.entry.cidKey routed.backend now slot
                (acquired.dp.flowId slot))
          have hInstall :
              acquired.Tracks installed installed.view :=
            withSessions_tracks hAcquire.borrowing _
          have hSent :=
            deliver_tracks (m := installed) hEntry
              (acquired.dp.flowFd slot) routed.backend
              source
          refine hInstall.trans ?_
          exact hSent.remove routed.cell
      | _ =>
          exact withSessions_tracks hAcquire.borrowing
            sessions

end Machine

end QuicSniRouter

------------------------------------------------------------
-- Client Datagrams
------------------------------------------------------------

namespace QuicSniRouter

namespace Machine

variable {m : Machine} (env : Env) {payload : Payload}

/- The fast path is taken in both models or in none. -/
theorem fastPath_tracks
    (hBorrow : m.Borrowing)
    (hRead : m.Readable payload)
    (source : Sockaddr)
    (now : Int) :
    match m.fastPath env payload source now with
    | some next =>
        ∃ dp, m.view.fastPath env (m.bytes payload) source
            now = some dp ∧
          m.Tracks next dp
    | none =>
        m.view.fastPath env (m.bytes payload) source now =
          none := by
  unfold fastPath Dataplane.fastPath
  have hConfig :
      m.view.config.cidCodec.enabled =
        m.dp.config.cidCodec.enabled :=
    rfl
  have hGet :
      m.view.flows.get env.hash source =
        m.dp.flows.get env.hash source :=
    rfl
  rw [hRead.length, hConfig, hGet]
  by_cases hFast :
      (!m.dp.config.cidCodec.enabled &&
        decide (payload.len > 0) &&
        !Quic.hasLongBit (m.bytes payload)) = true
  · rw [if_pos hFast, if_pos hFast]
    cases m.dp.flows.get env.hash source with
    | none => rfl
    | some slot =>
        have hFlow :
            m.view.flows.flows slot = m.dp.flows.flows slot :=
          rfl
        dsimp only
        rw [hFlow]
        cases m.dp.flows.flows slot with
        | none => rfl
        | some flow =>
            have hSet :=
              withDp_tracks hBorrow
                (m.dp.setFlow slot
                  { flow with lastSeen := now })
            refine ⟨_, rfl, hSet.trans ?_⟩
            exact enqueue_tracks
              { payload
                dest := flow.backend
                fd := flow.fd
                origin := some source }
              hSet.borrowing (hSet.readable hRead)
  · rw [if_neg hFast, if_neg hFast]

/- A packet is sent over its session alike. -/
theorem sessionPath_tracks
    (hBorrow : m.Borrowing)
    (hRead : m.Readable payload)
    (session : Nat)
    (source : Sockaddr)
    (now : Int) :
    m.Tracks (m.sessionPath env session payload source now)
      (m.view.sessionPath env session (m.bytes payload)
        source now) := by
  unfold sessionPath Dataplane.sessionPath
  have hTouch :=
    withSessions_tracks hBorrow
      (m.dp.sessions.touch session now)
  have hSame :
      ({ m.view with
        sessions := m.view.sessions.touch session now } :
        Dataplane) =
        (m.withSessions
          (m.dp.sessions.touch session now)).view :=
    hTouch.view.symm
  have hBackend :
      (m.view.sessions.touch session now).backendAt session =
        (m.withSessions
          (m.dp.sessions.touch session
            now)).dp.sessions.backendAt session :=
    rfl
  dsimp only
  rw [hSame, hBackend, ← hTouch.bytes hRead]
  have hReadable := hTouch.readable hRead
  refine hTouch.trans ?_
  generalize
    m.withSessions (m.dp.sessions.touch session now) =
      touched at *
  have hAcquire :=
    flowAcquire_tracks env hTouch.borrowing source
      (touched.dp.sessions.backendAt session) now
  rw [flowAcquire_view env hTouch.borrowing]
  revert hAcquire
  rcases touched.flowAcquire env source
    (touched.dp.sessions.backendAt session) now with
    ⟨found, acquired⟩
  intro hAcquire
  cases found with
  | none => exact hAcquire
  | some slot =>
      dsimp only at hAcquire ⊢
      have hLearn :=
        withSessions_tracks hAcquire.borrowing
          (learnClientLongHeaderCids env.hash
            acquired.dp.sessions (acquired.bytes payload)
            (.slot session)
            (touched.dp.sessions.backendAt session).len
            now slot (acquired.dp.flowId slot))
      rw [← hAcquire.bytes hReadable]
      refine hAcquire.trans (hLearn.trans ?_)
      have hRest := hAcquire.readable hReadable
      rw [← hLearn.bytes hRest]
      exact enqueue_tracks _ hLearn.borrowing
        (hLearn.readable hRest)

/- An Initial is handled alike. -/
theorem freshPath_tracks
    (hBorrow : m.Borrowing)
    (hRead : m.Readable payload)
    (source : Sockaddr)
    (now : Int) :
    m.Tracks (m.freshPath env payload source now)
      (m.view.freshPath env (m.bytes payload) source
        now) := by
  unfold freshPath Dataplane.freshPath
  rw [hRead.length]
  dsimp only
  by_cases hSmall : payload.len < minInitialDatagramSize
  · rw [if_pos hSmall, if_pos hSmall]
    exact Tracks.refl hBorrow
  · rw [if_neg hSmall, if_neg hSmall]
    cases Quic.parseInitial (m.bytes payload) with
    | error status => exact Tracks.refl hBorrow
    | ok initial =>
        have hTables :
            routeInitialDatagram env m.view.config
                m.view.pending (m.bytes payload) initial
                source now =
              routeInitialDatagram env m.dp.config
                m.dp.pending (m.bytes payload) initial
                source now :=
          rfl
        dsimp only
        rw [hTables]
        cases hRoute :
            routeInitialDatagram env m.dp.config
              m.dp.pending (m.bytes payload) initial source
              now with
        | mk pending result =>
            have hBuffer := withPending_tracks hBorrow pending
            cases result with
            | error status => exact hBuffer
            | ok routed =>
                dsimp only
                rw [← hBuffer.view]
                exact hBuffer.trans
                  (forwardRouted_tracks hBuffer.borrowing
                    (routed_cell hRoute) _ source now)

/- A datagram of a client is handled alike. -/
theorem handleClientPacket_tracks
    (hBorrow : m.Borrowing)
    (hRead : m.Readable payload)
    (source : Sockaddr)
    (now : Int) :
    m.Tracks (m.handleClientPacket env payload source now)
      (m.view.handleClientPacket env (m.bytes payload)
        source now) := by
  have hFast := fastPath_tracks env hBorrow hRead source now
  unfold handleClientPacket Dataplane.handleClientPacket
  cases hPath : m.fastPath env payload source now with
  | some next =>
      rw [hPath] at hFast
      rcases hFast with ⟨dp, hSome, hTracks⟩
      rw [hSome]
      exact hTracks
  | none =>
      rw [hPath] at hFast
      dsimp only at hFast
      rw [hFast]
      have hSelect :
          selectSession env m.view.config m.view.sessions
              (m.bytes payload) source now =
            selectSession env m.dp.config m.dp.sessions
              (m.bytes payload) source now :=
        rfl
      dsimp only
      rw [hSelect]
      rcases selectSession env m.dp.config m.dp.sessions
        (m.bytes payload) source now with
        ⟨found, sessions⟩
      have hLooked := withSessions_tracks hBorrow sessions
      cases found with
      | some session =>
          dsimp only
          rw [← hLooked.view, ← hLooked.bytes hRead]
          exact hLooked.trans
            (sessionPath_tracks env hLooked.borrowing
              (hLooked.readable hRead) session source now)
      | none =>
          dsimp only
          rw [← hLooked.view, ← hLooked.bytes hRead]
          exact hLooked.trans
            (freshPath_tracks env hLooked.borrowing
              (hLooked.readable hRead) source now)

end Machine

namespace Machine

variable {m : Machine} (env : Env) {payload : Payload}
variable {slot : Nat} {flow : Flow}

/- A datagram of a backend is handled alike. -/
theorem handleBackendPacket_tracks
    (hLive : m.dp.flows.slot slot = some flow)
    (hBorrow : m.Borrowing)
    (hRead : m.Readable payload)
    (now : Int) :
    m.Tracks (m.handleBackendPacket env slot payload now)
      (m.view.handleBackendPacket env slot
        (m.bytes payload) now) := by
  have hFlow := (FlowTable.slot_eq_some hLive).2
  have hSlot : m.view.flows.slot slot = some flow := hLive
  unfold handleBackendPacket Dataplane.handleBackendPacket
  rw [hSlot, hFlow]
  let stamped : Machine :=
    m.withDp (m.dp.setFlow slot { flow with lastSeen := now })
  have hStamp : m.Tracks stamped stamped.view :=
    ⟨rfl, hBorrow, rfl, rfl⟩
  let learned : Machine :=
    stamped.withSessions
      (learnBackendScid env.hash m.dp.sessions
        (stamped.bytes payload)
        (.addr flow.backend.storage) flow.backend.len now
        slot flow.id)
  have hLearn : stamped.Tracks learned learned.view :=
    withSessions_tracks hStamp.borrowing _
  have hBoth := hStamp.trans hLearn
  exact hBoth.trans
    (enqueue_tracks
      { payload
        dest := flow.client
        fd := m.dp.mainFd
        origin := none }
      hBoth.borrowing (hBoth.readable hRead))

/- The flow of a drained socket is not given away. -/
theorem handleBackendPacket_live
    (hLive : m.dp.flows.slot slot = some flow)
    (now : Int) :
    (m.handleBackendPacket env slot payload
      now).dp.flows.slot slot =
        some { flow with lastSeen := now } := by
  rcases FlowTable.slot_eq_some hLive with ⟨hLt, hFlow⟩
  have hFlows :
      (m.handleBackendPacket env slot payload
        now).dp.flows =
          (m.dp.setFlow slot
            { flow with lastSeen := now }).flows := by
    unfold handleBackendPacket
    rw [hFlow, (enqueue_memory _).2.2]
    rfl
  rw [hFlows]
  unfold FlowTable.slot Dataplane.setFlow
  dsimp only
  rw [if_neg (Nat.not_le.mpr hLt)]
  exact LinearProbing.fill_self _ _ _

theorem runExpirySweeps_tracks
    (hBorrow : m.Borrowing)
    (now : Int) :
    m.Tracks (m.runExpirySweeps env now)
      (m.view.runExpirySweeps env now) :=
  withDp_tracks hBorrow _

theorem reloadFromPath_tracks
    (hBorrow : m.Borrowing)
    (file : ConfigFile)
    (resolver : Resolver) :
    m.Tracks (m.reloadFromPath env file resolver)
      (m.view.reloadFromPath env file resolver) := by
  have hTracks :=
    withDp_tracks hBorrow
      (m.dp.reloadFromPath env file resolver)
  unfold Dataplane.reloadFromPath at hTracks ⊢
  unfold reloadFromPath Dataplane.reloadFromPath
  cases hLoad :
      Dataplane.loadResolved env.hash file resolver with
  | error status =>
      rw [hLoad] at hTracks
      exact hTracks
  | ok config =>
      rw [hLoad] at hTracks
      exact hTracks

end Machine

end QuicSniRouter

------------------------------------------------------------
-- One Round
------------------------------------------------------------

namespace QuicSniRouter

/- What an event of the dataplane has received. -/
def Event.delivery :
    Event → Option Delivery
| .client datagram source _ =>
    some (.client source datagram.packet)
| .backend slot datagram _ =>
    some (.backend slot datagram.packet)
| _ => none

namespace Machine

variable {m next last : Machine} {env : Env}
variable {flow : Option Nat} {slot : Nat} {rest : Bytes}
variable {message : RecvMessage}

/- A drained flow is in its slot. -/
def Live
    (m : Machine)
    (flow : Option Nat) : Prop :=
  ∀ slot, flow = some slot →
    ∃ live, m.dp.flows.slot slot = some live

/-
  The dataplane explains what has been done with datagrams
  that are in the buffers.
-/
structure Handles
    (env : Env)
    (flow : Option Nat)
    (m next : Machine)
    (deliveries : List Delivery) : Prop where
  events : ∃ events : List Event,
    next.view = m.view.run env events ∧
      events.filterMap Event.delivery = deliveries
  borrowing : next.Borrowing
  buffers : next.buffers = m.buffers
  delivered : next.delivered = m.delivered
  live : next.Live flow

theorem Handles.refl
    (hBorrow : m.Borrowing)
    (hLive : m.Live flow) :
    Handles env flow m m [] :=
  ⟨⟨[], rfl, rfl⟩, hBorrow, rfl, rfl, hLive⟩

theorem Handles.trans
    {first second : List Delivery}
    (hFirst : Handles env flow m next first)
    (hSecond : Handles env flow next last second) :
    Handles env flow m last (first ++ second) := by
  rcases hFirst.events with ⟨before, hBefore, hGot⟩
  rcases hSecond.events with ⟨after, hAfter, hMore⟩
  refine ⟨⟨before ++ after, ?_, ?_⟩, hSecond.borrowing,
    hSecond.buffers.trans hFirst.buffers,
    hSecond.delivered.trans hFirst.delivered,
    hSecond.live⟩
  · rw [hAfter, hBefore]
    exact List.foldl_append.symm
  · rw [List.filterMap_append, hGot, hMore]

variable (env)

/- One datagram, in either direction. -/
theorem handlePacket_handles
    {payload : Payload}
    (hBorrow : m.Borrowing)
    (hLive : m.Live flow)
    (hRead : m.Readable payload)
    (hSome : 1 ≤ payload.len)
    (hFits : payload.len ≤ maxDatagramSize)
    (answers : Answers)
    (source : Sockaddr)
    (now : Int) :
    Handles env flow m
      ((m.withAnswers answers).handlePacket env flow payload
        source now)
      [Delivery.of flow source (m.bytes payload)] := by
  let datagram : Datagram :=
    { packet := m.bytes payload
      now
      nonempty := by rw [hRead.length]; exact hSome
      bounded := by rw [hRead.length]; exact hFits }
  have hAnswer := withAnswers_tracks hBorrow answers
  cases flow with
  | none =>
      have hTracks :=
        hAnswer.trans
          (handleClientPacket_tracks env
            hAnswer.borrowing (hAnswer.readable hRead)
            source now)
      refine ⟨⟨[.client datagram source answers], ?_, rfl⟩,
        hTracks.borrowing, hTracks.buffers,
        hTracks.delivered, ?_⟩
      · exact hTracks.view
      · intro slot hSlot
        cases hSlot
  | some slot =>
      rcases hLive slot rfl with ⟨live, hSlot⟩
      have hTracks :=
        hAnswer.trans
          (handleBackendPacket_tracks env
            (m := m.withAnswers answers) hSlot
            hAnswer.borrowing (hAnswer.readable hRead) now)
      refine ⟨⟨[.backend slot datagram answers], ?_, rfl⟩,
        hTracks.borrowing, hTracks.buffers,
        hTracks.delivered, ?_⟩
      · exact hTracks.view
      · intro other hOther
        cases hOther
        exact ⟨_, handleBackendPacket_live env
          (m := m.withAnswers answers) hSlot now⟩

/- The bytes of a segment, wherever its message has gone. -/
theorem bytes_segment
    {payload : Bytes}
    {segment : Nat × Nat}
    (hBuffer : m.buffers slot = payload ++ rest)
    (hInside : segment.1 + segment.2 ≤ payload.length) :
    m.bytes
        { pointer := .received slot segment.1
          len := segment.2 } =
      (payload.drop segment.1).take segment.2 := by
  unfold bytes
  dsimp only
  rw [hBuffer, List.drop_append_of_le_length (by omega),
    List.take_append_of_le_length (by
      rw [List.length_drop]
      omega)]

/- The segments of one message, one after the other. -/
theorem handleSegments_handles
    (hBorrow : m.Borrowing)
    (hLive : m.Live flow)
    (hBuffer : m.buffers slot = message.payload ++ rest)
    (now : Int)
    (answers : Nat → Answers)
    (segments : List ((Nat × Nat) × Nat))
    (hFrom :
      ∀ segment ∈ segments, segment.1 ∈ message.segments) :
    Handles env flow m
      (segments.foldl
        (fun m segment =>
          (m.withAnswers (answers segment.2)).handlePacket
            env flow
            { pointer := .received slot segment.1.1
              len := segment.1.2 }
            message.source now)
        m)
      ((segments.map Prod.fst).map
        (fun segment =>
          Delivery.of flow message.source
            ((message.payload.drop segment.1).take
              segment.2))) := by
  induction segments generalizing m with
  | nil => exact Handles.refl hBorrow hLive
  | cons segment segments ih =>
      have hIn := hFrom segment List.mem_cons_self
      have hBytes :=
        bytes_segment hBuffer (RecvMessage.segments_inside hIn)
      have hInside := RecvMessage.segments_inside hIn
      have hLength :
          ((message.payload.drop segment.1.1).take
            segment.1.2).length = segment.1.2 := by
        rw [List.length_take, List.length_drop]
        omega
      have hBounds :=
        RecvMessage.datagrams_bounded
          (List.mem_map_of_mem hIn)
      have hRead :
          m.Readable
            { pointer := .received slot segment.1.1
              len := segment.1.2 } :=
        ⟨⟨slot, segment.1.1, rfl⟩, by
          rw [hBytes]
          exact hLength⟩
      rw [hLength] at hBounds
      have hHead :=
        handlePacket_handles env hBorrow hLive
          hRead hBounds.1 hBounds.2 (answers segment.2)
          message.source now
      rw [hBytes] at hHead
      exact hHead.trans
        (ih hHead.borrowing hHead.live
          (hHead.buffers ▸ hBuffer)
          (fun other hOther =>
            hFrom other (List.mem_cons_of_mem _ hOther)))

/- One message, with all its datagrams. -/
theorem handleMessage_handles
    (hBorrow : m.Borrowing)
    (hLive : m.Live flow)
    (hBuffer : m.buffers slot = message.payload ++ rest)
    (now : Int)
    (answers : Nat → Answers) :
    Handles env flow m
      (m.handleMessage env flow now slot message answers)
      (message.datagrams.map
        (Delivery.of flow message.source)) := by
  have hHandles :=
    handleSegments_handles env hBorrow hLive
      hBuffer now answers message.segments.zipIdx
      (fun segment hIn =>
        List.fst_mem_of_mem_zipIdx hIn)
  rw [List.zipIdx_map_fst] at hHandles
  unfold RecvMessage.datagrams
  rw [List.map_map]
  exact hHandles

/- All messages of a batch, each in its own buffer. -/
theorem handleMessages_handles
    (hBorrow : m.Borrowing)
    (hLive : m.Live flow)
    (now : Int)
    (answers : Nat → Nat → Answers)
    (messages : List (RecvMessage × Nat))
    (hBuffers :
      ∀ message ∈ messages, ∃ rest,
        m.buffers message.2 = message.1.payload ++ rest) :
    Handles env flow m
      (messages.foldl
        (fun m message =>
          m.handleMessage env flow now message.2 message.1
            (answers message.2))
        m)
      (deliveries flow (messages.map Prod.fst)) := by
  induction messages generalizing m with
  | nil => exact Handles.refl hBorrow hLive
  | cons message messages ih =>
      rcases hBuffers message List.mem_cons_self with
        ⟨rest, hBuffer⟩
      have hHead :=
        handleMessage_handles env hBorrow hLive
          hBuffer now (answers message.2)
      exact hHead.trans
        (ih hHead.borrowing hHead.live
          (fun other hIn => by
            rw [hHead.buffers]
            exact hBuffers other
              (List.mem_cons_of_mem _ hIn)))

/- A batch is handled as the kernel has delivered it. -/
theorem handleBatch_handles
    (hBorrow : m.Borrowing)
    (hLive : m.Live flow)
    (messages : List RecvMessage)
    (now : Int)
    (answers : Nat → Nat → Answers) :
    Handles env flow (m.receive flow messages)
      ((m.receive flow messages).handleBatch env flow
        messages now answers)
      (deliveries flow messages) := by
  have hHandles :=
    handleMessages_handles env
      (m := m.receive flow messages) hBorrow hLive now
      answers messages.zipIdx (by
        intro message hIn
        have hAt := List.mem_zipIdx_iff_getElem?.mp hIn
        refine ⟨(m.buffers message.2).drop message.1.len, ?_⟩
        unfold receive
        dsimp only
        rw [hAt])
  rw [List.zipIdx_map_fst] at hHandles
  exact hHandles

end Machine

end QuicSniRouter

------------------------------------------------------------
-- The Main Loop
------------------------------------------------------------

namespace QuicSniRouter

namespace Machine

variable {m next last : Machine} {env : Env}
variable {flow : Option Nat}

/-
  What happens between two points where nothing is queued,
  as events of the dataplane.
-/
structure Explained
    (env : Env)
    (m next : Machine) : Prop where
  empty : next.items = []
  events : ∃ events : List Event,
    next.view = m.view.run env events ∧
      next.delivered =
        m.delivered ++ events.filterMap Event.delivery

theorem Explained.refl
    (hEmpty : m.items = []) :
    Explained env m m :=
  ⟨hEmpty, [], rfl, (List.append_nil _).symm⟩

theorem Explained.trans
    (hFirst : Explained env m next)
    (hSecond : Explained env next last) :
    Explained env m last := by
  rcases hFirst.events with ⟨before, hBefore, hGot⟩
  rcases hSecond.events with ⟨after, hAfter, hMore⟩
  refine ⟨hSecond.empty, before ++ after, ?_, ?_⟩
  · rw [hAfter, hBefore]
    exact List.foldl_append.symm
  · rw [hMore, hGot, List.filterMap_append, List.append_assoc]

/- One event that receives nothing. -/
theorem Tracks.explained
    (event : Event)
    (hTracks : m.Tracks next (m.view.step env event))
    (hSilent : event.delivery = none)
    (hEmpty : next.items = []) :
    Explained env m next := by
  refine ⟨hEmpty, [event], hTracks.view, ?_⟩
  rw [hTracks.delivered, List.filterMap_cons_none hSilent,
    List.filterMap_nil, List.append_nil]

theorem borrowing_of_empty
    (hEmpty : m.items = []) :
    m.Borrowing := by
  intro item hIn
  rw [hEmpty] at hIn
  cases hIn

variable (env)

/- A flush is an event. -/
theorem flush_explained
    (answers : Answers)
    (hBorrow : m.Borrowing) :
    Explained env m (m.withAnswers answers).flush :=
  Tracks.explained (.flush answers)
    ((withAnswers_tracks hBorrow answers).trans flush_tracks)
    rfl rfl

/- Nothing is queued when the kernel fills the buffers. -/
theorem receive_view
    (flow : Option Nat)
    (messages : List RecvMessage)
    (hEmpty : m.items = []) :
    (m.receive flow messages).view = m.view := by
  unfold view receive
  dsimp only
  rw [hEmpty]
  rfl

/- A filled batch, from its arrival to the flush. -/
theorem round_explained
    (hEmpty : m.items = [])
    (hLive : m.Live flow)
    (messages : List RecvMessage)
    (now : Int)
    (answers : Nat → Nat → Answers)
    (flushed : Answers) :
    let next :=
      (((m.receive flow messages).handleBatch env flow
        messages now answers).withAnswers flushed).flush
    Explained env m next ∧ next.Live flow := by
  have hBatch :=
    handleBatch_handles env (borrowing_of_empty hEmpty)
      hLive messages now answers
  rcases hBatch.events with ⟨events, hView, hGot⟩
  have hFlush := flush_explained env flushed hBatch.borrowing
  rw [receive_view flow messages hEmpty] at hView
  rcases hFlush.events with ⟨after, hAfter, hMore⟩
  refine ⟨⟨rfl, events ++ after, ?_, ?_⟩, hBatch.live⟩
  · rw [hAfter, hView]
    exact List.foldl_append.symm
  · rw [hMore, hBatch.delivered, List.filterMap_append, hGot,
      ← List.append_assoc]
    rfl

/- The rounds of a socket are events. -/
theorem drainRounds_explained
    (rounds : Nat)
    (results : List RecvResult)
    (hEmpty : m.items = [])
    (hLive : m.Live flow) :
    Explained env m
      (drainRounds env flow rounds results m) := by
  induction rounds generalizing results m with
  | zero => exact Explained.refl hEmpty
  | succ rounds ih =>
      cases results with
      | nil => exact Explained.refl hEmpty
      | cons result results =>
          cases result with
          | interrupted => exact ih results hEmpty hLive
          | failed => exact Explained.refl hEmpty
          | received messages now answers flushed =>
              rcases round_explained env hEmpty
                hLive messages now answers flushed with
                ⟨hRound, hStill⟩
              unfold drainRounds
              dsimp only at hRound hStill ⊢
              split
              · exact hRound
              · exact hRound.trans
                  (ih results hRound.empty hStill)

/- One event of the kernel. -/
theorem dispatch_explained
    (tag : Nat)
    (results : List RecvResult)
    (hEmpty : m.items = []) :
    Explained env m (m.dispatch env tag results) := by
  unfold dispatch
  split
  · refine drainRounds_explained env _ results hEmpty ?_
    intro slot hSlot
    cases hSlot
  · split
    · exact Explained.refl hEmpty
    · split
      · rename_i flow hFlow
        refine drainRounds_explained env _ results hEmpty ?_
        intro slot hSlot
        cases hSlot
        exact ⟨flow, hFlow⟩
      · exact Explained.refl hEmpty

/- All events of a wakeup. -/
theorem dispatchAll_explained
    (events : List (Nat × List RecvResult))
    (hEmpty : m.items = []) :
    Explained env m
      (events.foldl
        (fun m event => m.dispatch env event.1 event.2)
        m) := by
  induction events generalizing m with
  | nil => exact Explained.refl hEmpty
  | cons event events ih =>
      have hHead :=
        dispatch_explained env event.1 event.2 hEmpty
      exact hHead.trans (ih hHead.empty)

end Machine

namespace MainLoop

open Machine

variable (env : Env) {l : MainLoop} {dp : Dataplane}

theorem runtimePoll_explained
    (poll : Poll)
    (hEmpty : l.machine.items = []) :
    Explained env l.machine
      (l.runtimePoll env poll).machine := by
  unfold runtimePoll
  split
  · exact Tracks.explained (.reload poll.file poll.resolver)
      (reloadFromPath_tracks env
        (borrowing_of_empty hEmpty) poll.file
        poll.resolver)
      rfl hEmpty
  · exact Explained.refl hEmpty

theorem wakeup_explained
    (events : List (Nat × List RecvResult))
    (flushed : Answers)
    (now : Int)
    (hEmpty : l.machine.items = []) :
    Explained env l.machine
      (l.wakeup env events flushed now).machine := by
  have hEvents := dispatchAll_explained env events hEmpty
  have hFlush :=
    hEvents.trans
      (flush_explained env flushed
        (borrowing_of_empty hEvents.empty))
  unfold wakeup
  dsimp only
  split
  · refine hFlush.trans ?_
    exact Tracks.explained (.sweep now)
      (runExpirySweeps_tracks env
        (borrowing_of_empty hFlush.empty) now)
      rfl hFlush.empty
  · exact hFlush

/- A turn is a run of events. -/
theorem turn_explained
    (t : Turn)
    (hEmpty : l.machine.items = []) :
    Explained env l.machine (l.turn env t).2.machine := by
  have hPoll := runtimePoll_explained env t.poll hEmpty
  unfold turn
  dsimp only
  cases t.wait with
  | interrupted => exact hPoll
  | failed => exact hPoll
  | ready events flushed now =>
      exact hPoll.trans
        (wakeup_explained env events flushed now hPoll.empty)

/- Every run of the loop is a run of the dataplane. -/
theorem run_explained
    (turns : List Turn)
    (hEmpty : l.machine.items = []) :
    Explained env l.machine (l.run env turns).machine := by
  induction turns generalizing l with
  | nil => exact Explained.refl hEmpty
  | cons t turns ih =>
      have hTurn := turn_explained env t hEmpty
      unfold run
      revert hTurn
      rcases l.turn env t with ⟨more, next⟩
      intro hTurn
      cases more with
      | true => exact hTurn.trans (ih hTurn.empty)
      | false => exact hTurn

/- The first state of the loop is that of the dataplane. -/
theorem start_view
    (hQueue : dp.queue = [])
    (buffers : Nat → Bytes)
    (watching : Bool)
    (now : Int) :
    (start dp buffers watching now).machine.view = dp := by
  unfold start Machine.view
  dsimp only
  rw [List.map_nil, ← hQueue]

/- A run from the start, as events of the dataplane. -/
theorem started_run
    {env : Env}
    (hStarts : dp.Starts env)
    (buffers : Nat → Bytes)
    (watching : Bool)
    (now : Int)
    (turns : List Turn) :
    let m :=
      ((start dp buffers watching now).run env turns).machine
    m.items = [] ∧
      ∃ events : List Event,
        m.view = dp.run env events ∧
          m.delivered = events.filterMap Event.delivery := by
  have hRun :=
    run_explained env turns
      (l := start dp buffers watching now) rfl
  rcases hRun.events with ⟨events, hView, hGot⟩
  rw [start_view hStarts.started.queue] at hView
  exact ⟨hRun.empty, events, hView, hGot⟩

/- Datagrams leave in the order in which they are queued. -/
theorem sent_inOrder
    {env : Env}
    {m : Machine}
    {events : List Event}
    (hStarts : dp.Starts env)
    (hView : m.view = dp.run env events) :
    (m.dp.wire.map Transmission.item).Sublist
      m.dp.enqueued := by
  have hOrder : m.view.InOrder := by
    rw [hView]
    exact (Dataplane.reachable_run events
      (Dataplane.ReachableWhere.start hStarts)).inOrder
  exact (List.sublist_append_left _ _).trans hOrder

/-
  The loop over pointers and descriptors does what the
  dataplane does with copies, event by event.  Each datagram
  that the kernel delivered is handled once, in order, and
  what was sent left in the order in which it was queued.
-/
theorem loop_refines_events
    {env : Env}
    {dp : Dataplane}
    (hStarts : dp.Starts env)
    (buffers : Nat → Bytes)
    (watching : Bool)
    (now : Int)
    (turns : List Turn) :
    let m :=
      ((start dp buffers watching now).run env turns).machine
    m.items = [] ∧
      (m.dp.wire.map Transmission.item).Sublist
        m.dp.enqueued ∧
      ∃ events : List Event,
        m.view = dp.run env events ∧
          m.delivered = events.filterMap Event.delivery := by
  intro m
  rcases started_run hStarts buffers watching now turns
    with ⟨hEmpty, events, hView, hGot⟩
  exact ⟨hEmpty, sent_inOrder hStarts hView, events, hView,
    hGot⟩

end MainLoop

namespace Deployment

/- Two packets of a client that the kernel has joined. -/
def coalesced : RecvMessage where
  payload := zeroRtt 1 ++ zeroRtt 1
  truncated := false
  controls :=
    [{ level := solUdp, type := udpGro, data := [24, 0] }]
  source := client 1

/- A turn with one datagram on the main socket. -/
def arrival : Turn where
  poll :=
    { reads := []
      file := .unreadable
      resolver }
  wait :=
    .ready
      [(epollDataMain,
        [.received [coalesced] 0 (fun _ _ => opens 7)
          (opens 7)])]
      (opens 7) 0

/- A loop over one slot. -/
def oneSlotLoop : MainLoop :=
  MainLoop.start oneSlot (fun _ => []) false 0

/- Two coalesced packets are two deliveries. -/
theorem arrival_refined :
    Dataplane.Starts env oneSlot ∧
      ∃ events : List Event,
        (oneSlotLoop.run env [arrival]).machine.view =
            oneSlot.run env events ∧
          events.filterMap Event.delivery =
            [.client (client 1) (zeroRtt 1),
              .client (client 1) (zeroRtt 1)] := by
  have hStarts : Dataplane.Starts env oneSlot :=
    starts_okValue _ _
  rcases MainLoop.loop_refines_events hStarts (fun _ => [])
      false 0 [arrival] with
    ⟨_, _, events, hView, hGot⟩
  refine ⟨hStarts, events, hView, hGot.symm.trans ?_⟩
  decide +kernel

end Deployment

end QuicSniRouter
