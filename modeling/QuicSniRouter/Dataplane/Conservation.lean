import QuicSniRouter.Dataplane.Buffers
import QuicSniRouter.Dataplane.ZeroCopy
import QuicSniRouter.LinearProbing.Tally

/-
  Where the datagrams on the wire come from.  A datagram that
  goes to a backend is paid for by one that its client sent,
  and one that goes to a client by one that a backend sent:
  nothing is made up, altered or sent twice.

  Main declarations:
    * `Weight` and `Weight.held`
    * `Weight.run_held`
    * `replies` and `Dataplane.run_replies`
    * `MainLoop.wire_accounted`
-/

------------------------------------------------------------
-- Weights
------------------------------------------------------------

namespace QuicSniRouter

/-
  A weight for each datagram of a client.  It does not tell
  two spellings of one address apart.
-/
structure Weight where
  of : Sockaddr → Bytes → Nat
  congr :
    ∀ {a b : Sockaddr} (packet : Bytes),
      a.equals b = true → of a packet = of b packet

namespace Weight

variable {i : Nat}

/- What an item weighs; items of backends nothing. -/
def item
    (w : Weight)
    (item : SendItem) : Nat :=
  match item.origin with
  | some source => w.of source item.packet
  | none => 0

/- What a delivery weighs. -/
def delivery
    (w : Weight) :
    Delivery → Nat
| .client source packet => w.of source packet
| .backend _ _ => 0

/- What an entry holds back, by weight. -/
def entry
    (w : Weight)
    (entry : PendingInitial) : Nat :=
  (entry.packets.map (w.of entry.source)).sum

/- What the whole pending table holds back. -/
def pending
    (w : Weight)
    (table : PendingTable) : Nat :=
  LinearProbing.total pendingInitialCapacity table.entries
    w.entry

/- What has been queued, by weight. -/
def sent
    (w : Weight)
    (items : List SendItem) : Nat :=
  (items.map w.item).sum

/- What has come in, by weight. -/
def received
    (w : Weight)
    (deliveries : List Delivery) : Nat :=
  (deliveries.map w.delivery).sum

/- What was ever queued upstream, and what is buffered. -/
def held
    (w : Weight)
    (dp : Dataplane) : Nat :=
  w.sent dp.enqueued + w.pending dp.pending

variable (w : Weight)

theorem sent_append
    (items others : List SendItem) :
    w.sent (items ++ others) =
      w.sent items + w.sent others := by
  simp [sent]

theorem sent_sublist
    {items others : List SendItem}
    (hSub : items.Sublist others) :
    w.sent items ≤ w.sent others :=
  (hSub.map w.item).sum_le_sum (fun _ _ => Nat.zero_le _)

theorem sent_filter
    (keep : SendItem → Bool)
    (items : List SendItem) :
    w.sent (items.filter keep) ≤ w.sent items :=
  w.sent_sublist List.filter_sublist

open LinearProbing

theorem entry_append
    (entry : PendingInitial)
    (packet : Bytes) :
    w.entry (entry.appendPacket packet) ≤
      w.entry entry + w.of entry.source packet := by
  unfold PendingInitial.appendPacket
  split
  · exact Nat.le_add_right _ _
  · split
    · exact Nat.le_add_right _ _
    · split
      · exact Nat.le_add_right _ _
      · simp [Weight.entry]

/- A connection's packets weigh what its client's do. -/
theorem entry_eq
    {entry : PendingInitial}
    {source : Sockaddr}
    (hSource : entry.source.equals source = true) :
    w.entry entry =
      (entry.packets.map (w.of source)).sum := by
  have hOf : w.of entry.source = w.of source := by
    funext packet
    exact w.congr packet hSource
  unfold Weight.entry
  rw [hOf]

theorem store_weight
    (table : PendingTable)
    (entry : PendingInitial)
    (hInside : i < pendingInitialCapacity) :
    w.pending (table.store i entry) +
        (table.entries i).elim 0 w.entry =
      w.pending table + w.entry entry :=
  total_fill table.entries w.entry entry hInside

/- The entry got weighs no more than what it replaces. -/
theorem getEntry_weight
    (table : PendingTable)
    (source : Sockaddr)
    (initial : Quic.Initial)
    (now : Int) :
    let found := table.getEntry source initial now
    found.2.1.source.equals source = true ∧
      w.entry found.2.1 ≤
        (table.entries found.1).elim 0 w.entry := by
  have hGot := table.getEntry_cases source initial now
  intro found
  change PendingTable.Got table source initial now found
    at hGot
  generalize found = found at hGot ⊢
  cases hGot with
  | old i entry hCell hEntry =>
      have hMatch :=
        (PendingTable.findCell_eq_some.mp hCell).1
      rw [hEntry] at hMatch
      refine ⟨(PendingInitial.matchesInitial_iff.mp
        hMatch).1, ?_⟩
      dsimp only
      rw [hEntry]
      exact Nat.le_refl _
  | new i nextEvict hCell hFree =>
      exact ⟨Sockaddr.equals_refl source, Nat.zero_le _⟩

/- Buffering adds at most the packet. -/
theorem bufferInitial_weight
    (pending : PendingTable)
    (packet : Bytes)
    (initial : Quic.Initial)
    (source : Sockaddr)
    (now : Int)
    (crypto : Quic.CryptoStream) :
    w.pending
        (bufferInitial pending packet initial source now
          crypto).2.2 ≤
      w.pending pending + w.of source packet := by
  let found := pending.getEntry source initial now
  let buffered :=
    bufferInitial pending packet initial source now crypto
  rcases w.getEntry_weight pending source initial now with
    ⟨hSource, hFound⟩
  have hEntry :
      w.entry buffered.2.1 ≤
        w.entry found.2.1 + w.of source packet := by
    rw [← w.congr packet hSource]
    exact w.entry_append found.2.1 packet
  have hStore :
      w.pending buffered.2.2 +
          (found.2.2.entries found.1).elim 0 w.entry =
        w.pending found.2.2 + w.entry buffered.2.1 :=
    w.store_weight found.2.2 buffered.2.1
      (pending.getEntry_inside source initial now)
  have hSame : found.2.2.entries = pending.entries :=
    pending.getEntry_entries source initial now
  have hPending :
      w.pending found.2.2 = w.pending pending := by
    unfold Weight.pending
    rw [hSame]
  rw [hSame, hPending] at hStore
  change w.entry found.2.1 ≤
    (pending.entries found.1).elim 0 w.entry at hFound
  change w.pending buffered.2.2 ≤ _
  omega

/- What a routed connection leaves weighs its packets less. -/
theorem bufferInitial_removed
    (pending : PendingTable)
    (packet : Bytes)
    (initial : Quic.Initial)
    (source : Sockaddr)
    (now : Int)
    (crypto : Quic.CryptoStream) :
    let buffered :=
      bufferInitial pending packet initial source now crypto
    w.pending (buffered.2.2.remove buffered.1) +
        w.entry buffered.2.1 =
      w.pending buffered.2.2 := by
  intro buffered
  have hInside : buffered.1 < pendingInitialCapacity :=
    pending.getEntry_inside source initial now
  have hStored :
      buffered.2.2.entries buffered.1 = some buffered.2.1 :=
    fill_self _ _ _
  unfold Weight.pending PendingTable.remove
  rw [if_pos hInside]
  exact total_vacate w.entry hInside hStored

theorem buffered_weight
    {env : Env}
    {dp : Dataplane}
    {packet : Bytes}
    {source : Sockaddr}
    {now : Int}
    {pending : PendingTable}
    (hPending : dp.Buffered env packet source now pending) :
    w.pending pending ≤
      w.pending dp.pending + w.of source packet := by
  rcases hPending with ⟨initial, hEq⟩
  unfold routeInitialDatagram at hEq
  cases hCrypto : initialCrypto env.crypto packet initial with
  | error status =>
      rw [hCrypto] at hEq
      rw [hEq]
      exact Nat.le_add_right _ _
  | ok crypto =>
      rw [hCrypto] at hEq
      rw [hEq]
      exact w.bufferInitial_weight _ _ _ _ _ _

------------------------------------------------------------
-- From Clients To Backends
------------------------------------------------------------

variable {env : Env} {dp after : Dataplane} {packet : Bytes}
variable {source : Sockaddr} {now : Int}

theorem held_eq
    (hEnqueued : after.enqueued = dp.enqueued)
    (hPending : after.pending = dp.pending) :
    w.held after = w.held dp := by
  unfold held
  rw [hEnqueued, hPending]

theorem enqueue_held
    (dp : Dataplane)
    (item : SendItem) :
    w.held (dp.enqueue item) ≤ w.held dp + w.item item := by
  have hKept :=
    w.sent_filter
      (fun item => item.packet.length ≤ maxDatagramSize)
      [item]
  have hOne : w.sent [item] = w.item item := by
    simp [sent]
  unfold held
  rw [Dataplane.enqueue_enqueued,
    (Dataplane.enqueue_frame dp item).pending, sent_append]
  omega

theorem itemsFor_sent
    (fd : Int)
    (dest source : Sockaddr)
    (packets : List Bytes) :
    w.sent (Dataplane.itemsFor fd dest source packets) ≤
      (packets.map (w.of source)).sum := by
  refine Nat.le_trans (w.sent_filter _ _) ?_
  unfold sent
  rw [List.map_map]
  exact Nat.le_refl _

/- A packet with a session adds at most itself. -/
theorem forwarded_held
    (hForwarded : dp.Forwarded env i packet source now after)
    (hFlows : dp.flows.Inv env.hash) :
    w.held after ≤ w.held dp + w.of source packet := by
  cases hForwarded with
  | noFlow _ hAcquire =>
      have hFrame :=
        (Dataplane.Acquired.of_eq hAcquire hFlows).frame
      have hSame : w.held after = w.held dp :=
        w.held_eq hFrame.enqueued hFrame.pending
      rw [hSame]
      exact Nat.le_add_right _ _
  | sent slot reached hAcquire =>
      have hFrame :=
        (Dataplane.Acquired.of_eq hAcquire hFlows).frame
      have hSame : w.held reached = w.held dp :=
        w.held_eq hFrame.enqueued hFrame.pending
      refine Nat.le_trans (w.enqueue_held _ _) ?_
      rw [← hSame]
      exact Nat.le_of_eq rfl

/- So does an Initial, with what was held back. -/
theorem fresh_held
    (hFresh : dp.Fresh env packet source now after)
    (hFlows : dp.flows.Inv env.hash) :
    w.held after ≤ w.held dp + w.of source packet := by
  -- Every outcome but the last leaves the log of the queue.
  have hBuffered :
      ∀ pending : PendingTable,
        dp.Buffered env packet source now pending →
        ∀ reached : Dataplane,
          reached.enqueued = dp.enqueued →
          reached.pending = pending →
          w.held reached ≤
            w.held dp + w.of source packet := by
    intro pending hPending reached hEnqueued hSame
    have hMore := w.buffered_weight hPending
    unfold held
    rw [hEnqueued, hSame]
    omega
  cases hFresh with
  | ignored => exact Nat.le_add_right _ _
  | buffered pending hPending =>
      exact hBuffered pending hPending _ rfl rfl
  | noFlow pending backend _ hChosen hAcquire hPending =>
      have hFrame :=
        (Dataplane.Acquired.of_eq hAcquire hFlows).frame
      exact hBuffered pending hPending _ hFrame.enqueued
        hFrame.pending
  | notStored pending backend slot reached hChosen hAcquire
      sessions status hStatus hPut hPending =>
      have hFrame :=
        (Dataplane.Acquired.of_eq hAcquire hFlows).frame
      exact hBuffered pending hPending _ hFrame.enqueued
        hFrame.pending
  | installed initial pending routed slot reached sessions
      hSize hInitial hRoute hChosen hAcquire hPut =>
      have hFrame :=
        (Dataplane.Acquired.of_eq hAcquire hFlows).frame
      rcases routed_buffered hRoute with ⟨crypto, hEq⟩
      have hMore :=
        w.bufferInitial_weight dp.pending packet initial
          source now crypto
      have hLess :=
        w.bufferInitial_removed dp.pending packet initial
          source now crypto
      have hMatch :=
        bufferInitial_matches dp.pending packet initial
          source now crypto
      rw [hEq] at hMore hLess hMatch
      dsimp only at hMore hLess hMatch
      rw [w.entry_eq
        (PendingInitial.matchesInitial_iff.mp hMatch).1]
        at hLess
      have hItems :=
        w.itemsFor_sent (reached.flowFd slot) routed.backend
          source routed.entry.packets
      -- The packets leave the buffer as they are queued.
      unfold held
      dsimp only
      rw [(Dataplane.sendAll_frame _ _ _ _ _).pending,
        (Dataplane.sendAll_queueStep _ _ _ _ _).enqueued,
        sent_append]
      dsimp only
      rw [hFrame.enqueued, hFrame.pending]
      dsimp only
      omega

/- An event adds no more than the datagram it brings. -/
theorem step_held
    (event : Event)
    (hFlows : dp.flows.Inv env.hash) :
    w.held (dp.step env event) ≤
      w.held dp + w.received event.delivery.toList := by
  cases event with
  | client datagram source answers =>
      have hHandled :=
        Dataplane.step_client_cases datagram source answers
          hFlows
      have hGot :
          w.received
              (Event.client datagram source
                answers).delivery.toList =
            w.of source datagram.packet := by
        simp [received, Event.delivery, Weight.delivery]
      have hSelected :
          ∀ sessions : SessionTable,
            w.held { dp.withAnswers answers with sessions } =
              w.held dp :=
        fun _ => w.held_eq rfl rfl
      rw [hGot]
      generalize
        dp.step env (.client datagram source answers) = after
        at hHandled ⊢
      cases hHandled with
      | fast slot flow =>
          exact w.enqueue_held _ _
      | session i sessions _ hFast hSelect hForwarded =>
          have hHeld := w.forwarded_held hForwarded hFlows
          rw [hSelected sessions] at hHeld
          exact hHeld
      | fresh sessions _ hFast hSelect hFresh =>
          have hHeld := w.fresh_held hFresh hFlows
          rw [hSelected sessions] at hHeld
          exact hHeld
  | backend slot datagram answers =>
      dsimp only [Dataplane.step]
      refine Nat.le_trans ?_ (Nat.le_add_right _ _)
      unfold Dataplane.handleBackendPacket
      split
      · exact Nat.le_of_eq (w.held_eq rfl rfl)
      · refine Nat.le_trans (w.enqueue_held _ _) ?_
        exact Nat.le_of_eq (w.held_eq rfl rfl)
  | flush answers =>
      have hSame :
          w.held (dp.step env (.flush answers)) =
            w.held dp := w.held_eq rfl rfl
      rw [hSame]
      exact Nat.le_add_right _ _
  | sweep now =>
      have hLess :
          w.pending (dp.pending.expire now) ≤
            w.pending dp.pending :=
        LinearProbing.total_le w.entry
          (PendingTable.expire_sub dp.pending now)
      unfold held
      exact Nat.le_trans (Nat.add_le_add_left hLess _)
        (Nat.le_add_right _ _)
  | reload file resolver =>
      dsimp only [Dataplane.step]
      refine Nat.le_trans ?_ (Nat.le_add_right _ _)
      unfold Dataplane.reloadFromPath
      split
      · exact Nat.le_refl _
      · exact Nat.le_of_eq (w.held_eq rfl rfl)

theorem received_append
    (first second : List Delivery) :
    w.received (first ++ second) =
      w.received first + w.received second := by
  simp [received]

/- A run holds at most what came in. -/
theorem run_held
    (events : List Event)
    (hReach : dp.Reachable env) :
    w.held (dp.run env events) ≤
      w.held dp +
        w.received (events.filterMap Event.delivery) := by
  refine Dataplane.run_induction
    (P := fun events reached =>
      w.held reached ≤
        w.held dp +
          w.received (events.filterMap Event.delivery))
    (Nat.le_add_right _ _) ?_ events
  intro events event hSoFar
  have hStep :=
    w.step_held event
      (Dataplane.reachable_run events hReach).tables.flows
  rw [List.filterMap_append, received_append]
  have hLast :
      [event].filterMap Event.delivery =
        event.delivery.toList := by
    cases h : event.delivery <;> simp [h]
  rw [hLast]
  omega

/- A started router holds nothing yet. -/
theorem starts_held
    (hStarts : dp.Starts env) :
    w.held dp = 0 := by
  have hStarted := hStarts.started
  unfold held pending
  rw [hStarted.enqueued, hStarted.pending]
  unfold PendingTable.init
  rw [LinearProbing.total_vacant]
  rfl

end Weight

/- The payload of a datagram that a backend sent. -/
def Delivery.reply :
    Delivery → Option Bytes
| .client _ _ => none
| .backend _ packet => some packet

/- The payloads of the items that go to clients. -/
def replies
    (items : List SendItem) : List Bytes :=
  (items.filter (fun item => item.origin.isNone)).map
    SendItem.packet

theorem replies_append
    (items others : List SendItem) :
    replies (items ++ others) =
      replies items ++ replies others := by
  simp [replies]

theorem replies_sublist
    {items others : List SendItem}
    (hSub : items.Sublist others) :
    (replies items).Sublist (replies others) :=
  (hSub.filter _).map _

namespace Dataplane

variable {env : Env} {dp : Dataplane}

theorem step_replies
    (event : Event)
    (hFlows : dp.flows.Inv env.hash) :
    (replies (dp.step env event).enqueued).Sublist
      (replies dp.enqueued ++
        event.delivery.toList.filterMap Delivery.reply) := by
  have hNothing :
      ∀ after : Dataplane, after.enqueued = dp.enqueued →
        (replies after.enqueued).Sublist
          (replies dp.enqueued ++
            event.delivery.toList.filterMap
              Delivery.reply) := by
    intro after hSame
    rw [hSame]
    exact List.sublist_append_left _ _
  cases event with
  | client datagram source answers =>
      rcases client_transport datagram source answers
        hFlows with ⟨items, hQueue, _, hItems⟩
      have hNone : replies items = [] := by
        unfold replies
        rw [List.map_eq_nil_iff, List.filter_eq_nil_iff]
        intro item hItem
        rw [(hItems item hItem).origin]
        simp
      rw [hQueue.enqueued, replies_append, hNone,
        List.append_nil]
      exact List.sublist_append_left _ _
  | backend slot datagram answers =>
      dsimp only [step]
      unfold handleBackendPacket
      split
      · exact hNothing _ rfl
      · rw [enqueue_enqueued, replies_append]
        refine (List.Sublist.refl _).append ?_
        exact replies_sublist List.filter_sublist
  | flush answers => exact hNothing _ rfl
  | sweep now => exact hNothing _ rfl
  | reload file resolver =>
      dsimp only [step]
      unfold reloadFromPath
      split
      · exact hNothing _ rfl
      · exact hNothing _ rfl

/- Replies leave in the order they came in. -/
theorem run_replies
    (events : List Event)
    (hReach : dp.Reachable env)
    (hNone : dp.enqueued = []) :
    (replies (dp.run env events).enqueued).Sublist
      ((events.filterMap Event.delivery).filterMap
        Delivery.reply) := by
  refine run_induction
    (P := fun events reached =>
      (replies reached.enqueued).Sublist
        ((events.filterMap Event.delivery).filterMap
          Delivery.reply)) ?_ ?_ events
  · rw [hNone]
    exact List.Sublist.refl _
  · intro events event hSoFar
    have hStep :=
      step_replies event
        (reachable_run events hReach).tables.flows
    have hLast :
        [event].filterMap Event.delivery =
          event.delivery.toList := by
      cases h : event.delivery <;> simp [h]
    rw [List.filterMap_append, List.filterMap_append, hLast]
    exact hStep.trans (hSoFar.append (List.Sublist.refl _))

end Dataplane

theorem equals_congr_left
    {a b : Sockaddr}
    (c : Sockaddr)
    (hSame : a.equals b = true) :
    a.equals c = b.equals c := by
  rw [Bool.eq_iff_iff]
  exact ⟨Sockaddr.equals_trans (Sockaddr.equals_symm hSame),
    Sockaddr.equals_trans hSame⟩

namespace Weight

/- The copies of one datagram of one client. -/
def copies
    (client : Sockaddr)
    (packet : Bytes) : Weight where
  of := fun source other =>
    if source.equals client && other == packet then 1 else 0
  congr := by
    intro a b other hSame
    rw [equals_congr_left client hSame]

/- The bytes of one client. -/
def bytes
    (client : Sockaddr) : Weight where
  of := fun source packet =>
    if source.equals client then packet.length else 0
  congr := by
    intro a b other hSame
    rw [equals_congr_left client hSame]

end Weight

namespace MainLoop

variable {env : Env} {dp : Dataplane}

/-
  What left for the backends weighs no more than what the
  kernel delivered from the clients, however it is weighed:
  a client's datagram is not sent more often than it came
  in, and its bytes are not multiplied.  What left for the
  clients is what came from the backends, in that order.
-/
theorem wire_accounted
    (hStarts : dp.Starts env)
    (buffers : Nat → Bytes)
    (watching : Bool)
    (now : Int)
    (turns : List Turn) :
    let m :=
      ((start dp buffers watching now).run env turns).machine
    let sent := m.dp.wire.map Transmission.item
    (∀ client packet,
      (Weight.copies client packet).sent sent ≤
        (Weight.copies client packet).received m.delivered) ∧
    (∀ client,
      (Weight.bytes client).sent sent ≤
        (Weight.bytes client).received m.delivered) ∧
    (replies sent).Sublist
      (m.delivered.filterMap Delivery.reply) := by
  intro m sent
  rcases started_run hStarts buffers watching now turns
    with ⟨_, events, hView, hGot⟩
  have hReach : dp.Reachable env :=
    Dataplane.ReachableWhere.start hStarts
  have hSent : sent.Sublist m.view.enqueued :=
    sent_inOrder hStarts hView
  have hWeight :
      ∀ w : Weight, w.sent sent ≤ w.received m.delivered := by
    intro w
    have hHeld := w.run_held events hReach
    rw [← hView, ← hGot, w.starts_held hStarts,
      Nat.zero_add] at hHeld
    exact Nat.le_trans (w.sent_sublist hSent)
      (Nat.le_trans (Nat.le_add_right _ _) hHeld)
  have hReplies :=
    Dataplane.run_replies events hReach
      hStarts.started.enqueued
  rw [← hView, ← hGot] at hReplies
  exact ⟨fun client packet => hWeight _,
    fun client => hWeight _,
    (replies_sublist hSent).trans hReplies⟩

end MainLoop

namespace Deployment

/- The kernel takes both coalesced packets. -/
def takenArrival : Turn :=
  { arrival with
    wait :=
      .ready
        [(epollDataMain,
          [.received [coalesced] 0 (fun _ _ => opens 7)
            { opens 7 with sends := [.sent 2] }])]
        (opens 7) 0 }

/- The loop after that one turn. -/
def takenLoop : MainLoop :=
  (MainLoop.start fourSlots (fun _ => []) false 0).run env
    [takenArrival]

/- Both of them leave, and no more than these. -/
theorem arrival_accounted :
    Dataplane.Starts env fourSlots ∧
      (let m := takenLoop.machine
      let w := Weight.copies (client 1) (zeroRtt 1)
      let sent := m.dp.wire.map Transmission.item
      w.received m.delivered = 2 ∧ w.sent sent = 2 ∧
        w.sent sent ≤ w.received m.delivered) := by
  have hStarts : Dataplane.Starts env fourSlots :=
    starts_okValue _ _
  have hCopies :=
    (MainLoop.wire_accounted hStarts (fun _ => []) false 0
      [takenArrival]).1 (client 1) (zeroRtt 1)
  exact ⟨hStarts, by decide +kernel, by decide +kernel,
    hCopies⟩

end Deployment

end QuicSniRouter
