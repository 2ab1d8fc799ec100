import QuicSniRouter.Dataplane.ArrivalOrder
import QuicSniRouter.Dataplane.Encoded

/-
  The datagrams that gather in a pending entry until its
  server name is known.  CRYPTO bytes are merged from every
  one of them, but only the first eight are kept, so what is
  forwarded is all of them just if there are no more.

  Main declarations:
    * `Dataplane.Gathers`
    * `Dataplane.Gathers.gathered`
    * `Dataplane.gathered_forwarded`
-/

------------------------------------------------------------
-- Gathering
------------------------------------------------------------

namespace QuicSniRouter

open PendingTable

/- Distinct datagrams in the order of their first arrival. -/
def arrived
    (packets : List Bytes)
    (packet : Bytes) : List Bytes :=
  if packet ∈ packets then packets else packets ++ [packet]

theorem arrived_nodup
    {packets : List Bytes}
    (packet : Bytes)
    (hNodup : packets.Nodup) :
    (arrived packets packet).Nodup := by
  unfold arrived
  split
  · exact hNodup
  · rename_i hNew
    exact List.nodup_append.mpr
      ⟨hNodup, List.nodup_singleton _, by
        intro a ha b hb hEq
        rw [List.mem_singleton.mp hb] at hEq
        exact hNew (hEq ▸ ha)⟩

/- An entry buffers the first datagrams, up to its limit. -/
theorem PendingInitial.append_take
    {entry : PendingInitial}
    {packets : List Bytes}
    {packet : Bytes}
    (hPackets :
      entry.packets = packets.take pendingInitialMaxPackets)
    (hBounded : packet.length ≤ maxDatagramSize) :
    (entry.appendPacket packet).packets =
      (arrived packets packet).take
        pendingInitialMaxPackets := by
  have hLength :
      entry.packets.length =
        min pendingInitialMaxPackets packets.length := by
    rw [hPackets, List.length_take]
  unfold appendPacket arrived
  rw [if_neg (by omega)]
  by_cases hOld : packet ∈ entry.packets
  · have hMem : packet ∈ packets := by
      rw [hPackets] at hOld
      exact List.mem_of_mem_take hOld
    rw [if_pos hOld, if_pos hMem]
    exact hPackets
  · rw [if_neg hOld]
    by_cases hFull :
        entry.packets.length ≥ pendingInitialMaxPackets
    · rw [if_pos hFull, hPackets]
      split
      · rfl
      · rw [List.take_append_of_le_length (by omega)]
    · -- With room left, all datagrams so far are buffered.
      have hAll : entry.packets = packets := by
        rw [hPackets]
        exact List.take_of_length_le (by omega)
      have hNew : packet ∉ packets := by
        rw [← hAll]
        exact hOld
      rw [if_neg hFull, if_neg hNew, hAll]
      refine (List.take_of_length_le ?_).symm
      rw [List.length_append, List.length_singleton, ← hAll]
      omega

namespace Dataplane

variable {datagram : Datagram}

/- The datagram is merged into a connection's entry. -/
def Merges
    (env : Env)
    (dp : Dataplane)
    (source : Sockaddr)
    (initial : Quic.Initial)
    (datagram : Datagram)
    (client : Sockaddr) : Prop :=
  ∃ other crypto,
    Merged env dp datagram client other crypto ∧
      SameConnection source initial client other

/-
  The datagrams merged for a connection since it had no
  entry, along any run in which the entry is neither lost
  nor routed once there is one.
-/
inductive Gathers
    (env : Env)
    (source : Sockaddr)
    (initial : Quic.Initial) :
    List Bytes → Dataplane → Prop
  | start
      {dp : Dataplane}
      (hReach : Reachable env dp)
      (hNone : dp.pending.held source initial = none) :
      Gathers env source initial [] dp
  | merge
      {packets : List Bytes}
      {dp : Dataplane}
      (datagram : Datagram)
      (client : Sockaddr)
      (answers : Answers)
      (hGathers : Gathers env source initial packets dp)
      (hMerges : Merges env dp source initial datagram client)
      (hHeld :
        ((dp.step env
          (.client datagram client
            answers)).pending.held source
              initial).isSome = true) :
      Gathers env source initial
        (arrived packets datagram.packet)
        (dp.step env (.client datagram client answers))
  | other
      {packets : List Bytes}
      {dp : Dataplane}
      (event : Event)
      (hGathers : Gathers env source initial packets dp)
      (hOther :
        ∀ datagram client answers,
          event = .client datagram client answers →
            ¬ Merges env dp source initial datagram client)
      (hHeld :
        packets ≠ [] →
          ((dp.step env event).pending.held source
            initial).isSome = true) :
      Gathers env source initial packets (dp.step env event)

/- What the entry of a connection has of its datagrams. -/
structure Gathered
    (dp : Dataplane)
    (source : Sockaddr)
    (initial : Quic.Initial)
    (packets : List Bytes) : Prop where
  held :
    ∀ entry, dp.pending.held source initial = some entry →
      entry.packets = packets.take pendingInitialMaxPackets
  fresh :
    dp.pending.held source initial = none → packets = []
  nodup : packets.Nodup
  bounded :
    ∀ packet ∈ packets, packet.length ≤ maxDatagramSize

------------------------------------------------------------
-- What Has Gathered
------------------------------------------------------------

variable {env : Env} {dp : Dataplane} {source : Sockaddr}
variable {initial : Quic.Initial} {packets : List Bytes}

theorem Gathers.reachable
    (hGathers : Gathers env source initial packets dp) :
    Reachable env dp := by
  induction hGathers with
  | start hReach => exact hReach
  | merge datagram client answers _ _ _ ih =>
      exact ReachableWhere.step _ ih trivial
  | other event _ _ _ ih =>
      exact ReachableWhere.step _ ih trivial

/- The buffered datagrams with one more of them. -/
theorem Gathered.append
    {client : Sockaddr}
    {other : Quic.Initial}
    (hGathered : Gathered dp source initial packets)
    (hSame : SameConnection source initial client other) :
    ((dp.pending.getEntry client other
        datagram.now).2.1.appendPacket
          datagram.packet).packets =
      (arrived packets datagram.packet).take
        pendingInitialMaxPackets := by
  apply PendingInitial.append_take _ datagram.bounded
  rw [dp.pending.getEntry_held, held_congr hSame]
  cases hHeld : dp.pending.held source initial with
  | some entry => exact hGathered.held entry hHeld
  | none =>
      rw [hGathered.fresh hHeld]
      rfl

theorem Gathered.arrived_bounded
    (datagram : Datagram)
    (hGathered : Gathered dp source initial packets) :
    ∀ packet ∈ arrived packets datagram.packet,
      packet.length ≤ maxDatagramSize := by
  intro packet hPacket
  unfold arrived at hPacket
  split at hPacket
  · exact hGathered.bounded packet hPacket
  · rcases List.mem_append.mp hPacket with hOld | hNew
    · exact hGathered.bounded packet hOld
    · rw [List.mem_singleton.mp hNew]
      exact datagram.bounded

theorem Gathered.merge
    {datagram : Datagram}
    {client : Sockaddr}
    {answers : Answers}
    (hReach : Reachable env dp)
    (hGathered : Gathered dp source initial packets)
    (hMerges : Merges env dp source initial datagram client)
    (hHeld :
      ((dp.step env
        (.client datagram client answers)).pending.held
          source initial).isSome = true) :
    Gathered (dp.step env (.client datagram client answers))
      source initial (arrived packets datagram.packet) := by
  rcases hMerges with ⟨other, crypto, hMerged, hSame⟩
  have hBuffered :=
    bufferInitial_held dp.pending datagram.packet other
      client datagram.now crypto
  have hFreed :=
    bufferInitial_freed datagram.packet other client
      datagram.now crypto hReach.pendingInv
  dsimp only at hBuffered hFreed
  rw [held_congr hSame] at hBuffered hFreed
  rcases hMerged.pending answers hReach.tables.flows with
    hPending | hPending
  · rw [hPending, hBuffered] at hHeld
    refine ⟨?_, ?_, arrived_nodup _ hGathered.nodup,
      hGathered.arrived_bounded datagram⟩
    · intro entry hEntry
      rw [hPending, hBuffered] at hEntry
      rw [← Option.some.inj hEntry]
      exact hGathered.append hSame
    · intro hNone
      rw [hPending, hBuffered] at hNone
      cases hNone
  · -- A routed entry would be gone.
    rw [hPending, hFreed] at hHeld
    cases hHeld

/- An event that merges nothing adds nothing. -/
theorem other_held
    {event : Event}
    {entry : PendingInitial}
    (hReach : Reachable env dp)
    (hOther :
      ∀ datagram client answers,
        event = .client datagram client answers →
          ¬ Merges env dp source initial datagram client)
    (hHeld :
      (dp.step env event).pending.held source initial =
        some entry) :
    dp.pending.held source initial = some entry := by
  have hInv := hReach.pendingInv
  have hStep := step_pending event hReach.tables.flows
  have hFewer :
      ∀ {fewer pending : PendingTable}, pending.Inv →
        (∀ i entry, fewer.entries i = some entry →
          pending.entries i = some entry) →
        fewer.held source initial = some entry →
          pending.held source initial = some entry := by
    intro fewer pending hPending hSub hFound
    rcases (held_eq_some
        (hPending.of_sub hSub)).mp hFound with
      ⟨i, hEntry, hMatch⟩
    exact (held_eq_some hPending).mpr
      ⟨i, hSub i entry hEntry, hMatch⟩
  generalize (dp.step env event).pending = after
    at hStep hHeld
  cases hStep with
  | kept => exact hHeld
  | buffered datagram client answers other crypto hMerged =>
      refine bufferInitial_other hInv ?_ hHeld
      intro hSame
      exact hOther datagram client answers rfl
        ⟨other, crypto, hMerged, hSame⟩
  | routed datagram client answers other crypto hMerged =>
      refine bufferInitial_other hInv ?_
        (hFewer (bufferInitial_inv _ _ _ _ _ hInv)
          (remove_sub _ _) hHeld)
      intro hSame
      exact hOther datagram client answers rfl
        ⟨other, crypto, hMerged, hSame⟩
  | swept now =>
      exact hFewer hInv (expire_sub _ now) hHeld

theorem Gathers.gathered
    (hGathers : Gathers env source initial packets dp) :
    Gathered dp source initial packets := by
  induction hGathers with
  | start hReach hNone =>
      refine ⟨?_, fun _ => rfl, List.nodup_nil, ?_⟩
      · intro entry hEntry
        rw [hNone] at hEntry
        cases hEntry
      · intro packet hPacket
        cases hPacket
  | merge datagram client answers hGathers hMerges hHeld ih =>
      exact ih.merge hGathers.reachable hMerges hHeld
  | @other packets dp event hGathers hOther hHeld ih =>
      refine ⟨?_, ?_, ih.nodup, ih.bounded⟩
      · intro entry hEntry
        exact ih.held entry
          (other_held hGathers.reachable hOther hEntry)
      · intro hNone
        by_contra hSome
        have hStill := hHeld hSome
        rw [hNone] at hStill
        cases hStill

variable {env : Env} {dp acquired : Dataplane}
variable {source client backend : Sockaddr}
variable {initial : Quic.Initial} {packets : List Bytes}
variable {slot : Nat}

/- Datagrams of permitted size are all queued. -/
theorem itemsFor_eq_map
    (fd : Int)
    (dest origin : Sockaddr)
    (hBounded :
      ∀ packet ∈ packets, packet.length ≤ maxDatagramSize) :
    itemsFor fd dest origin packets =
      packets.map
        (fun packet =>
          { fd, packet, dest, origin := some origin }) := by
  unfold itemsFor
  rw [List.filter_eq_self]
  intro item hItem
  rcases List.mem_map.mp hItem with ⟨packet, hPacket, hEq⟩
  subst hEq
  exact decide_eq_true (hBounded packet hPacket)

/-
  When a datagram completes the server name of a gathered
  connection and gets its flow and its session, the entry is
  freed with nothing left in the send queue.  All datagrams
  of the connection, each once and in the order of arrival,
  have been queued to the backend just if they are at most
  eight.
-/
theorem gathered_forwarded
    (datagram : Datagram)
    (answers : Answers)
    (hGathers : Gathers env source initial packets dp)
    (hMerges : Merges env dp source initial datagram client)
    (hRouted :
      dp.freshBackend env datagram.packet client
        datagram.now = some backend)
    (hFlow :
      flowAcquire env { dp with answers } client backend
        datagram.now = (some slot, acquired))
    (hSession :
      ((selectSession env dp.config dp.sessions
          datagram.packet client
          datagram.now).2.putOwned env.hash
        (SessionKey.tupleKey client)
        (.addr backend.storage) backend.len datagram.now
        slot (acquired.flowId slot)).1 = .ok) :
    let event := Event.client datagram client answers
    let after := dp.step env event
    let all := arrived packets datagram.packet
    after.pending.held source initial = none ∧
      after.queue = [] ∧ all.Nodup ∧
      (dp.queuedBy env event =
          all.map
            (fun packet =>
              { fd := acquired.flowFd slot
                packet
                dest := backend
                origin := some client }) ↔
        all.length ≤ pendingInitialMaxPackets) := by
  intro event after all
  have hReach := hGathers.reachable
  have hGathered := hGathers.gathered
  rcases hMerges with ⟨first, _, hMerges, hSame⟩
  rcases freshBackend_merged hMerges.noSession hRouted with
    ⟨other, crypto, hMerged, hBackend⟩
  have hParsed : first = other := by
    have hBoth := hMerges.parsed.symm.trans hMerged.parsed
    exact Except.ok.inj hBoth
  subst hParsed
  have hQueued :
      dp.queuedBy env event =
        (all.take pendingInitialMaxPackets).map
          (fun packet =>
            { fd := acquired.flowFd slot
              packet
              dest := backend
              origin := some client }) := by
    rw [hMerged.queued hReach.tables.flows hBackend hFlow
      hSession, hGathered.append hSame]
    apply itemsFor_eq_map
    intro packet hPacket
    exact hGathered.arrived_bounded datagram packet
      (List.mem_of_mem_take hPacket)
  rcases hMerged.installed hBackend hFlow hSession with
    ⟨sessions, hStep⟩
  refine ⟨?_, ?_, arrived_nodup _ hGathered.nodup, ?_, ?_⟩
  · have hFreed :=
      bufferInitial_freed datagram.packet first client
        datagram.now crypto hReach.pendingInv
    dsimp only at hFreed
    rw [held_congr hSame] at hFreed
    have hPending :
        after.pending =
          (bufferInitial dp.pending datagram.packet first
            client datagram.now crypto).2.2.remove
              (bufferInitial dp.pending datagram.packet
                first client datagram.now crypto).1 := by
      unfold after event
      rw [hStep]
      dsimp only
      rw [(sendAll_frame _ _ _ _ _).pending]
      rfl
    rw [hPending]
    exact hFreed
  · unfold after event
    rw [hStep]
    rfl
  · intro hAll
    have hLengths :=
      congrArg List.length (hQueued.symm.trans hAll)
    rw [List.length_map, List.length_map, List.length_take]
      at hLengths
    omega
  · intro hFew
    rw [hQueued, List.take_of_length_le hFew]

/- A test of `Merges`. -/
def mergesTest
    (env : Env)
    (dp : Dataplane)
    (source : Sockaddr)
    (initial : Quic.Initial)
    (datagram : Datagram)
    (client : Sockaddr) : Bool :=
  (selectSession env dp.config dp.sessions datagram.packet
      client datagram.now).1.isNone &&
    decide (minInitialDatagramSize ≤
      datagram.packet.length) &&
    match Quic.parseInitial datagram.packet with
    | .error _ => false
    | .ok other =>
        (initialCrypto env.crypto datagram.packet
            other).isOk &&
          source.equals client &&
          initial.dcid == other.dcid &&
          initial.scid == other.scid

theorem merges_of_test
    (hTest :
      mergesTest env dp source initial datagram client =
        true) :
    Merges env dp source initial datagram client := by
  unfold mergesTest at hTest
  cases hParse : Quic.parseInitial datagram.packet with
  | error status =>
      rw [hParse] at hTest
      simp at hTest
  | ok other =>
      rw [hParse] at hTest
      simp only [Bool.and_eq_true, Option.isNone_iff_eq_none,
        decide_eq_true_eq, beq_iff_eq] at hTest
      rcases hTest with
        ⟨⟨hNone, hSize⟩, ⟨⟨hOk, hSource⟩, hDcid⟩, hScid⟩
      exact ⟨other, _,
        ⟨hNone, hSize, hParse, Deployment.eq_okValue _ hOk⟩,
        hSource, hDcid, hScid⟩

/- Datagrams are merged and none completes the name. -/
def feedTest
    (env : Env)
    (initial : Quic.Initial)
    (client : Sockaddr)
    (answers : Answers) :
    Dataplane → List Datagram → Bool
| _, [] => true
| dp, datagram :: datagrams =>
    let after :=
      dp.step env (.client datagram client answers)
    mergesTest env dp client initial datagram client &&
      (after.pending.held client initial).isSome &&
      feedTest env initial client answers after datagrams

theorem gathers_feed
    {answers : Answers}
    {datagrams : List Datagram}
    (hGathers : Gathers env client initial packets dp)
    (hTest :
      feedTest env initial client answers dp datagrams =
        true) :
    Gathers env client initial
      ((datagrams.map Datagram.packet).foldl arrived packets)
      (dp.run env
        (datagrams.map
          (fun datagram =>
            .client datagram client answers))) := by
  induction datagrams generalizing dp packets with
  | nil => exact hGathers
  | cons datagram datagrams ih =>
      unfold feedTest at hTest
      simp only [Bool.and_eq_true] at hTest
      rcases hTest with ⟨⟨hMerges, hHeld⟩, hRest⟩
      exact ih
        (Gathers.merge datagram client answers hGathers
          (merges_of_test hMerges) hHeld) hRest

end Dataplane

namespace Deployment

open Dataplane

/- A piece by its number. -/
def pieceAt
    (n : Nat) : Piece :=
  pieces.getD n
    { number := 0, mask := [], ciphertext := [], tag := [] }

theorem pieceAt_length :
    ∀ n : Fin 9, (pieceAt n).packet.length = 1200 := by
  decide +kernel

/- A piece as it comes in. -/
def pieceDatagram
    (n : Fin 9) : Datagram where
  packet := (pieceAt n).packet
  now := 0
  nonempty := by rw [pieceAt_length]; decide
  bounded := by rw [pieceAt_length]; decide

/- The arrival of a datagram from the fourth client. -/
def comesIn
    (datagram : Datagram) : Event :=
  .client datagram (client 4) (opens 4)

theorem reachable_inPieces :
    Reachable inPieces byName :=
  ReachableWhere.start ⟨_, _, _, eq_okValue _ _⟩

/- As many pieces as the table holds back. -/
def firstEight : List Datagram :=
  [pieceDatagram 0, pieceDatagram 1, pieceDatagram 2,
    pieceDatagram 3, pieceDatagram 4, pieceDatagram 5,
    pieceDatagram 6, pieceDatagram 7]

/- Eight of the nine pieces have come in. -/
def eightPieces : Dataplane :=
  byName.run inPieces (firstEight.map comesIn)

/- The piece that is one too many. -/
def ninthPiece : Event :=
  comesIn (pieceDatagram 8)

/-
  The ninth piece completes the name.  The connection gets
  its flow and its session and its entry is freed, but only
  the first eight pieces go to the backend.
-/
theorem ninth_piece_lost :
    Gathers inPieces (client 4) pieceHeader
        (firstEight.map Datagram.packet) eightPieces ∧
      Merges inPieces eightPieces (client 4) pieceHeader
        (pieceDatagram 8) (client 4) ∧
      ((eightPieces.step inPieces
        ninthPiece).flows.get inPieces.hash
          (client 4)).isSome = true ∧
      ((eightPieces.step inPieces
        ninthPiece).sessions.get inPieces.hash
          (SessionKey.tupleKey (client 4))).isSome = true ∧
      ((eightPieces.step inPieces
        ninthPiece).pending.held (client 4)
          pieceHeader).isSome = false ∧
      (eightPieces.queuedBy inPieces
          ninthPiece).map SendItem.packet =
        firstEight.map Datagram.packet ∧
      (pieceDatagram 8).packet ∉
        firstEight.map Datagram.packet := by
  have hFed :
      feedTest inPieces pieceHeader (client 4) (opens 4)
          byName firstEight = true ∧
        mergesTest inPieces eightPieces (client 4)
          pieceHeader (pieceDatagram 8) (client 4) = true ∧
        (firstEight.map Datagram.packet).foldl arrived [] =
          firstEight.map Datagram.packet := by
    decide +kernel
  have hGathers :=
    gathers_feed (Gathers.start reachable_inPieces rfl) hFed.1
  rw [hFed.2.2] at hGathers
  exact ⟨hGathers, merges_of_test hFed.2.1,
    by decide +kernel⟩

/- Two pieces, and then an Initial with the whole hello. -/
def twoPieces : List Datagram :=
  [pieceDatagram 1, pieceDatagram 2]

/- The state with two pieces held back. -/
def gathering : Dataplane :=
  byName.run inPieces (twoPieces.map comesIn)

/- The packet with all of the hello. -/
def wholeHello : Datagram :=
  opening connection1 connection1_size

/- The backend that the hello leads to. -/
def helloBackend : Sockaddr :=
  (gathering.freshBackend inPieces wholeHello.packet
    (client 4) wholeHello.now).get (by decide +kernel)

/- The flow that its packet is sent over. -/
def helloFlow : Option Nat × Dataplane :=
  flowAcquire inPieces
    { gathering with answers := opens 4 } (client 4)
    helloBackend wholeHello.now

/- All three are forwarded, in the order of arrival. -/
theorem gathered_pieces_forwarded :
    (gathering.queuedBy inPieces
        (comesIn wholeHello)).map SendItem.packet =
      [(pieceDatagram 1).packet, (pieceDatagram 2).packet,
        wholeHello.packet] := by
  have hFed :
      feedTest inPieces pieceHeader (client 4) (opens 4)
          byName twoPieces = true ∧
        mergesTest inPieces gathering (client 4) pieceHeader
          wholeHello (client 4) = true ∧
        helloFlow.1 = some 0 ∧
        ((selectSession inPieces gathering.config
            gathering.sessions wholeHello.packet (client 4)
            wholeHello.now).2.putOwned inPieces.hash
          (SessionKey.tupleKey (client 4))
          (.addr helloBackend.storage) helloBackend.len
          wholeHello.now 0
          (helloFlow.2.flowId 0)).1 = .ok := by
    decide +kernel
  have hAll :
      arrived
          ((twoPieces.map Datagram.packet).foldl arrived [])
          wholeHello.packet =
        [(pieceDatagram 1).packet, (pieceDatagram 2).packet,
          wholeHello.packet] := by
    decide +kernel
  have hGathers :
      Gathers inPieces (client 4) pieceHeader
        ((twoPieces.map Datagram.packet).foldl arrived [])
        gathering :=
    gathers_feed (Gathers.start reachable_inPieces rfl) hFed.1
  have hForwarded :=
    gathered_forwarded wholeHello (opens 4) hGathers
      (merges_of_test hFed.2.1) (Option.some_get _).symm
      (eq_pair hFed.2.2.1) hFed.2.2.2
  dsimp only at hForwarded
  rw [hAll] at hForwarded
  have hQueued :=
    hForwarded.2.2.2.mpr
      (by show 3 ≤ pendingInitialMaxPackets; decide)
  unfold comesIn
  exact (congrArg (List.map SendItem.packet) hQueued).trans
    rfl

end Deployment

end QuicSniRouter
