import QuicSniRouter.Dataplane.Gathering
import QuicSniRouter.Dataplane.Reload
import QuicSniRouter.Hostname
import QuicSniRouter.Quic.FrameGrammar

/-
  From a client's ClientHello to the backend of its name.  A
  client cuts its hello into CRYPTO frames, writes them into
  Initial packets and protects these.  Once the router has
  seen enough of them, in any order and among any other
  traffic, they all go where the route of the name points.

  Main declarations:
    * `HelloPacket`
    * `HelloPacket.read`
    * `Dataplane.Gathers.holds`
    * `Dataplane.hello_reaches_backend`
-/

------------------------------------------------------------
-- What A Client Sends
------------------------------------------------------------

namespace QuicSniRouter

open Quic Segments

/-
  An Initial packet before its protection.  Its plaintext is
  a sequence of frames, and the CRYPTO frames among them
  carry pieces of the hello where they belong.
-/
structure HelloPacket
    (hello : Bytes) where
  plain : PlainInitial
  frames : List Frame
  written : plain.plaintext = frames.flatMap Frame.bytes
  speaks : segmentsOf frames ≠ []
  pieces : ∀ piece ∈ segmentsOf frames, piece.Of hello
  inside :
    ∀ piece ∈ segmentsOf frames,
      piece.offset + piece.items.length ≤ hello.length

namespace HelloPacket

variable {hello : Bytes} {crypto : Crypto} {P : Primitives}

/- The packet as it is sent. -/
def datagram
    (p : HelloPacket hello)
    (P : Primitives) : Bytes :=
  p.plain.protect P

/- The parts of the hello in the packet. -/
def segments
    (p : HelloPacket hello) : List CryptoFrame :=
  segmentsOf p.frames

theorem cryptoFrames_plaintext
    (p : HelloPacket hello)
    (hHello : hello.length ≤ maxClientHelloSize)
    (hSize : p.plain.plaintext.length ≤ maxClientHelloSize) :
    cryptoFrames p.plain.plaintext = .ok p.segments := by
  have hFits : ∀ s ∈ segmentsOf p.frames, Fits s := by
    intro s hs
    exact Nat.le_trans (p.inside s hs) hHello
  unfold cryptoFrames
  rw [if_neg (Nat.not_lt_of_le hSize), p.written]
  exact cryptoFramesFrom_bytes (Nat.le_refl _) hFits
    (Or.inr p.speaks)

/- The router parses and decrypts what was protected. -/
theorem read
    (p : HelloPacket hello)
    (hComputes : crypto.Computes P)
    (hHello : hello.length ≤ maxClientHelloSize)
    (hSize : (p.datagram P).length ≤ maxDatagramSize) :
    ∃ initial : Initial,
      parseInitial (p.datagram P) = .ok initial ∧
        initial.dcid = p.plain.dcid ∧
        initial.scid = p.plain.scid ∧
        (decryptInitial crypto (p.datagram P) initial >>=
          cryptoFrames) = .ok p.segments := by
  rcases p.plain.exists_packet P with
    ⟨q, hHeader, hFirst, hPayload, hTrailing⟩
  have hBytes : p.datagram P = q.bytes := by
    unfold datagram PlainInitial.protect InitialPacket.bytes
    rw [hHeader, hFirst, hPayload, hTrailing,
      List.append_assoc]
  rw [hBytes] at hSize ⊢
  have hOpened :=
    opened_protected hComputes p.plain hHeader hFirst hPayload
  have hShort :
      p.plain.plaintext.length ≤ maxClientHelloSize := by
    have hLength := q.length_bytes
    rw [hPayload, List.length_append,
      PlainInitial.length_sealed] at hLength
    have hMax : maxDatagramSize = 1500 := rfl
    have hRoom : maxClientHelloSize = 8192 := rfl
    omega
  refine ⟨q.initial, parseInitial_bytes q,
    congrArg InitialHeader.dcid hHeader,
    congrArg InitialHeader.scid hHeader, ?_⟩
  rw [decryptInitial_bytes hSize, hOpened]
  exact p.cryptoFrames_plaintext hHello hShort

end HelloPacket

/- The CRYPTO frames that the router finds in a datagram. -/
def carried
    (env : Env)
    (packet : Bytes) : List CryptoFrame :=
  match parseInitial packet with
  | .ok initial =>
      carriedFrames (decryptInitial env.crypto packet initial)
  | .error _ => []

theorem HelloPacket.carried_eq
    {env : Env}
    {hello : Bytes}
    {P : Primitives}
    (p : HelloPacket hello)
    (hComputes : env.crypto.Computes P)
    (hHello : hello.length ≤ maxClientHelloSize)
    (hSize : (p.datagram P).length ≤ maxDatagramSize) :
    carried env (p.datagram P) = p.segments := by
  rcases p.read hComputes hHello hSize with
    ⟨initial, hParse, _, _, hFrames⟩
  unfold carried carriedFrames
  simp only [hParse, hFrames]

open Quic Segments

theorem mem_arrived
    {packets : List Bytes}
    {packet other : Bytes} :
    other ∈ arrived packets packet ↔
      other ∈ packets ∨ other = packet := by
  unfold arrived
  split
  · rename_i hIn
    constructor
    · exact Or.inl
    · rintro (hOther | hEq)
      · exact hOther
      · rw [hEq]
        exact hIn
  · rw [List.mem_append, List.mem_singleton]

namespace Dataplane

variable {env : Env} {dp : Dataplane} {source : Sockaddr}
variable {initial : Quic.Initial} {packets : List Bytes}
variable {hello : Bytes}

/- A merged datagram brings the frames that it carries. -/
theorem Merged.holds
    {datagram : Datagram}
    {crypto : CryptoStream}
    (hMerged : Merged env dp datagram source initial crypto)
    (hOf :
      ∀ piece ∈ carried env datagram.packet, piece.Of hello) :
    crypto.Holds hello (carried env datagram.packet) := by
  let arrival : Arrival :=
    { packet := datagram.packet
      initial, source
      now := datagram.now }
  have hFrames :
      carried env datagram.packet = arrival.frames env := by
    unfold carried
    rw [hMerged.parsed]
    rfl
  rw [hFrames] at hOf ⊢
  exact Arrival.Carries.holds hOf hMerged.crypto

/-
  The stream of a gathering connection holds the pieces of
  all datagrams that were merged for it.
-/
theorem Gathers.holds
    (hGathers : Gathers env source initial packets dp)
    (hOf :
      ∀ packet ∈ packets, ∀ piece ∈ carried env packet,
        piece.Of hello) :
    ∃ pieces,
      (dp.pending.streamOf source initial).Holds hello
          pieces ∧
        ∀ packet ∈ packets, ∀ piece ∈ carried env packet,
          piece ∈ pieces := by
  induction hGathers with
  | start hReach hNone =>
      refine ⟨[], ?_, by simp⟩
      unfold PendingTable.streamOf
      rw [hNone]
      exact CryptoStream.init_holds hello
  | @merge packets dp datagram client answers hGathers
      hMerges hHeld ih =>
      rcases ih (fun packet hPacket =>
          hOf packet (mem_arrived.mpr (Or.inl hPacket))) with
        ⟨pieces, hHolds, hAll⟩
      rcases hMerges with ⟨other, crypto, hMerged, hSame⟩
      have hReach := hGathers.reachable
      have hBuffered :=
        bufferInitial_held dp.pending datagram.packet other
          client datagram.now crypto
      have hFreed :=
        bufferInitial_freed datagram.packet other client
          datagram.now crypto hReach.pendingInv
      dsimp only at hBuffered hFreed
      rw [PendingTable.held_congr hSame]
        at hBuffered hFreed
      have hStream :
          ((dp.step env
            (.client datagram client
              answers)).pending.streamOf source
                initial).Holds hello
            (pieces ++ carried env datagram.packet) := by
        unfold PendingTable.streamOf
        rcases hMerged.pending answers hReach.tables.flows
          with hPending | hPending
        · rw [hPending, hBuffered]
          dsimp only
          rw [bufferInitial_crypto, streamOf_congr hSame]
          exact hHolds.merge
            (hMerged.holds
              (hOf datagram.packet
                (mem_arrived.mpr (Or.inr rfl))))
        · -- A routed entry would be gone.
          rw [hPending, hFreed] at hHeld
          cases hHeld
      refine ⟨_, hStream, ?_⟩
      intro packet hPacket piece hPiece
      rcases mem_arrived.mp hPacket with hIn | hEq
      · exact List.mem_append_left _
          (hAll packet hIn piece hPiece)
      · rw [hEq] at hPiece
        exact List.mem_append_right _ hPiece
  | @other packets dp event hGathers hOther hHeld ih =>
      rcases ih hOf with ⟨pieces, hHolds, hAll⟩
      cases hAfter :
          (dp.step env event).pending.held source initial with
      | none =>
          have hNone : packets = [] := by
            by_contra hSome
            have hStill := hHeld hSome
            rw [hAfter] at hStill
            cases hStill
          refine ⟨[], ?_, by simp [hNone]⟩
          unfold PendingTable.streamOf
          rw [hAfter]
          exact CryptoStream.init_holds hello
      | some entry =>
          have hBefore :=
            other_held hGathers.reachable hOther hAfter
          refine ⟨pieces, ?_, hAll⟩
          unfold PendingTable.streamOf at hHolds ⊢
          rw [hBefore] at hHolds
          rw [hAfter]
          exact hHolds

end Dataplane

open Quic Segments Tls Tls.Grammar

variable {env : Env} {config : Config} {hello name : Bytes}
variable {route : Route}

theorem clientHelloSni_message
    (hMessage : Message name hello)
    (hName : Hostname name)
    (hHello : hello.length ≤ maxClientHelloSize) :
    clientHelloSni (byteAt hello) hello.length =
      .ok name := by
  rw [clientHelloSni_wire, inputBytes_byteAt]
  apply (Wire.clientHelloSni_iff hHello).mpr
  refine ⟨?_, (Hostname.validHostname_iff name).mpr hName⟩
  unfold Input
  rw [if_neg]
  · exact hMessage
  · rintro ⟨_, hRecord⟩
    rcases hMessage with ⟨len, body, hEq, _⟩
    rw [hEq] at hRecord
    cases hRecord

/- A stream that holds the whole hello is routed by it. -/
theorem routeCryptoStream_whole
    {stream : CryptoStream}
    {pieces : List CryptoFrame}
    (hMessage : Message name hello)
    (hName : Hostname name)
    (hHello : hello.length ≤ maxClientHelloSize)
    (hHolds : stream.Holds hello pieces)
    (hCovered : ∀ i < hello.length, covered pieces i = true)
    (hLookup :
      config.routes.lookup env.hash name = some route)
    (hResolved : route.backendResolved = true) :
    routeCryptoStream env.hash config stream =
      .ok route.backend := by
  have hSome : hello.length ≠ 0 := by
    rcases hMessage with ⟨len, body, hEq, _⟩
    rw [hEq]
    exact Nat.succ_ne_zero _
  have hWhole :
      routeHello env.hash config (byteAt hello)
        hello.length = .ok (name, route.backend) := by
    unfold routeHello
    rw [if_neg hSome,
      clientHelloSni_message hMessage hName hHello]
    simp only [bind, Except.bind, hLookup, hResolved]
    rfl
  have hLen : hello.length ≤ coveredLen pieces :=
    leading_max maxClientHelloSize 0
      (fun i _ hi => hCovered i hi) (by omega)
  have hFront :=
    routeHello_extends (fun _ _ => rfl) hLen
      (coveredLen_le pieces) hWhole
  rw [routeCryptoStream_eq,
    (routeHello_holds hHolds _).mpr hFront]
  rfl

end QuicSniRouter

------------------------------------------------------------
-- From The Hello To The Backend
------------------------------------------------------------

namespace QuicSniRouter

open Quic Segments Tls.Grammar

namespace Dataplane

variable {env : Env} {dp acquired : Dataplane}
variable {source : Sockaddr} {initial : Quic.Initial}
variable {packets : List Bytes} {hello name : Bytes}
variable {P : Primitives} {route : Route} {slot : Nat}
variable {datagrams : List Bytes}

/- A connection of which no alias is known. -/
structure Unrouted
    (env : Env)
    (dp : Dataplane)
    (initial : Quic.Initial) : Prop where
  codec : dp.config.cidCodec.enabled = false
  noPair :
    dp.sessions.get env.hash
      (SessionKey.cidKey initial.dcid initial.scid) = none
  noDcid :
    dp.sessions.get env.hash
      (SessionKey.singleCidKey initial.dcid) = none

theorem Unrouted.select
    {packet : Bytes}
    {other : Quic.Initial}
    (hUnrouted : Unrouted env dp initial)
    (hParse : parseInitial packet = .ok other)
    (hDcid : other.dcid = initial.dcid)
    (hScid : other.scid = initial.scid)
    (now : Int) :
    selectSession env dp.config dp.sessions packet source
      now = (none, dp.sessions) := by
  rw [selectSession_initial dp.sessions source now
    hUnrouted.codec hParse]
  unfold selectInitial lookupLongHeaderRequestDcid
  rw [hDcid, hScid, hUnrouted.noPair]
  dsimp only
  rw [hUnrouted.noDcid]

/- A packet of an unknown connection is merged. -/
theorem Unrouted.merged
    {datagram : Datagram}
    (p : HelloPacket hello)
    (hUnrouted : Unrouted env dp initial)
    (hComputes : env.crypto.Computes P)
    (hHello : hello.length ≤ maxClientHelloSize)
    (hPacket : datagram.packet = p.datagram P)
    (hDcid : p.plain.dcid = initial.dcid)
    (hScid : p.plain.scid = initial.scid)
    (hSize :
      minInitialDatagramSize ≤ datagram.packet.length) :
    ∃ other crypto,
      Merged env dp datagram source other crypto ∧
        SameConnection source initial source other := by
  have hBounded :
      (p.datagram P).length ≤ maxDatagramSize := by
    rw [← hPacket]
    exact datagram.bounded
  rcases p.read hComputes hHello hBounded with
    ⟨other, hParse, hOtherDcid, hOtherScid, hFrames⟩
  rw [← hPacket] at hParse hFrames
  have hIds := hOtherDcid.trans hDcid
  have hIds' := hOtherScid.trans hScid
  have hSelect :=
    @Unrouted.select env dp source initial datagram.packet
      other hUnrouted hParse hIds hIds' datagram.now
  have hCrypto :
      initialCrypto env.crypto datagram.packet other =
        .ok (CryptoStream.init.writeAll p.segments) := by
    rcases except_bind_eq_ok hFrames with
      ⟨plaintext, hPlaintext, hRead⟩
    unfold initialCrypto
    rw [hPlaintext]
    exact (extractCrypto_eq _ _).trans (by rw [hRead]; rfl)
  exact ⟨other, _,
    ⟨congrArg Prod.fst hSelect, hSize, hParse, hCrypto⟩,
    ⟨Sockaddr.equals_refl source, hIds.symm, hIds'.symm⟩⟩

/- Datagrams of a client that carry all of its hello. -/
structure Flight
    (P : Primitives)
    (hello : Bytes)
    (datagrams : List Bytes) : Prop where
  written :
    ∀ packet ∈ datagrams, ∃ p : HelloPacket hello,
      packet = p.datagram P
  bounded :
    ∀ packet ∈ datagrams, packet.length ≤ maxDatagramSize
  covers :
    ∀ i < hello.length, ∃ p : HelloPacket hello,
      p.datagram P ∈ datagrams ∧ covered p.segments i = true

theorem Flight.pieces
    (hFlight : Flight P hello datagrams)
    (hComputes : env.crypto.Computes P)
    (hHello : hello.length ≤ maxClientHelloSize) :
    ∀ packet ∈ datagrams, ∀ piece ∈ carried env packet,
      piece.Of hello := by
  intro packet hPacket piece hPiece
  have hBounded := hFlight.bounded packet hPacket
  rcases hFlight.written packet hPacket with ⟨p, hEq⟩
  rw [hEq] at hBounded hPiece
  rw [p.carried_eq hComputes hHello hBounded] at hPiece
  exact p.pieces piece hPiece

theorem Flight.covered
    {pieces : List CryptoFrame}
    (hFlight : Flight P hello datagrams)
    (hComputes : env.crypto.Computes P)
    (hHello : hello.length ≤ maxClientHelloSize)
    (hAll :
      ∀ packet ∈ datagrams, ∀ piece ∈ carried env packet,
        piece ∈ pieces) :
    ∀ i < hello.length, Segments.covered pieces i = true := by
  intro i hi
  rcases hFlight.covers i hi with ⟨p, hIn, hCovers⟩
  have hBounded := hFlight.bounded _ hIn
  rcases List.any_eq_true.mp hCovers with
    ⟨piece, hPiece, hHere⟩
  rw [← p.carried_eq hComputes hHello hBounded] at hPiece
  exact List.any_eq_true.mpr
    ⟨piece, hAll _ hIn piece hPiece, hHere⟩

/- With its last datagram the whole flight is routed. -/
theorem Flight.routed
    {datagram : Datagram}
    {other : Quic.Initial}
    {crypto : CryptoStream}
    (hFlight :
      Flight P hello (arrived packets datagram.packet))
    (hComputes : env.crypto.Computes P)
    (hMessage : Message name hello)
    (hName : Hostname name)
    (hHello : hello.length ≤ maxClientHelloSize)
    (hGathers : Gathers env source initial packets dp)
    (hMerged : Merged env dp datagram source other crypto)
    (hSame : SameConnection source initial source other)
    (hLookup :
      dp.config.routes.lookup env.hash name = some route) :
    routeCryptoStream env.hash dp.config
        (bufferInitial dp.pending datagram.packet other
          source datagram.now crypto).2.1.crypto =
      .ok route.backend := by
  have hOf := hFlight.pieces hComputes hHello
  rcases hGathers.holds (fun packet hPacket =>
      hOf packet (mem_arrived.mpr (Or.inl hPacket))) with
    ⟨pieces, hHolds, hAll⟩
  have hLast :=
    hMerged.holds
      (hOf datagram.packet (mem_arrived.mpr (Or.inr rfl)))
  have hResolved : route.backendResolved = true :=
    (hGathers.reachable.resolved.routes route
      (RouteTable.lookup_mem hLookup)).1
  rw [bufferInitial_crypto, streamOf_congr hSame]
  refine routeCryptoStream_whole hMessage hName hHello
    (hHolds.merge hLast) ?_ hLookup hResolved
  apply hFlight.covered hComputes hHello
  intro packet hPacket piece hPiece
  rcases mem_arrived.mp hPacket with hOld | hNew
  · exact List.mem_append_left _
      (hAll packet hOld piece hPiece)
  · rw [hNew] at hPiece
    exact List.mem_append_right _ hPiece

end Dataplane

namespace Deployment

open Dataplane

end Deployment

end QuicSniRouter
