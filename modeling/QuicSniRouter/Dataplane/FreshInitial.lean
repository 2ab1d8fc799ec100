import QuicSniRouter.Dataplane.Transport
import QuicSniRouter.Quic.Protection

/-
  The routing of a fresh Initial: only the configuration,
  the buffered Initials and the datagram itself decide, not
  what an earlier connection left behind for its tuple.

  Main declarations:
    * `reassembledSni`
    * `Dataplane.FreshInitial`
    * `Dataplane.fresh_initial_follows_sni`
-/

------------------------------------------------------------
-- The Reassembled Server Name
------------------------------------------------------------

namespace QuicSniRouter

variable {config : Config}

/-
  The server name in what has arrived of a connection's
  ClientHello, with one more Initial of it.
-/
def reassembledSni
    (env : Env)
    (pending : PendingTable)
    (packet : Bytes)
    (initial : Quic.Initial)
    (source : Sockaddr)
    (now : Int) :
    Except Status Bytes := do
  let crypto ← initialCrypto env.crypto packet initial
  let stream :=
    (bufferInitial pending packet initial source now
      crypto).2.1.crypto
  if stream.contiguousLen = 0 then
    throw .truncated
  Tls.clientHelloSni stream.data stream.contiguousLen

theorem routeCryptoStream_ok
    {hash : Bytes → Nat}
    {crypto : Quic.CryptoStream}
    {backend : Sockaddr}
    (hRoute :
      routeCryptoStream hash config crypto = .ok backend) :
    crypto.contiguousLen ≠ 0 ∧
      ∃ sni route,
        Tls.clientHelloSni crypto.data
            crypto.contiguousLen = .ok sni ∧
          config.routes.lookup hash sni = some route ∧
          route.backendResolved = true ∧
          backend = route.backend := by
  unfold routeCryptoStream at hRoute
  rcases except_guard_eq_ok hRoute with ⟨hSome, hRest⟩
  rcases except_bind_eq_ok hRest with ⟨sni, hSni, hLook⟩
  refine ⟨hSome, sni, ?_⟩
  cases hLookup : config.routes.lookup hash sni with
  | none =>
      rw [hLookup] at hLook
      cases hLook
  | some route =>
      rw [hLookup] at hLook
      rcases except_guard_eq_ok hLook with ⟨hResolved, hDone⟩
      cases hDone
      exact ⟨route, hSni, rfl, by simpa using hResolved, rfl⟩

theorem routeInitialDatagram_ok
    {env : Env}
    {pending pending' : PendingTable}
    {packet : Bytes}
    {initial : Quic.Initial}
    {source : Sockaddr}
    {now : Int}
    {routed : RoutedInitial}
    (hRoute :
      routeInitialDatagram env config pending packet initial
        source now = (pending', .ok routed)) :
    ∃ sni route,
      reassembledSni env pending packet initial source
          now = .ok sni ∧
        config.routes.lookup env.hash sni = some route ∧
        routed.backend = route.backend := by
  unfold routeInitialDatagram at hRoute
  unfold reassembledSni
  cases hCrypto : initialCrypto env.crypto packet initial with
  | error status =>
      rw [hCrypto] at hRoute
      cases hRoute
  | ok crypto =>
      rw [hCrypto] at hRoute
      rcases Prod.mk.inj hRoute with ⟨_, hRouted⟩
      rcases except_bind_eq_ok hRouted with
        ⟨backend, hStream, hDone⟩
      cases hDone
      rcases routeCryptoStream_ok hStream with
        ⟨hSome, sni, route, hSni, hLookup, _, hBackend⟩
      refine ⟨sni, route, ?_, hLookup, hBackend⟩
      simp only [bind, Except.bind, hSome, if_false]
      exact hSni

------------------------------------------------------------
-- Fresh Initials
------------------------------------------------------------

open LinearProbing

namespace Dataplane

/-
  A full-size Initial that no connection id alias answers
  for, with encoded-id routing off.
-/
structure FreshInitial
    (env : Env)
    (dp : Dataplane)
    (packet : Bytes)
    (initial : Quic.Initial) : Prop where
  codec : dp.config.cidCodec.enabled = false
  size : minInitialDatagramSize ≤ packet.length
  parsed : Quic.parseInitial packet = .ok initial
  noPair :
    dp.sessions.get env.hash
      (SessionKey.cidKey initial.dcid initial.scid) = none
  noDcid :
    ∀ i,
      dp.sessions.get env.hash
          (SessionKey.singleCidKey initial.dcid) = some i →
        dp.config.routes.hasBackend env.hash
          (dp.sessions.backendAt i) = false

variable {env : Env} {dp : Dataplane} {packet : Bytes}
variable {initial : Quic.Initial}
variable (source : Sockaddr) (now : Int)

theorem FreshInitial.fastPath
    (hFresh : FreshInitial env dp packet initial) :
    dp.fastPath env packet source now = none := by
  have hLong := Quic.parseInitial_hasLongBit hFresh.parsed
  simp [Dataplane.fastPath, hLong]

theorem FreshInitial.select
    (hFresh : FreshInitial env dp packet initial) :
    selectSession env dp.config dp.sessions packet source
      now = (none, dp.sessions) := by
  have hInitial :
      selectInitial env.hash dp.config dp.sessions
        initial = none := by
    unfold selectInitial lookupLongHeaderRequestDcid
    rw [hFresh.noPair]
    dsimp only
    cases hGet :
        dp.sessions.get env.hash
          (SessionKey.singleCidKey initial.dcid) with
    | none => rfl
    | some i =>
        dsimp only
        rw [hFresh.noDcid i hGet]
        rfl
  rw [selectSession_initial dp.sessions source now
    hFresh.codec hFresh.parsed, hInitial]

/- The backend depends on these inputs only. -/
theorem FreshInitial.chosen
    (hFresh : FreshInitial env dp packet initial) :
    dp.chosenBackend env packet source now =
      match (routeInitialDatagram env dp.config dp.pending
        packet initial source now).2 with
      | .ok routed => some routed.backend
      | .error _ => none := by
  have hSize := hFresh.size
  unfold chosenBackend
  rw [hFresh.fastPath source now]
  simp only [hFresh.select source now]
  unfold freshBackend
  rw [if_neg (by omega), hFresh.parsed]
  dsimp only
  cases (routeInitialDatagram env dp.config dp.pending
      packet initial source now).2 with
  | ok routed => rfl
  | error status => rfl

/- What the last stage of the fresh path queues. -/
theorem FreshInitial.installed
    {datagram : Datagram}
    {source : Sockaddr}
    {answers : Answers}
    {item : SendItem}
    {pending : PendingTable}
    {routed : RoutedInitial}
    {slot : Nat}
    {reached : Dataplane}
    {sessions : SessionTable}
    (hInv : dp.flows.Inv env.hash)
    (hChosen :
      dp.chosenBackend env datagram.packet source
          datagram.now =
        match (routeInitialDatagram env dp.config dp.pending
          datagram.packet initial source datagram.now).2 with
        | .ok routed => some routed.backend
        | .error _ => none)
    (hRoute :
      routeInitialDatagram env dp.config dp.pending
        datagram.packet initial source datagram.now =
          (pending, .ok routed))
    (hAcquire :
      flowAcquire env { dp with answers, pending } source
        routed.backend datagram.now = (some slot, reached))
    (hItem :
      item ∈
        (enqueueAll { reached with sessions }
          (reached.flowFd slot) routed.backend source
          routed.entry.packets).enqueued.drop
          dp.enqueued.length) :
    ∃ sni route slot flow,
      reassembledSni env dp.pending datagram.packet initial
          source datagram.now = .ok sni ∧
        dp.config.routes.lookup env.hash sni = some route ∧
        dp.chosenBackend env datagram.packet source
          datagram.now = some route.backend ∧
        item.dest = route.backend ∧
        reached.flows.get env.hash source = some slot ∧
        reached.flows.flows slot = some flow ∧
        item.fd = flow.fd ∧
        flow.backend.equals route.backend = true := by
  rcases routeInitialDatagram_ok hRoute with
    ⟨sni, route, hSni, hLookup, hBackend⟩
  have hAcquired := Acquired.of_eq hAcquire hInv
  rcases acquired_flow hAcquire hInv with
    ⟨_, flow, hFlow, _, hAims, hFd⟩
  have hEnqueued : reached.enqueued = dp.enqueued :=
    hAcquired.frame.enqueued
  have hGet :
      reached.flows.get env.hash source = some slot :=
    hAcquired.get hInv rfl
  rw [hRoute] at hChosen
  rw [enqueueAll_enqueued] at hItem
  dsimp only at hItem hChosen
  rw [hEnqueued, List.drop_left] at hItem
  rcases List.mem_map.mp (List.mem_filter.mp hItem).1 with
    ⟨packet, _, hEq⟩
  subst hEq
  rw [hBackend] at hChosen hAims
  exact ⟨sni, route, slot, flow, hSni, hLookup, hChosen,
    hBackend, hGet, hFlow, hFd, hAims.equals⟩

/- An Initial that is queued is queued on the fresh path. -/
theorem FreshInitial.queued
    {datagram : Datagram}
    {source : Sockaddr}
    {answers : Answers}
    {item : SendItem}
    (hInv : dp.flows.Inv env.hash)
    (hFresh : FreshInitial env dp datagram.packet initial)
    (hItem :
      item ∈
        dp.queuedBy env (.client datagram source answers)) :
    ∃ sni route slot flow,
      reassembledSni env dp.pending datagram.packet initial
          source datagram.now = .ok sni ∧
        dp.config.routes.lookup env.hash sni = some route ∧
        dp.chosenBackend env datagram.packet source
          datagram.now = some route.backend ∧
        item.dest = route.backend ∧
        (dp.step env
          (.client datagram source
            answers)).flows.get env.hash source = some slot ∧
        (dp.step env
          (.client datagram source answers)).flows.flows
            slot = some flow ∧
        item.fd = flow.fd ∧
        flow.backend.equals route.backend = true := by
  have hLong := Quic.parseInitial_hasLongBit hFresh.parsed
  have hSelect := hFresh.select source datagram.now
  have hChosen := hFresh.chosen source datagram.now
  have hHandled :=
    step_client_cases datagram source answers hInv
  unfold queuedBy at hItem
  generalize
    dp.step env (.client datagram source answers) = after
    at hHandled hItem ⊢
  have hNothing : after.enqueued ≠ dp.enqueued := by
    intro hSame
    rw [hSame, List.drop_length] at hItem
    cases hItem
  cases hHandled with
  | fast slot flow hCodec hShort hSlot hFlow hClient =>
      rw [hLong] at hShort
      cases hShort
  | session i sessions _ hFast hFound hForwarded =>
      have hBoth := hFound.symm.trans hSelect
      cases hBoth
  | fresh sessions _ hFast hFound hOutcome =>
      have hBoth := hFound.symm.trans hSelect
      cases hBoth
      cases hOutcome with
      | ignored => exact absurd rfl hNothing
      | buffered pending => exact absurd rfl hNothing
      | noFlow pending backend _ _ hAcquire =>
          exact absurd (acquired_queueStep hAcquire hInv).1
            hNothing
      | notStored pending backend slot reached _ hAcquire
          sessions status hStatus hPut =>
          exact absurd (acquired_queueStep hAcquire hInv).1
            hNothing
      | installed initial' pending routed slot reached
          sessions hSize hInitial hRoute hFreshBackend
          hAcquire hPut =>
          rw [hFresh.parsed] at hInitial
          cases hInitial
          have hFlows :=
            (enqueueAll_frame
              { reached with
                sessions :=
                  installRoute env sessions datagram.packet
                    routed.entry.cidKey routed.backend
                    datagram.now slot
                    (reached.flowId slot) }
              (reached.flowFd slot) routed.backend source
              routed.entry.packets).flows
          dsimp only [flush] at hItem ⊢
          rw [hFlows]
          exact @FreshInitial.installed env dp initial
            datagram source answers item pending routed slot
            reached _ hInv hChosen hRoute hAcquire hItem

/-
  In every reachable state, whatever a fresh Initial makes
  the router queue goes to the route of the reassembled
  server name, on the flow of its source, which is then
  aimed at that backend.  Without a name or a route nothing
  is queued.  Any other reachable state that agrees on the
  configuration and the buffered Initials, and where the two
  ids have no usable alias either, chooses the same backend.
-/
theorem fresh_initial_follows_sni
    (datagram : Datagram)
    (source : Sockaddr)
    (answers : Answers)
    (hReach : Reachable env dp)
    (hFresh : FreshInitial env dp datagram.packet initial) :
    let event := Event.client datagram source answers
    let after := dp.step env event
    (∀ item ∈ dp.queuedBy env event,
      ∃ sni route slot flow,
        reassembledSni env dp.pending datagram.packet
            initial source datagram.now = .ok sni ∧
          dp.config.routes.lookup env.hash sni = some route ∧
          item.dest = route.backend ∧
          after.flows.get env.hash source = some slot ∧
          after.flows.flows slot = some flow ∧
          item.fd = flow.fd ∧
          flow.backend.equals route.backend = true) ∧
    ((∀ sni,
        reassembledSni env dp.pending datagram.packet
            initial source datagram.now = .ok sni →
          dp.config.routes.lookup env.hash sni = none) →
      dp.queuedBy env event = []) ∧
    (∀ other answers', Reachable env other →
      other.config = dp.config →
      other.pending = dp.pending →
      FreshInitial env other datagram.packet initial →
        other.chosenBackend env datagram.packet source
            datagram.now =
          dp.chosenBackend env datagram.packet source
            datagram.now ∧
        ∀ a ∈ dp.queuedBy env event,
          ∀ b ∈ other.queuedBy env
              (.client datagram source answers'),
            a.dest = b.dest) := by
  intro event after
  refine ⟨?_, ?_, ?_⟩
  · intro item hItem
    rcases hFresh.queued hReach.tables.flows hItem with
      ⟨sni, route, slot, flow, hSni, hLookup, _, hRest⟩
    exact ⟨sni, route, slot, flow, hSni, hLookup, hRest⟩
  · intro hNone
    by_contra hSome
    rcases List.exists_mem_of_ne_nil _ hSome with
      ⟨item, hItem⟩
    rcases hFresh.queued hReach.tables.flows hItem with
      ⟨sni, route, _, _, hSni, hLookup, _⟩
    rw [hNone sni hSni] at hLookup
    cases hLookup
  · intro other answers' hOther hConfig hPending hFresh'
    have hSame :
        other.chosenBackend env datagram.packet source
            datagram.now =
          dp.chosenBackend env datagram.packet source
            datagram.now := by
      rw [hFresh.chosen source datagram.now,
        hFresh'.chosen source datagram.now, hConfig,
        hPending]
    refine ⟨hSame, ?_⟩
    intro a ha b hb
    rcases hFresh.queued hReach.tables.flows ha with
      ⟨_, route, _, _, _, _, hChosen, hDest, _⟩
    rcases hFresh'.queued hOther.tables.flows hb with
      ⟨_, route', _, _, _, _, hChosen', hDest', _⟩
    rw [hSame, hChosen] at hChosen'
    rw [hDest, hDest', Option.some.inj hChosen']

end Dataplane

namespace Deployment

open Dataplane

/- The connection to server 2. -/
def connection2 : Connection where
  server := 2
  secret :=
    [92, 161, 106, 199, 8, 176, 89, 3, 83, 154, 203, 164,
     252, 64, 5, 54, 235, 123, 49, 144, 104, 116, 162, 19,
     144, 110, 63, 98, 195, 113, 208, 238]
  clientSecret :=
    [158, 1, 150, 102, 175, 165, 157, 150, 179, 24, 108, 98,
     129, 62, 149, 101, 57, 6, 49, 228, 145, 91, 115, 156,
     45, 73, 95, 135, 126, 17, 224, 169]
  key :=
    [242, 35, 203, 125, 205, 195, 217, 16, 70, 152, 184, 73,
     154, 0, 131, 133]
  iv :=
    [23, 58, 115, 143, 193, 95, 222, 173, 116, 50, 73, 43]
  hp :=
    [17, 27, 33, 163, 127, 51, 129, 45, 75, 154, 59, 228,
     177, 138, 243, 52]
  mask :=
    [163, 169, 93, 93, 209, 243, 43, 5, 246, 184, 61, 188,
     63, 26, 16, 125]
  ciphertext :=
    [241, 172, 223, 30, 61, 106, 251, 220, 32, 146, 162,
     132, 7, 182, 75, 81, 173, 91, 133, 112, 1, 65, 210,
     168, 5, 109, 21, 166, 142, 70, 233, 108, 185, 88, 124,
     191, 104, 62, 73, 127, 22, 66, 15, 243, 100, 136, 140,
     83, 161, 245, 159, 75, 38, 170, 137, 96, 177, 129, 175,
     206]
  tag :=
    [81, 201, 95, 31, 71, 58, 246, 4, 154, 19, 117, 246, 19,
     147, 165, 107]

/- The primitives on the inputs of these connections. -/
def handshakes
    (connections : List Connection) : Crypto where
  hkdfExtract := fun salt key =>
    (connections.find?
      (fun connection =>
        salt == Quic.quicV1InitialSalt &&
          key == connection.dcid)).map Connection.secret
  hkdfExpand := fun secret info _ =>
    connections.findSome?
      (fun connection => connection.expand secret info)
  aesEcb := fun key block =>
    (connections.find?
      (fun connection =>
        key == connection.hp &&
          block == connection.sample)).map Connection.mask
  aesGcmOpen := fun key nonce aad encrypted tag =>
    (connections.find?
      (fun connection =>
        key == connection.key && nonce == connection.iv &&
          aad == connection.header ++ [0] &&
          encrypted == connection.ciphertext &&
          tag == connection.tag)).map Connection.plaintext
  aesCtr := crypto.aesCtr

/- The deployment when these connections come in. -/
def envWith
    (connections : List Connection) : Env where
  hash := env.hash
  crypto := handshakes connections

/- Two servers, routed by server name only. -/
def byName : Dataplane :=
  okValue
    (booted
      { maxSessions := [56], servers := [1, 2]
        encoded := false })
    (by decide +kernel)

theorem reachable_byName
    (connections : List Connection) :
    Reachable (envWith connections) byName :=
  ReachableWhere.start ⟨_, _, _, eq_okValue _ _⟩

/- The datagram that opens a connection. -/
def opening
    (connection : Connection)
    (hSize : connection.packet.length = 1200) : Datagram where
  packet := connection.packet
  now := 0
  nonempty := by rw [hSize]; decide
  bounded := by rw [hSize]; decide

theorem connection1_size :
    connection1.packet.length = 1200 := by
  decide +kernel

theorem connection2_size :
    connection2.packet.length = 1200 := by
  decide +kernel

/- The first client's Initial to server 1. -/
def firstInitial : Event :=
  .client (opening connection1 connection1_size) (client 4)
    (opens 4)

/- The header of the recorded packet. -/
def firstHeader : Quic.Initial :=
  okValue (Quic.parseInitial connection1.packet)
    (by decide +kernel)

theorem firstInitial_fresh :
    FreshInitial (envWith [connection1]) byName
      connection1.packet firstHeader where
  codec := by decide +kernel
  size := by decide +kernel
  parsed := eq_okValue _ _
  noPair := by decide +kernel
  noDcid := by
    intro i hGet
    have hNone :
        byName.sessions.get (envWith [connection1]).hash
          (SessionKey.singleCidKey firstHeader.dcid) =
            none := by decide +kernel
    rw [hNone] at hGet
    cases hGet

/- It is sent, and where the route of its SNI points. -/
theorem first_initial_follows_sni :
    byName.queuedBy (envWith [connection1]) firstInitial ≠
      [] ∧
    ∀ item ∈
      byName.queuedBy (envWith [connection1]) firstInitial,
      ∃ sni route,
        byName.config.routes.lookup env.hash sni =
          some route ∧
        item.dest = route.backend := by
  refine ⟨by decide +kernel, ?_⟩
  intro item hItem
  rcases (fresh_initial_follows_sni _ _ _
      (reachable_byName [connection1])
      firstInitial_fresh).1 item hItem with
    ⟨sni, route, _, _, _, hLookup, hDest, _⟩
  exact ⟨sni, route, hLookup, hDest⟩

end Deployment

end QuicSniRouter
