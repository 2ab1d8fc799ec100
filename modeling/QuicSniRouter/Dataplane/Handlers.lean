import QuicSniRouter.Dataplane.State

/-
  Packet handling: classification of client datagrams,
  learning of connection ids, forwarding in both directions,
  expiry sweeps and hot reload.

  Main declarations:
    * `selectSession`
    * `Dataplane.handleClientPacket`
    * `Dataplane.handleBackendPacket`
    * `Dataplane.runExpirySweeps`
    * `Dataplane.reloadFromPath`
-/

------------------------------------------------------------
-- Learning Aliases
------------------------------------------------------------

namespace QuicSniRouter

open SessionKey Quic

/- Insert an alias owned by a flow. -/
def putAlias
    (hash : Bytes → Nat)
    (sessions : SessionTable)
    (key : SessionKey)
    (dest : BackendRef)
    (destLen : Nat)
    (now : Int)
    (ownerSlot ownerFlowId : Nat) : SessionTable :=
  if key.hasCids || key.hasTuple then
    (sessions.putOwned hash key dest destLen now ownerSlot
      ownerFlowId).2
  else
    sessions

/- The long header of a packet that may carry new ids. -/
def learnableHeader
    (packet : Bytes) : Option Quic.LongHeader :=
  if packet.length = 0 ∨ !hasLongBit packet ∨
      !hasFixedBit packet then
    none
  else
    (parseLongHeader packet).toOption

/-
  The destination id and the pair of ids of a client's long
  header become aliases.  The backend is a reference: both
  insertions read it when they write.
-/
def learnClientLongHeaderCids
    (hash : Bytes → Nat)
    (sessions : SessionTable)
    (packet : Bytes)
    (backend : BackendRef)
    (backendLen : Nat)
    (now : Int)
    (ownerSlot ownerFlowId : Nat) : SessionTable :=
  match learnableHeader packet with
  | none => sessions
  | some header =>
      let dcidKey := singleCidKey header.dcid
      let pairKey :=
        cidKey header.dcid header.scid
      let sessions :=
        putAlias hash sessions dcidKey backend backendLen
          now ownerSlot ownerFlowId
      putAlias hash sessions pairKey backend backendLen now
        ownerSlot ownerFlowId

/- The server-chosen source id becomes an alias. -/
def learnBackendScid
    (hash : Bytes → Nat)
    (sessions : SessionTable)
    (packet : Bytes)
    (backend : BackendRef)
    (backendLen : Nat)
    (now : Int)
    (ownerSlot ownerFlowId : Nat) : SessionTable :=
  match learnableHeader packet with
  | none => sessions
  | some header =>
      putAlias hash sessions
        (singleCidKey header.scid) backend
        backendLen now ownerSlot ownerFlowId

/- The destination id alias, if its backend is configured. -/
def lookupLongHeaderRequestDcid
    (hash : Bytes → Nat)
    (config : Config)
    (sessions : SessionTable)
    (initial : Quic.Initial) : Option Nat :=
  match sessions.get hash (singleCidKey initial.dcid) with
  | some i =>
      if config.routes.hasBackend hash
          (sessions.backendAt i) then
        some i
      else
        none
  | none => none

/- Whether some stored alias may have an id of this length. -/
def lengthLearned
    (mask len : Nat) : Bool :=
  mask == 0 || mask &&& (1 <<< len) != 0

/- Try the ids of a short header from `len` bytes down. -/
def shortHeaderCidFrom
    (hash : Bytes → Nat)
    (sessions : SessionTable)
    (packet : Bytes) :
    Nat → Option Nat
| 0 => none
| len + 1 =>
    if len + 1 < minLearnedCidLen then
      none
    else if lengthLearned sessions.cidLenMask (len + 1) then
      match sessions.get hash
          (singleCidKey ((packet.drop 1).take (len + 1))) with
      | some i => some i
      | none => shortHeaderCidFrom hash sessions packet len
    else
      shortHeaderCidFrom hash sessions packet len

/- The session whose learned id a short header has. -/
def lookupShortHeaderCid
    (hash : Bytes → Nat)
    (sessions : SessionTable)
    (packet : Bytes) : Option Nat :=
  if packet.length < 1 + minLearnedCidLen ∨
      hasLongBit packet ∨
      !hasFixedBit packet then
    none
  else
    shortHeaderCidFrom hash sessions packet
      (min (packet.length - 1) maxQuicCidLen)

/- The session of the destination id. -/
def lookupLongHeaderDcid
    (hash : Bytes → Nat)
    (sessions : SessionTable)
    (packet : Bytes) : Option Nat :=
  let version := versionOf packet
  let dcidLen := (byteAt packet 5).toNat
  if packet.length < 7 ∨ !hasLongBit packet ∨
      !hasFixedBit packet then
    none
  else if version ≠ quicV1 ∧ version ≠ quicV2 then
    none
  else if dcidLen < minLearnedCidLen ∨
      dcidLen > maxQuicCidLen ∨
      6 + dcidLen ≥ packet.length then
    none
  else
    sessions.get hash
      (singleCidKey ((packet.drop 6).take dcidLen))

/- Point a client to the backend of a session. -/
def bindClientTuple
    (hash : Bytes → Nat)
    (sessions : SessionTable)
    (tupleKey : SessionKey)
    (backend : Sockaddr)
    (now : Int) : SessionTable :=
  (sessions.put hash tupleKey (.addr backend.storage)
    backend.len now).2

/- The server id inside an encoded destination id. -/
def tryDecodeDcidServerId
    (crypto : Crypto)
    (codec : CidCodec)
    (packet : Bytes) :
    Except Status UInt8 :=
  if !codec.enabled || packet.length < 1 then
    .error .invalid
  else if hasLongBit packet then
    let dcidLen := (byteAt packet 5).toNat
    if !hasFixedBit packet || packet.length < 7 then
      .error .invalid
    else if dcidLen ≠ cidEncodedLen ∨
        6 + dcidLen > packet.length then
      .error .invalid
    else
      codec.decode crypto ((packet.drop 6).take dcidLen)
  else if !hasFixedBit packet ||
      packet.length < 1 + cidEncodedLen then
    .error .invalid
  else
    codec.decode crypto ((packet.drop 1).take cidEncodedLen)

/- The resolved route of an encoded destination id. -/
def encodedRoute
    (crypto : Crypto)
    (config : Config)
    (packet : Bytes) : Option Route :=
  if !config.cidCodec.enabled then
    none
  else
    match tryDecodeDcidServerId crypto config.cidCodec
        packet with
    | .error _ => none
    | .ok serverId =>
        (config.routes.lookupByServerId serverId).filter
          Route.backendResolved

/- Bind the tuple to the decoded route and look it up. -/
def lookupEncodedCid
    (env : Env)
    (config : Config)
    (sessions : SessionTable)
    (packet : Bytes)
    (tupleKey : SessionKey)
    (now : Int) :
    Option Nat × SessionTable :=
  match encodedRoute env.crypto config packet with
  | none => (none, sessions)
  | some route =>
      let sessions :=
        bindClientTuple env.hash sessions tupleKey
          route.backend now
      (sessions.get env.hash tupleKey, sessions)

/- An alias's backend, copied, becomes the tuple's. -/
def rebind
    (hash : Bytes → Nat)
    (sessions : SessionTable)
    (tupleKey : SessionKey)
    (cidSession : Nat)
    (now : Int) :
    Option Nat × SessionTable :=
  let sessions :=
    bindClientTuple hash sessions tupleKey
      (sessions.backendAt cidSession) now
  (sessions.get hash tupleKey, sessions)

/- Pair alias first, then the destination id alias. -/
def selectInitial
    (hash : Bytes → Nat)
    (config : Config)
    (sessions : SessionTable)
    (initial : Quic.Initial) : Option Nat :=
  match sessions.get hash
      (cidKey initial.dcid initial.scid) with
  | some i => some i
  | none =>
      lookupLongHeaderRequestDcid hash config sessions initial

/- Rebinding by the destination id of a long header. -/
def rebindLong
    (hash : Bytes → Nat)
    (config : Config)
    (sessions : SessionTable)
    (packet : Bytes)
    (tupleKey : SessionKey)
    (now : Int) :
    Option Nat × SessionTable :=
  match lookupLongHeaderDcid hash sessions packet with
  | some cidSession =>
      if config.routes.hasBackend hash
          (sessions.backendAt cidSession) then
        rebind hash sessions tupleKey cidSession now
      else
        (none, sessions)
  | none => (none, sessions)

/- Rebinding by short header, then by long header. -/
def rebindAny
    (hash : Bytes → Nat)
    (config : Config)
    (sessions : SessionTable)
    (packet : Bytes)
    (tupleKey : SessionKey)
    (now : Int) :
    Option Nat × SessionTable :=
  match lookupShortHeaderCid hash sessions packet with
  | some cidSession =>
      match rebind hash sessions tupleKey cidSession now with
      | (some i, sessions) => (some i, sessions)
      | (none, sessions) =>
          rebindLong hash config sessions packet tupleKey now
  | none =>
      rebindLong hash config sessions packet tupleKey now

/-
  The session of a client datagram.  An Initial replaces
  whatever the encoded id has found; other packets keep it,
  and else go by tuple and then by learned ids.
-/
def selectSession
    (env : Env)
    (config : Config)
    (sessions : SessionTable)
    (packet : Bytes)
    (source : Sockaddr)
    (now : Int) :
    Option Nat × SessionTable :=
  let tupleKey := tupleKey source
  match lookupEncodedCid env config sessions packet tupleKey
      now with
  | (session, sessions) =>
      match parseInitial packet with
      | .ok initial =>
          (selectInitial env.hash config sessions initial,
            sessions)
      | .error _ =>
          match session with
          | some i => (some i, sessions)
          | none =>
              match sessions.get env.hash tupleKey with
              | some i => (some i, sessions)
              | none =>
                  rebindAny env.hash config sessions packet
                    tupleKey now

------------------------------------------------------------
-- The Two Directions
------------------------------------------------------------

namespace Dataplane

/- The descriptor of a flow; unused slots hold none. -/
def flowFd
    (dp : Dataplane)
    (slot : Nat) : Int :=
  match dp.flows.flows slot with
  | some flow => flow.fd
  | none => -1

/- The generation of the flow in a slot. -/
def flowId
    (dp : Dataplane)
    (slot : Nat) : Nat :=
  match dp.flows.flows slot with
  | some flow => flow.id
  | none => 0

/- Overwrite the flow of a slot. -/
def setFlow
    (dp : Dataplane)
    (slot : Nat)
    (flow : Flow) : Dataplane :=
  { dp with
    flows :=
      { dp.flows with
        flows := LinearProbing.fill dp.flows.flows slot flow } }

/- Established short-header traffic follows its flow. -/
def fastPath
    (env : Env)
    (dp : Dataplane)
    (packet : Bytes)
    (source : Sockaddr)
    (now : Int) : Option Dataplane :=
  if !dp.config.cidCodec.enabled && packet.length > 0 &&
      !hasLongBit packet then
    match dp.flows.get env.hash source with
    | some slot =>
        match dp.flows.flows slot with
        | some flow =>
            let dp :=
              dp.setFlow slot { flow with lastSeen := now }
            some (dp.enqueue
              { fd := flow.fd
                packet
                dest := flow.backend
                origin := some source })
        | none => none
    | none => none
  else
    none

/-
  Forwarding by a session entry.  The entry is held as its
  slot: learning gets a reference into it, and the
  destination is read from it again afterwards.
-/
def sessionPath
    (env : Env)
    (dp : Dataplane)
    (session : Nat)
    (packet : Bytes)
    (source : Sockaddr)
    (now : Int) : Dataplane :=
  let dp :=
    { dp with sessions := dp.sessions.touch session now }
  let backend := dp.sessions.backendAt session
  match dp.flowAcquire env source backend now with
  | (none, dp) => dp
  | (some slot, dp) =>
      let sessions :=
        learnClientLongHeaderCids env.hash dp.sessions
          packet (.slot session) backend.len now slot
          (dp.flowId slot)
      let dp := { dp with sessions }
      dp.enqueue
        { fd := dp.flowFd slot
          packet
          dest := dp.sessions.backendAt session
          origin := some source }

/- Queue the packets of a routed connection. -/
def enqueueAll
    (dp : Dataplane)
    (fd : Int)
    (dest source : Sockaddr)
    (packets : List Bytes) : Dataplane :=
  packets.foldl
    (fun dp packet =>
      dp.enqueue
        { fd, packet, dest, origin := some source })
    dp

/- The session state of a routed connection. -/
def installRoute
    (env : Env)
    (sessions : SessionTable)
    (packet : Bytes)
    (cidKey : SessionKey)
    (backend : Sockaddr)
    (now : Int)
    (slot flowId : Nat) : SessionTable :=
  let sessions :=
    putAlias env.hash sessions cidKey
      (.addr backend.storage) backend.len now slot flowId
  learnClientLongHeaderCids env.hash sessions packet
    (.addr backend.storage) backend.len now slot flowId

/-
  A connection that no session knows: only an Initial of
  full size is looked at, and only its SNI decides.
-/
def freshPath
    (env : Env)
    (dp : Dataplane)
    (packet : Bytes)
    (source : Sockaddr)
    (now : Int) : Dataplane :=
  if packet.length < minInitialDatagramSize then
    dp
  else
    match parseInitial packet with
    | .error _ => dp
    | .ok initial =>
        match routeInitialDatagram env dp.config dp.pending
            packet initial source now with
        | (pending, .error _) => { dp with pending }
        | (pending, .ok routed) =>
            let dp := { dp with pending }
            let backend := routed.backend
            match dp.flowAcquire env source backend now with
            | (none, dp) => dp
            | (some slot, dp) =>
                match dp.sessions.putOwned env.hash
                    (tupleKey source)
                    (.addr backend.storage) backend.len now
                    slot (dp.flowId slot) with
                | (.ok, sessions) =>
                    let sessions :=
                      installRoute env sessions packet
                        routed.entry.cidKey backend now slot
                        (dp.flowId slot)
                    let dp := { dp with sessions }
                    let dp :=
                      dp.enqueueAll (dp.flowFd slot) backend
                        source routed.entry.packets
                    let dp := dp.flush
                    { dp with
                      pending :=
                        dp.pending.remove routed.cell }
                | (_, sessions) => { dp with sessions }

/- Every datagram that arrives on the listen socket. -/
def handleClientPacket
    (env : Env)
    (dp : Dataplane)
    (packet : Bytes)
    (source : Sockaddr)
    (now : Int) : Dataplane :=
  match dp.fastPath env packet source now with
  | some dp => dp
  | none =>
      match selectSession env dp.config dp.sessions packet
          source now with
      | (some session, sessions) =>
          sessionPath env { dp with sessions } session
            packet source now
      | (none, sessions) =>
          freshPath env { dp with sessions } packet source now

/- A datagram that arrives on the socket of a flow. -/
def handleBackendPacket
    (env : Env)
    (dp : Dataplane)
    (slot : Nat)
    (packet : Bytes)
    (now : Int) : Dataplane :=
  match dp.flows.slot slot with
  | none => dp
  | some flow =>
      let dp := dp.setFlow slot { flow with lastSeen := now }
      let sessions :=
        learnBackendScid env.hash dp.sessions packet
          (.addr flow.backend.storage) flow.backend.len now
          slot flow.id
      let dp := { dp with sessions }
      dp.enqueue
        { fd := dp.mainFd
          packet
          dest := flow.client
          origin := none }

end Dataplane

/- How much one incremental sweep may scan. -/
abbrev sessionExpireMinScan : Nat := 1024
abbrev sessionExpireMaxScan : Nat := 16384

/- A sixtieth of a table, within bounds. -/
def expireScanBudget
    (capacity : Nat) : Nat :=
  min (max (capacity / 60) sessionExpireMinScan)
    sessionExpireMaxScan

/-
  An idle entry is kept while its flow is active: the owning
  flow if it has one, else the flow of its tuple.
-/
def sessionKeepalive
    (hash : Bytes → Nat)
    (flows : FlowTable)
    (now idleTimeoutSeconds : Int)
    (session : Session) : Bool :=
  let flow :=
    if session.ownerFlowId ≠ 0 then
      (flows.slot session.ownerSlot).filter
        (fun flow => flow.id == session.ownerFlowId)
    else if session.key.hasTuple && !session.key.hasCids then
      (flows.get hash session.key.client).bind flows.flows
    else
      none
  match flow with
  | some flow =>
      now - flow.lastSeen < idleTimeoutSeconds
  | none => false

/- Pinned to a backend that a reload takes away. -/
def shouldEvictOnReload
    (hash : Bytes → Nat)
    (oldRoutes newRoutes : RouteTable)
    (backend : Sockaddr) : Bool :=
  oldRoutes.hasBackend hash backend &&
    !newRoutes.hasBackend hash backend

namespace Dataplane

/- The sweeps of both tables. -/
def runExpirySweeps
    (env : Env)
    (dp : Dataplane)
    (now : Int) : Dataplane :=
  let idle : Int := dp.config.idleTimeoutSeconds
  let sessions :=
    (dp.sessions.expireIncremental env.hash now idle
      (expireScanBudget dp.sessions.capacity)
      (sessionKeepalive env.hash dp.flows now idle)).2
  let dp :=
    { dp with sessions }.withFlows
      (dp.flows.expireIncremental env.hash now idle
        (expireScanBudget dp.flows.capacity)).2
  { dp with pending := dp.pending.expire now }

/- The configuration file, loaded and resolved. -/
def loadResolved
    (hash : Bytes → Nat)
    (file : ConfigFile)
    (resolver : Resolver) :
    Except Status Config := do
  let config ← Config.load hash file
  let routes ← config.routes.resolve hash resolver
  return { config with routes }

/-
  Hot reload.  Sessions and flows of backends that are gone
  are dropped, then the new settings take over; listen
  address and table sizes need a restart.
-/
def reloadFromPath
    (env : Env)
    (dp : Dataplane)
    (file : ConfigFile)
    (resolver : Resolver) : Dataplane :=
  match loadResolved env.hash file resolver with
  | .error _ => dp
  | .ok config =>
      let gone :=
        shouldEvictOnReload env.hash dp.config.routes
          config.routes
      let sessions :=
        (dp.sessions.evictIf env.hash
          (fun session => gone session.backend)).2
      let dp :=
        { dp with sessions }.withFlows
          (dp.flows.evictIf env.hash
            (fun flow => gone flow.backend)).2
      { dp with
        config :=
          { dp.config with
            routes := config.routes
            idleTimeoutSeconds := config.idleTimeoutSeconds
            cidCodec := config.cidCodec
            logConnections := config.logConnections } }

end Dataplane

end QuicSniRouter
