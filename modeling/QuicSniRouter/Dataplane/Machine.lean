import QuicSniRouter.Dataplane.Receive

/-
  The dataplane over memory.  Payloads are not copied: a
  queued datagram is a pointer into a receive buffer or into
  a pending entry, and its bytes are read when the queue is
  flushed.  The main loop runs over the kernel's answers.

  Main declarations:
    * `Machine`
    * `Machine.handleClientPacket`
    * `Machine.handleBackendPacket`
    * `Machine.drainSocket`
    * `MainLoop.start` and `MainLoop.run`
-/

------------------------------------------------------------
-- Memory
------------------------------------------------------------

namespace QuicSniRouter

/- Where the bytes of a datagram are. -/
inductive Pointer
  | received (slot offset : Nat)
  | pending (cell index : Nat)
deriving DecidableEq, Repr

/- A part of a buffer. -/
structure Payload where
  pointer : Pointer
  len : Nat
deriving DecidableEq, Repr

/- A queued datagram; `origin` is as in `SendItem`. -/
structure BorrowedItem where
  payload : Payload
  dest : Sockaddr
  fd : Int
  origin : Option Sockaddr
deriving DecidableEq

/-
  What was read from the listen socket, or from the socket
  of the flow in a slot.
-/
inductive Delivery
  | client (source : Sockaddr) (packet : Bytes)
  | backend (slot : Nat) (packet : Bytes)
deriving DecidableEq

/- `flow` is the slot of a flow, or none for clients. -/
def Delivery.of
    (flow : Option Nat)
    (source : Sockaddr)
    (packet : Bytes) : Delivery :=
  match flow with
  | none => .client source packet
  | some slot => .backend slot packet

/-
  The queue of `dp` stays empty, the queue is `items`.
  `delivered` is not part of the source: it records what the
  kernel has delivered.
-/
structure Machine where
  dp : Dataplane
  items : List BorrowedItem
  buffers : Nat → Bytes
  delivered : List Delivery

namespace Machine

/- A packet array of a pending entry, zeros if unused. -/
def pendingPacket
    (m : Machine)
    (cell index : Nat) : Bytes :=
  match m.dp.pending.entries cell with
  | some entry => entry.packets.getD index []
  | none => []

/- What a payload points at, at this moment. -/
def bytes
    (m : Machine)
    (payload : Payload) : Bytes :=
  match payload.pointer with
  | .received slot offset =>
      ((m.buffers slot).drop offset).take payload.len
  | .pending cell index =>
      (m.pendingPacket cell index ++
        List.replicate payload.len 0).take payload.len

/- The item that a borrowed one stands for. -/
def load
    (m : Machine)
    (item : BorrowedItem) : SendItem where
  fd := item.fd
  packet := m.bytes item.payload
  dest := item.dest
  origin := item.origin

/- The queued pointers are followed now. -/
def flush
    (m : Machine) : Machine :=
  { m with
    dp :=
      { m.dp with queue := m.items.map m.load }.flush
    items := [] }

/- Queue an item; a full queue is flushed first. -/
def enqueue
    (m : Machine)
    (item : BorrowedItem) : Machine :=
  if item.payload.len > maxDatagramSize then
    m
  else
    let m :=
      if m.items.length ≥ udpBatchSize then m.flush else m
    { m with
      items := m.items ++ [item]
      dp :=
        { m.dp with
          enqueued := m.dp.enqueued ++ [m.load item] } }

/- What the dataplane does apart from the queue. -/
def withDp
    (m : Machine)
    (dp : Dataplane) : Machine :=
  { m with dp }

/- New answers of the operating system. -/
def withAnswers
    (m : Machine)
    (answers : Answers) : Machine :=
  m.withDp (m.dp.withAnswers answers)

/- Another session table. -/
def withSessions
    (m : Machine)
    (sessions : SessionTable) : Machine :=
  m.withDp { m.dp with sessions }

/- Another pending table. -/
def withPending
    (m : Machine)
    (pending : PendingTable) : Machine :=
  m.withDp { m.dp with pending }

/- The flow of a client, as on the dataplane. -/
def flowAcquire
    (env : Env)
    (m : Machine)
    (client backend : Sockaddr)
    (now : Int) :
    Option Nat × Machine :=
  let acquired :=
    m.dp.flowAcquire env client backend now
  (acquired.1, m.withDp acquired.2)

/- The sweeps, as on the dataplane. -/
def runExpirySweeps
    (env : Env)
    (m : Machine)
    (now : Int) : Machine :=
  m.withDp (m.dp.runExpirySweeps env now)

/- A reload, as on the dataplane. -/
def reloadFromPath
    (env : Env)
    (m : Machine)
    (file : ConfigFile)
    (resolver : Resolver) : Machine :=
  m.withDp (m.dp.reloadFromPath env file resolver)

/- A short packet over the flow of its client. -/
def fastPath
    (env : Env)
    (m : Machine)
    (payload : Payload)
    (source : Sockaddr)
    (now : Int) : Option Machine :=
  if !m.dp.config.cidCodec.enabled && payload.len > 0 &&
      !Quic.hasLongBit (m.bytes payload) then
    match m.dp.flows.get env.hash source with
    | some slot =>
        match m.dp.flows.flows slot with
        | some flow =>
            let m :=
              m.withDp
                (m.dp.setFlow slot
                  { flow with lastSeen := now })
            some (m.enqueue
              { payload
                dest := flow.backend
                fd := flow.fd
                origin := some source })
        | none => none
    | none => none
  else
    none

/- A packet over the session that was found. -/
def sessionPath
    (env : Env)
    (m : Machine)
    (session : Nat)
    (payload : Payload)
    (source : Sockaddr)
    (now : Int) : Machine :=
  let m := m.withSessions (m.dp.sessions.touch session now)
  let backend := m.dp.sessions.backendAt session
  match m.flowAcquire env source backend now with
  | (none, m) => m
  | (some slot, m) =>
      let m :=
        m.withSessions
          (learnClientLongHeaderCids env.hash m.dp.sessions
            (m.bytes payload) (.slot session) backend.len
            now slot (m.dp.flowId slot))
      m.enqueue
        { payload
          dest := m.dp.sessions.backendAt session
          fd := m.dp.flowFd slot
          origin := some source }

/- The packets of a pending entry, where they are. -/
def pendingPayloads
    (m : Machine)
    (cell : Nat) : List Payload :=
  match m.dp.pending.entries cell with
  | some entry =>
      entry.packets.zipIdx.map
        (fun packet =>
          { pointer := .pending cell packet.2
            len := packet.1.length })
  | none => []

/- Queue payloads in turn. -/
def enqueueAll
    (m : Machine)
    (fd : Int)
    (dest source : Sockaddr)
    (payloads : List Payload) : Machine :=
  payloads.foldl
    (fun m payload =>
      m.enqueue
        { payload, dest, fd, origin := some source })
    m

/- Forwarding what is buffered, once the backend is known. -/
def forwardRouted
    (env : Env)
    (m : Machine)
    (routed : RoutedInitial)
    (packet : Bytes)
    (source : Sockaddr)
    (now : Int) : Machine :=
  let backend := routed.backend
  match m.flowAcquire env source backend now with
  | (none, m) => m
  | (some slot, m) =>
      match m.dp.sessions.putOwned env.hash
          (SessionKey.tupleKey source)
          (.addr backend.storage) backend.len now slot
          (m.dp.flowId slot) with
      | (.ok, sessions) =>
          let sessions :=
            Dataplane.installRoute env sessions packet
              routed.entry.cidKey backend now slot
              (m.dp.flowId slot)
          let m := m.withSessions sessions
          let m :=
            m.enqueueAll (m.dp.flowFd slot) backend source
              (m.pendingPayloads routed.cell)
          -- The queue points into the entry until now.
          let m := m.flush
          m.withPending (m.dp.pending.remove routed.cell)
      | (_, sessions) => m.withSessions sessions

/- A packet that no session was found for. -/
def freshPath
    (env : Env)
    (m : Machine)
    (payload : Payload)
    (source : Sockaddr)
    (now : Int) : Machine :=
  let packet := m.bytes payload
  if payload.len < minInitialDatagramSize then
    m
  else
    match Quic.parseInitial packet with
    | .error _ => m
    | .ok initial =>
        match routeInitialDatagram env m.dp.config
            m.dp.pending packet initial source now with
        | (pending, .error _) => m.withPending pending
        | (pending, .ok routed) =>
            (m.withPending pending).forwardRouted env routed
              packet source now

/- A datagram on the main socket. -/
def handleClientPacket
    (env : Env)
    (m : Machine)
    (payload : Payload)
    (source : Sockaddr)
    (now : Int) : Machine :=
  match m.fastPath env payload source now with
  | some m => m
  | none =>
      match selectSession env m.dp.config m.dp.sessions
          (m.bytes payload) source now with
      | (some session, sessions) =>
          (m.withSessions sessions).sessionPath env session
            payload source now
      | (none, sessions) =>
          (m.withSessions sessions).freshPath env payload
            source now

/- What a pointer to an unused slot reads. -/
def clearedFlow : Flow where
  fd := -1
  client := Sockaddr.zero
  backend := Sockaddr.zero
  lastSeen := 0
  id := 0

/-
  The caller's pointer to the flow is its slot.  Writing to
  an unused slot does not make a flow.
-/
def handleBackendPacket
    (env : Env)
    (m : Machine)
    (slot : Nat)
    (payload : Payload)
    (now : Int) : Machine :=
  let flow := (m.dp.flows.flows slot).getD clearedFlow
  let m :=
    match m.dp.flows.flows slot with
    | some flow =>
        m.withDp
          (m.dp.setFlow slot { flow with lastSeen := now })
    | none => m
  let m :=
    m.withSessions
      (learnBackendScid env.hash m.dp.sessions
        (m.bytes payload) (.addr flow.backend.storage)
        flow.backend.len now slot flow.id)
  m.enqueue
    { payload
      dest := flow.client
      fd := m.dp.mainFd
      origin := none }

end Machine

------------------------------------------------------------
-- Receiving
------------------------------------------------------------

/- How often one event reads its socket. -/
abbrev recvRoundsPerEvent : Nat := 4

/-
  What one `recvmmsg` call returns.  A filled batch comes
  with the time of its processing and the kernel's answers
  while each datagram is handled, by message and segment,
  and while the queue is flushed.
-/
inductive RecvResult
  | interrupted
  | failed
  | received
      (messages : List RecvMessage)
      (now : Int)
      (answers : Nat → Nat → Answers)
      (flushed : Answers)

namespace Machine

/- The datagrams of a batch, as the kernel delivered them. -/
def deliveries
    (flow : Option Nat)
    (messages : List RecvMessage) : List Delivery :=
  messages.flatMap
    (fun message =>
      message.datagrams.map (Delivery.of flow message.source))

/- The kernel writes each message over its buffer. -/
def receive
    (m : Machine)
    (flow : Option Nat)
    (messages : List RecvMessage) : Machine :=
  { m with
    buffers := fun slot =>
      match messages[slot]? with
      | some message =>
          message.payload ++ (m.buffers slot).drop message.len
      | none => m.buffers slot
    delivered := m.delivered ++ deliveries flow messages }

/- A datagram, from the socket that it came on. -/
def handlePacket
    (env : Env)
    (m : Machine)
    (flow : Option Nat)
    (payload : Payload)
    (source : Sockaddr)
    (now : Int) : Machine :=
  match flow with
  | none => m.handleClientPacket env payload source now
  | some slot => m.handleBackendPacket env slot payload now

/- The datagrams of one received message. -/
def handleMessage
    (env : Env)
    (flow : Option Nat)
    (now : Int)
    (slot : Nat)
    (message : RecvMessage)
    (answers : Nat → Answers)
    (m : Machine) : Machine :=
  message.segments.zipIdx.foldl
    (fun m segment =>
      (m.withAnswers (answers segment.2)).handlePacket env
        flow
        { pointer := .received slot segment.1.1
          len := segment.1.2 }
        message.source now)
    m

/- All that one call has received. -/
def handleBatch
    (env : Env)
    (flow : Option Nat)
    (messages : List RecvMessage)
    (now : Int)
    (answers : Nat → Nat → Answers)
    (m : Machine) : Machine :=
  messages.zipIdx.foldl
    (fun m message =>
      m.handleMessage env flow now message.2 message.1
        (answers message.2))
    m

/- A short batch means that the socket is drained. -/
def drainRounds
    (env : Env)
    (flow : Option Nat) :
    Nat → List RecvResult → Machine → Machine
| 0, _, m => m
| _ + 1, [], m => m
| rounds + 1, .interrupted :: results, m =>
    drainRounds env flow rounds results m
| _ + 1, .failed :: _, m => m
| rounds + 1,
    .received messages now answers flushed :: results, m =>
    let m :=
      (m.receive flow messages).handleBatch env flow
        messages now answers
    let m := (m.withAnswers flushed).flush
    if messages.length < udpBatchSize then
      m
    else
      drainRounds env flow rounds results m

/- What one event of a socket brings. -/
def drainSocket
    (env : Env)
    (m : Machine)
    (flow : Option Nat)
    (results : List RecvResult) : Machine :=
  drainRounds env flow recvRoundsPerEvent results m

end Machine

------------------------------------------------------------
-- The Main Loop
------------------------------------------------------------

/- Event tags, and the seconds between sweeps. -/
abbrev epollDataMain : Nat := 2 ^ 64 - 1
abbrev epollDataInotify : Nat := 2 ^ 64 - 2
abbrev expireSweepIntervalSeconds : Int := 1

/- The slot of an event is looked up when it is handled. -/
def Machine.dispatch
    (env : Env)
    (m : Machine)
    (tag : Nat)
    (results : List RecvResult) : Machine :=
  if tag = epollDataMain then
    m.drainSocket env none results
  else if tag = epollDataInotify then
    m
  else
    match m.dp.flows.slot tag with
    | some _ => m.drainSocket env (some tag) results
    | none => m

/- Whether any event was read before the queue was empty. -/
def drainInotify
    (any : Bool) :
    List Int → Bool
| [] => any
| n :: reads => if n > 0 then drainInotify true reads else any

/-
  What the kernel answers during one turn: the reads from
  inotify and the configuration file then found, and what
  `epoll_wait` reports, each event with the answers of the
  `recvmmsg` calls that it may lead to.
-/
structure Poll where
  reads : List Int
  file : ConfigFile
  resolver : Resolver

/- What the wait for events can answer. -/
inductive Wait
  | interrupted
  | failed
  | ready
      (events : List (Nat × List RecvResult))
      (flushed : Answers)
      (now : Int)

/- One turn of the loop, by what it is answered. -/
structure Turn where
  poll : Poll
  wait : Wait

/- `watching`: there is a path and an inotify descriptor. -/
structure MainLoop where
  machine : Machine
  watching : Bool
  lastExpire : Int

namespace MainLoop

/- The buffers come from the allocator. -/
def start
    (dp : Dataplane)
    (buffers : Nat → Bytes)
    (watching : Bool)
    (now : Int) : MainLoop where
  machine := { dp, items := [], buffers, delivered := [] }
  watching
  lastExpire := now

/- A reload at a change of the file. -/
def runtimePoll
    (env : Env)
    (l : MainLoop)
    (poll : Poll) : MainLoop :=
  if l.watching && drainInotify false poll.reads then
    { l with
      machine :=
        l.machine.reloadFromPath env poll.file poll.resolver }
  else
    l

/- The events of a wakeup, the flush, and a sweep if due. -/
def wakeup
    (env : Env)
    (l : MainLoop)
    (events : List (Nat × List RecvResult))
    (flushed : Answers)
    (now : Int) : MainLoop :=
  let m :=
    events.foldl
      (fun m event => m.dispatch env event.1 event.2)
      l.machine
  let m := (m.withAnswers flushed).flush
  if now - l.lastExpire ≥ expireSweepIntervalSeconds then
    { l with
      machine := m.runExpirySweeps env now
      lastExpire := now }
  else
    { l with machine := m }

/- Whether the loop goes on, and its state. -/
def turn
    (env : Env)
    (l : MainLoop)
    (turn : Turn) : Bool × MainLoop :=
  let l := l.runtimePoll env turn.poll
  match turn.wait with
  | .interrupted => (true, l)
  | .failed => (false, l)
  | .ready events flushed now =>
      (true, l.wakeup env events flushed now)

/- Turns until a signal asks to stop or a wait fails. -/
def run
    (env : Env) :
    MainLoop → List Turn → MainLoop
| l, [] => l
| l, turn :: turns =>
    match l.turn env turn with
    | (true, l) => run env l turns
    | (false, l) => l

end MainLoop

end QuicSniRouter
