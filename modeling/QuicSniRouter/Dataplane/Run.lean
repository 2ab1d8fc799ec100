import QuicSniRouter.Dataplane.Handlers

/-
  The dataplane as a transition system: the events of the
  main loop, the states they lead to, and the states that
  are reachable from a freshly started router.

  Main declarations:
    * `Dataplane.start`
    * `Event` and `Dataplane.step`
    * `Dataplane.Reachable`
    * `Dataplane.ReachableWhere` and `Dataplane.ReachedFrom`
    * `Dataplane.run_induction`
    * `Deployment`, a small router to run
-/

namespace QuicSniRouter

/- The share of flows, and their least number. -/
abbrev flowsPerSessionDivisor : Nat := 4
abbrev flowCapacityMin : Nat := 256

/- How many flows there are for so many sessions. -/
def flowCapacity
    (maxSessions : Nat) : Nat :=
  max (maxSessions / flowsPerSessionDivisor) flowCapacityMin

namespace Dataplane

/-
  The state in which the main loop begins: tables for the
  configured capacity, resolved routes, and one open
  descriptor, the listen socket.
-/
def start
    (hash : Bytes → Nat)
    (config : Config)
    (resolver : Resolver)
    (listen : Socket) :
    Except Status Dataplane := do
  let sessions ← SessionTable.init config.maxSessions
  let flows ← FlowTable.init (flowCapacity config.maxSessions)
  let routes ← config.routes.resolve hash resolver
  return {
    config := { config with routes }
    sessions, flows
    pending := PendingTable.init
    queue := []
    mainFd := listen.fd
    sockets := [listen]
    answers := { sockets := [], epollAdd := true, sends := [] }
    enqueued := []
    wire := [] }

/- Loading a configuration file and starting with it. -/
def boot
    (hash : Bytes → Nat)
    (file : ConfigFile)
    (resolver : Resolver)
    (listen : Socket) :
    Except Status Dataplane := do
  let config ← Config.load hash file
  start hash config resolver listen

/- A router started from a configuration file. -/
def Starts
    (env : Env)
    (dp : Dataplane) : Prop :=
  ∃ file resolver listen,
    boot env.hash file resolver listen = .ok dp

end Dataplane

/- A received datagram, as the drain loop hands it over. -/
structure Datagram where
  packet : Bytes
  now : Int
  nonempty : 1 ≤ packet.length
  bounded : packet.length ≤ maxDatagramSize

/- What the main loop reacts to. -/
inductive Event
  | client
      (datagram : Datagram)
      (source : Sockaddr)
      (answers : Answers)
  | backend
      (slot : Nat)
      (datagram : Datagram)
      (answers : Answers)
  | flush (answers : Answers)
  | sweep (now : Int)
  | reload (file : ConfigFile) (resolver : Resolver)

namespace Dataplane

variable {env : Env} {allowed : Dataplane → Event → Prop}
variable {dp : Dataplane}

/- The kernel's answers for the event at hand. -/
def withAnswers
    (dp : Dataplane)
    (answers : Answers) : Dataplane :=
  { dp with answers }

/- What an event does to the dataplane. -/
def step
    (env : Env)
    (dp : Dataplane) :
    Event → Dataplane
| .client datagram source answers =>
    (dp.withAnswers answers).handleClientPacket env
      datagram.packet source datagram.now
| .backend slot datagram answers =>
    (dp.withAnswers answers).handleBackendPacket env slot
      datagram.packet datagram.now
| .flush answers => (dp.withAnswers answers).flush
| .sweep now => dp.runExpirySweeps env now
| .reload file resolver =>
    dp.reloadFromPath env file resolver

/- The handlers behind the events. -/
theorem step_client
    (env : Env)
    (dp : Dataplane)
    (datagram : Datagram)
    (source : Sockaddr)
    (answers : Answers) :
    dp.step env (.client datagram source answers) =
      (dp.withAnswers answers).handleClientPacket env
        datagram.packet source datagram.now := rfl

theorem step_backend
    (env : Env)
    (dp : Dataplane)
    (slot : Nat)
    (datagram : Datagram)
    (answers : Answers) :
    dp.step env (.backend slot datagram answers) =
      (dp.withAnswers answers).handleBackendPacket env slot
        datagram.packet datagram.now := rfl

theorem step_reload
    (env : Env)
    (dp : Dataplane)
    (file : ConfigFile)
    (resolver : Resolver) :
    dp.step env (.reload file resolver) =
      dp.reloadFromPath env file resolver := rfl

/- One event after the other. -/
def run
    (env : Env)
    (dp : Dataplane)
    (events : List Event) : Dataplane :=
  events.foldl (step env) dp

/-
  States reached from a start by steps that all satisfy a
  condition.
-/
inductive ReachableWhere
    (env : Env)
    (allowed : Dataplane → Event → Prop) :
    Dataplane → Prop
  | start
      {dp : Dataplane}
      (hStart : Starts env dp) :
      ReachableWhere env allowed dp
  | step
      {dp : Dataplane}
      (event : Event)
      (hReach : ReachableWhere env allowed dp)
      (hAllowed : allowed dp event) :
      ReachableWhere env allowed (dp.step env event)

/- States reached by any events. -/
def Reachable
    (env : Env)
    (dp : Dataplane) : Prop :=
  ReachableWhere env (fun _ _ => True) dp

/- An invariant of starts and steps holds wherever they lead. -/
theorem ReachableWhere.induction
    {P : Dataplane → Prop}
    (hStart : ∀ dp, Starts env dp → P dp)
    (hStep :
      ∀ dp event, P dp → allowed dp event →
        P (dp.step env event))
    (hReach : ReachableWhere env allowed dp) :
    P dp := by
  induction hReach with
  | start hInit => exact hStart _ hInit
  | step event _ hAllowed ih =>
      exact hStep _ event ih hAllowed

/- States reached from a given one by allowed events. -/
inductive ReachedFrom
    (env : Env)
    (allowed : Dataplane → Event → Prop)
    (start : Dataplane) :
    Dataplane → Prop
  | refl : ReachedFrom env allowed start start
  | step
      {dp : Dataplane}
      (event : Event)
      (hReach : ReachedFrom env allowed start dp)
      (hAllowed : allowed dp event) :
      ReachedFrom env allowed start (dp.step env event)

theorem reachable_run
    (events : List Event)
    (hReach : Reachable env dp) :
    Reachable env (dp.run env events) := by
  induction events generalizing dp with
  | nil => exact hReach
  | cons event events ih =>
      exact ih (ReachableWhere.step event hReach trivial)

/- What holds along a run, together with its events. -/
theorem run_induction
    {env : Env}
    {dp : Dataplane}
    {P : List Event → Dataplane → Prop}
    (hStart : P [] dp)
    (hStep :
      ∀ events event, P events (dp.run env events) →
        P (events ++ [event])
          ((dp.run env events).step env event))
    (events : List Event) :
    P events (dp.run env events) := by
  induction events using List.reverseRecOn with
  | nil => exact hStart
  | append_singleton events event ih =>
      have hRun :
          dp.run env (events ++ [event]) =
            (dp.run env events).step env event := by
        simp [run]
      rw [hRun]
      exact hStep events event ih

end Dataplane

namespace Deployment

variable {α : Type}

/-
  A router with a few routes, with or without encoded
  connection ids under an all-zero key.  Server `n` is the
  host named by byte `n`; it resolves to 10.0.0.n, or to an
  IPv6 address if `n` is at least eight.
-/
structure Setup where
  maxSessions : Bytes
  servers : List UInt8
  encoded : Bool := true

/- An entry of a mapping. -/
def pair
    (key : Bytes)
    (value : YamlNode) : YamlNode × YamlNode :=
  (.scalar key, value)

/- The route of one server; its digits are ASCII. -/
def route
    (server : UInt8) : YamlNode × YamlNode :=
  pair [97 + server]
    (.mapping
      [pair [104, 111, 115, 116] (.scalar [server]),
        pair [112, 111, 114, 116] (.scalar [52, 52, 51]),
        pair [115, 101, 114, 118, 101, 114, 73, 100]
          (.scalar [48 + server])])

/- sessions, maxSessions -/
def sessionsSection
    (setup : Setup) : YamlNode × YamlNode :=
  pair [115, 101, 115, 115, 105, 111, 110, 115]
    (.mapping
      [pair [109, 97, 120, 83, 101, 115, 115, 105, 111, 110,
          115]
        (.scalar setup.maxSessions)])

/- cidEncoding, key -/
def cidEncodingSection : YamlNode × YamlNode :=
  pair [99, 105, 100, 69, 110, 99, 111, 100, 105, 110, 103]
    (.mapping
      [pair [107, 101, 121] (.scalar (List.replicate 32 48))])

/- routes -/
def routesSection
    (setup : Setup) : YamlNode × YamlNode :=
  pair [114, 111, 117, 116, 101, 115]
    (.mapping (setup.servers.map route))

/- The configuration file of a setup. -/
def file
    (setup : Setup) : ConfigFile :=
  .document (some (.mapping
    (sessionsSection setup ::
      (if setup.encoded then [cidEncodingSection]
        else []) ++
      [routesSection setup])))

/- An IPv4 address in network 10 with port 443. -/
def inet
    (host : UInt8) : Bytes :=
  [2, 0, 1, 187, 10, 0, 0, host] ++ List.replicate 8 0

/- An IPv6 address with port 443. -/
def inet6
    (host : UInt8) : Bytes :=
  [10, 0, 1, 187, 0, 0, 0, 0, 253] ++ List.replicate 14 0 ++
    [host, 0, 0, 0, 0]

/- Servers from the eighth on have IPv6 addresses. -/
def resolver : Resolver :=
  fun _ host _ =>
    let server := host.headD 0
    if server < 8 then some (inet server)
    else some (inet6 server)

/- A library that knows one stream of the zero key. -/
def crypto : Crypto where
  hkdfExtract := fun _ _ => none
  hkdfExpand := fun _ _ _ => none
  aesEcb := fun _ _ => none
  aesGcmOpen := fun _ _ _ _ _ => none
  aesCtr := fun key iv input =>
    if key = List.replicate cidKeyLen 0 ∧
        iv = CidCodec.buildIv
          (List.replicate cidNonceLen 0) then
      some (List.zipWith (· ^^^ ·) input CidCodec.keyStream)
    else
      none

/- Client tuples hash to their last address byte. -/
def env : Env where
  hash := fun bytes => (bytes.getD 10 0).toNat
  crypto := crypto

/- A client by its last byte. -/
def client
    (host : UInt8) : Sockaddr where
  storage :=
    SockaddrStorage.ofBytes
      ([2, 0, 195, 80, 192, 0, 2, host] ++ List.replicate 8 0)
  len := 16

/- The encoded connection id of a server. -/
def encodedCid
    (server : UInt8) : Bytes :=
  cidEncodedVersion :: List.replicate cidNonceLen 0 ++
    List.zipWith (· ^^^ ·) (server :: cidMagic)
      CidCodec.keyStream

/- A 0-RTT packet with an encoded destination id. -/
def zeroRtt
    (server : UInt8) : Bytes :=
  [0xd0, 0, 0, 0, 1, 16] ++ encodedCid server ++ [0, 0]

theorem zeroRtt_length
    (server : UInt8) :
    (zeroRtt server).length = 24 := rfl

/- A packet for a server, as it comes in. -/
def datagram
    (server : UInt8) : Datagram where
  packet := zeroRtt server
  now := 0
  nonempty := by rw [zeroRtt_length]; decide
  bounded := by rw [zeroRtt_length]; decide

/- The value of a computation that succeeds. -/
def okValue
    {α : Type} :
    (result : Except Status α) → result.isOk = true → α
| .ok a, _ => a
| .error _, h => by cases h

theorem eq_okValue
    (result : Except Status α)
    (hOk : result.isOk = true) :
    result = .ok (okValue result hOk) := by
  cases result with
  | ok a => rfl
  | error status => cases hOk

theorem eq_pair
    {β : Type}
    {result : α × β}
    {first : α}
    (hFirst : result.1 = first) :
    result = (first, result.2) := by
  rw [← hFirst]

/- The started router of a setup; only the hash matters. -/
def booted
    (setup : Setup) : Except Status Dataplane :=
  Dataplane.boot env.hash (file setup) resolver
    { fd := 3, family := afInet }

theorem starts_okValue
    (setup : Setup)
    (hOk : (booted setup).isOk = true) :
    Dataplane.Starts env (okValue (booted setup) hOk) :=
  ⟨_, _, _, eq_okValue _ hOk⟩

theorem reachable_okValue
    (setup : Setup)
    (hOk : (booted setup).isOk = true)
    (events : List Event) :
    Dataplane.Reachable env
      ((okValue (booted setup) hOk).run env events) :=
  Dataplane.reachable_run events
    (Dataplane.ReachableWhere.start
      (starts_okValue setup hOk))

/- A kernel that opens one socket under a given number. -/
def opens
    (fd : Nat) : Answers where
  sockets := [.opened fd]
  epollAdd := true
  sends := []

/- One server behind a session table of one slot. -/
def oneSlot : Dataplane :=
  okValue (booted { maxSessions := [49], servers := [1] })
    (by decide +kernel)

theorem reachable_oneSlot :
    Dataplane.Reachable env oneSlot :=
  reachable_okValue _ _ []

/- One server behind a session table of four slots. -/
def fourSlots : Dataplane :=
  okValue (booted { maxSessions := [52], servers := [1] })
    (by decide +kernel)

end Deployment

end QuicSniRouter
