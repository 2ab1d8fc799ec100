import QuicSniRouter.Dataplane.Pending
import QuicSniRouter.FlowTable.Basic

/-
  The state of the dataplane and the operations on its send
  queue and sockets.  The kernel's answers to `socket`,
  `epoll_ctl` and `sendmmsg` come with each event.  The open
  descriptors are part of the state: `socket` may return any
  number that is not open.

  Main declarations:
    * `Dataplane`
    * `Dataplane.enqueue` and `Dataplane.flush`
    * `Dataplane.flowAcquire`
-/

namespace QuicSniRouter

/- How many items one batch holds. -/
abbrev udpBatchSize : Nat := 64

/-
  A queued datagram.  `origin` is not part of the source: it
  records the client for which a datagram goes upstream.
-/
structure SendItem where
  fd : Int
  packet : Bytes
  dest : Sockaddr
  origin : Option Sockaddr
deriving DecidableEq

/- What one `sendmmsg` call returns. -/
inductive SendResult
  | sent (n : Nat)
  | interrupted
  | failed
deriving DecidableEq, Repr

/-
  One run of items of equal descriptor: what is sent, and
  the answers that are left.  A failure drops the rest.
-/
def sendRun :
    List SendResult → List SendItem →
      List SendItem × List SendResult
| results, [] => ([], results)
| [], _ => ([], [])
| .interrupted :: results, run => sendRun results run
| .failed :: results, _ => ([], results)
| .sent n :: results, run =>
    if n = 0 then
      ([], results)
    else
      let rest := sendRun results (run.drop n)
      (run.take n ++ rest.1, rest.2)

/- Split the queue into runs of consecutive descriptors. -/
def sendRuns :
    Nat → List SendResult → List SendItem →
      List SendItem × List SendResult
| 0, results, _ => ([], results)
| _ + 1, results, [] => ([], results)
| fuel + 1, results, item :: items =>
    let sameFd := fun other : SendItem => other.fd == item.fd
    let first :=
      sendRun results (item :: items.takeWhile sameFd)
    let rest :=
      sendRuns fuel first.2 (items.dropWhile sameFd)
    (first.1 ++ rest.1, rest.2)

/- What one `socket` call returns. -/
inductive SocketResult
  | opened (fd : Nat)
  | exhausted
  | failed
deriving DecidableEq, Repr

/- The kernel's answers during one event. -/
structure Answers where
  sockets : List SocketResult
  epollAdd : Bool
  sends : List SendResult

/- An open descriptor and the family it was opened with. -/
structure Socket where
  fd : Int
  family : Nat
deriving DecidableEq, Repr

/- A datagram handed to the kernel, with the flows then. -/
structure Transmission where
  item : SendItem
  flows : FlowTable

/-
  `enqueued` and `wire` are not part of the source: they
  record all datagrams that were queued and sent.
-/
structure Dataplane where
  config : Config
  sessions : SessionTable
  flows : FlowTable
  pending : PendingTable
  queue : List SendItem
  mainFd : Int
  sockets : List Socket
  answers : Answers
  enqueued : List SendItem
  wire : List Transmission

namespace Dataplane

/- Send what is queued. -/
def flush
    (dp : Dataplane) : Dataplane :=
  let sent :=
    sendRuns dp.queue.length dp.answers.sends dp.queue
  { dp with
    queue := []
    answers := { dp.answers with sends := sent.2 }
    wire :=
      dp.wire ++ sent.1.map
        (fun item => { item, flows := dp.flows }) }

/- Queue an item; a full queue is flushed first. -/
def enqueue
    (dp : Dataplane)
    (item : SendItem) : Dataplane :=
  if item.packet.length > maxDatagramSize then
    dp
  else
    let dp :=
      if dp.queue.length ≥ udpBatchSize then dp.flush else dp
    { dp with
      queue := dp.queue ++ [item]
      enqueued := dp.enqueued ++ [item] }

end Dataplane

/- Close one descriptor. -/
def closeSocket
    (sockets : List Socket)
    (fd : Int) : List Socket :=
  sockets.filter (fun socket => socket.fd != fd)

/- Close what a flow table operation closed. -/
def closeSockets
    (sockets : List Socket) :
    List FlowEvent → List Socket
| [] => sockets
| .close fd :: events =>
    closeSockets (closeSocket sockets fd) events
| .onClose _ _ :: events => closeSockets sockets events

namespace Dataplane

/-
  One `socket` call.  The kernel does not hand out an open
  descriptor; such an answer counts as a failure.
-/
def socket
    (dp : Dataplane)
    (family : Nat) :
    Except SocketResult Int × Dataplane :=
  match dp.answers.sockets with
  | [] => (.error .failed, dp)
  | result :: results =>
      let dp :=
        { dp with
          answers := { dp.answers with sockets := results } }
      match result with
      | .opened fd =>
          if (fd : Int) ∈ dp.sockets.map Socket.fd then
            (.error .failed, dp)
          else
            (.ok fd,
              { dp with
                sockets := { fd, family } :: dp.sockets })
      | .exhausted => (.error .exhausted, dp)
      | .failed => (.error .failed, dp)

/- Install the outcome of a flow table operation. -/
def withFlows
    (dp : Dataplane)
    (result : FlowTable × List FlowEvent) : Dataplane :=
  { dp with
    flows := result.1
    sockets := closeSockets dp.sockets result.2 }

/-
  When descriptors run out, the oldest flow is evicted and
  the call is made once more.
-/
def flowSocketOpen
    (env : Env)
    (dp : Dataplane)
    (family : Nat) :
    Option Int × Dataplane :=
  match dp.socket family with
  | (.ok fd, dp) => (some fd, dp)
  | (.error .exhausted, dp) =>
      let evicted := dp.flows.evictOldest env.hash
      let dp := dp.withFlows evicted.2
      if evicted.1 = 1 then
        match dp.socket family with
        | (.ok fd, dp) => (some fd, dp)
        | (.error _, dp) => (none, dp)
      else
        (none, dp)
  | (.error _, dp) => (none, dp)

/- Re-aim an existing flow, keeping its socket. -/
def reaim
    (flow : Flow)
    (backend : Sockaddr)
    (now : Int) : Flow :=
  { flow with
    backend :=
      if flow.backend.equals backend then flow.backend
      else backend
    lastSeen := now }

/- The slot of the flow of a client, found or created. -/
def flowAcquire
    (env : Env)
    (dp : Dataplane)
    (client backend : Sockaddr)
    (now : Int) :
    Option Nat × Dataplane :=
  match dp.flows.get env.hash client with
  | some slot =>
      match dp.flows.flows slot with
      | some flow =>
          (some slot,
            { dp with
              flows :=
                { dp.flows with
                  flows :=
                    LinearProbing.fill dp.flows.flows slot
                      (reaim flow backend now) } })
      | none => (some slot, dp)
  | none =>
      match dp.flowSocketOpen env
          backend.storage.ssFamily with
      | (none, dp) => (none, dp)
      | (some fd, dp) =>
          let stored :=
            dp.flows.put env.hash client backend fd now
          let dp := dp.withFlows stored.2
          match stored.1 with
          | none =>
              (none,
                { dp with
                  sockets := closeSocket dp.sockets fd })
          | some slot =>
              if dp.answers.epollAdd then
                (some slot, dp)
              else
                (none,
                  dp.withFlows
                    (dp.flows.remove env.hash slot))

end Dataplane

end QuicSniRouter
