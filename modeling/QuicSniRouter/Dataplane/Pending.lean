import QuicSniRouter.Quic.Frames
import QuicSniRouter.SessionTable.Basic
import QuicSniRouter.Tls.ClientHello
import QuicSniRouter.Config

/-
  Buffered Initial packets of connections whose SNI is not
  known yet, and routing by the SNI of the reassembled
  ClientHello.

  Main declarations:
    * `PendingTable`
    * `routeCryptoStream`
    * `routeInitialDatagram`
-/

namespace QuicSniRouter

open LinearProbing

/- The limits of the pending table. -/
abbrev pendingInitialCapacity : Nat := 64
abbrev pendingInitialMaxPackets : Nat := 8
abbrev pendingInitialIdleSeconds : Int := 5

/- The hash and the primitives that the router calls. -/
structure Env where
  hash : Bytes → Nat
  crypto : Crypto

/- The packets and the stream of one connection. -/
structure PendingInitial where
  source : Sockaddr
  dcid : Bytes
  scid : Bytes
  cidKey : SessionKey
  crypto : Quic.CryptoStream
  packets : List Bytes
  lastSeen : Int

/- Hellos that have not come in whole. -/
structure PendingTable where
  entries : Nat → Option PendingInitial
  nextEvict : Nat

namespace PendingTable

/- Nothing is pending. -/
def init : PendingTable where
  entries := fun _ => none
  nextEvict := 0

end PendingTable

namespace PendingInitial

/- The entry is of the connection of the Initial. -/
def matchesInitial
    (entry : PendingInitial)
    (source : Sockaddr)
    (initial : Quic.Initial) : Bool :=
  entry.source.equals source &&
    entry.dcid == initial.dcid && entry.scid == initial.scid

/- A fresh entry for one source and connection id pair. -/
def start
    (source : Sockaddr)
    (initial : Quic.Initial)
    (now : Int) : PendingInitial where
  source := source
  dcid := initial.dcid
  scid := initial.scid
  cidKey := SessionKey.cidKey initial.dcid initial.scid
  crypto := Quic.CryptoStream.init
  packets := []
  lastSeen := now

/- Duplicates and packets beyond the limit are dropped. -/
def appendPacket
    (entry : PendingInitial)
    (packet : Bytes) : PendingInitial :=
  if packet.length > maxDatagramSize then entry
  else if packet ∈ entry.packets then entry
  else if entry.packets.length ≥ pendingInitialMaxPackets then
    entry
  else
    { entry with packets := entry.packets ++ [packet] }

end PendingInitial

namespace PendingTable

/- The first cell that a test accepts. -/
def findCell
    (table : PendingTable)
    (test : Option PendingInitial → Bool) : Option Nat :=
  (List.range pendingInitialCapacity).find?
    (fun i => test (table.entries i))

/-
  The entry of a source and connection id pair: an existing
  one, else a fresh one in the first unused cell, else a
  fresh one in the cell whose turn it is.
-/
def getEntry
    (table : PendingTable)
    (source : Sockaddr)
    (initial : Quic.Initial)
    (now : Int) :
    Nat × PendingInitial × PendingTable :=
  let fresh := PendingInitial.start source initial now
  match table.findCell (fun cell =>
      match cell with
      | some entry => entry.matchesInitial source initial
      | none => false) with
  | some i =>
      match table.entries i with
      | some entry =>
          (i, { entry with lastSeen := now }, table)
      | none => (i, fresh, table)
  | none =>
      match table.findCell Option.isNone with
      | some i => (i, fresh, table)
      | none =>
          (table.nextEvict % pendingInitialCapacity, fresh,
            { table with nextEvict := table.nextEvict + 1 })

/- Write an entry. -/
def store
    (table : PendingTable)
    (i : Nat)
    (entry : PendingInitial) : PendingTable :=
  { table with entries := fill table.entries i entry }

/- Empty a cell of the table. -/
def remove
    (table : PendingTable)
    (i : Nat) : PendingTable :=
  if i < pendingInitialCapacity then
    { table with entries := vacate table.entries i }
  else
    table

/- Drop the entries that were idle for too long. -/
def expire
    (table : PendingTable)
    (now : Int) : PendingTable :=
  { table with
    entries := fun i =>
      (table.entries i).filter
        (fun entry =>
          !decide (now - entry.lastSeen ≥
            pendingInitialIdleSeconds)) }

end PendingTable

/- The backend of the route of the ClientHello's SNI. -/
def routeCryptoStream
    (hash : Bytes → Nat)
    (config : Config)
    (crypto : Quic.CryptoStream) :
    Except Status Sockaddr := do
  let contiguousLen := crypto.contiguousLen
  if contiguousLen = 0 then
    throw .truncated
  let sni ← Tls.clientHelloSni crypto.data contiguousLen
  match config.routes.lookup hash sni with
  | none => throw .notFound
  | some route =>
      if !route.backendResolved then
        throw .invalid
      return route.backend

/- The plaintext of an Initial's CRYPTO frames. -/
def initialCrypto
    (crypto : Crypto)
    (packet : Bytes)
    (initial : Quic.Initial) :
    Except Status Quic.CryptoStream := do
  let plaintext ← Quic.decryptInitial crypto packet initial
  Quic.extractCrypto plaintext Quic.CryptoStream.init

/- The pending entry with one more Initial in it. -/
def bufferInitial
    (pending : PendingTable)
    (packet : Bytes)
    (initial : Quic.Initial)
    (source : Sockaddr)
    (now : Int)
    (crypto : Quic.CryptoStream) :
    Nat × PendingInitial × PendingTable :=
  let found := pending.getEntry source initial now
  let appended := found.2.1.appendPacket packet
  let entry :=
    { appended with
      crypto := appended.crypto.merge crypto }
  (found.1, entry, found.2.2.store found.1 entry)

/- What a routed Initial gives its caller. -/
structure RoutedInitial where
  backend : Sockaddr
  cell : Nat
  entry : PendingInitial

/-
  Decrypt an Initial, add it to its pending entry, and route
  by what has arrived so far.  The buffered bytes stay when
  routing fails.
-/
def routeInitialDatagram
    (env : Env)
    (config : Config)
    (pending : PendingTable)
    (packet : Bytes)
    (initial : Quic.Initial)
    (source : Sockaddr)
    (now : Int) :
    PendingTable × Except Status RoutedInitial :=
  match initialCrypto env.crypto packet initial with
  | .error status => (pending, .error status)
  | .ok crypto =>
      let buffered :=
        bufferInitial pending packet initial source now crypto
      (buffered.2.2, do
        let backend ←
          routeCryptoStream env.hash config
            buffered.2.1.crypto
        return {
          backend
          cell := buffered.1
          entry := buffered.2.1 })

end QuicSniRouter
