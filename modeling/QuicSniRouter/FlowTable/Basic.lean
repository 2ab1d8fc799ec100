import QuicSniRouter.Common
import QuicSniRouter.LinearProbing.Delete
import QuicSniRouter.LinearProbing.Oldest

/-
  The flow table: one upstream socket per client tuple.
  Flows live in slots that never move; an open-addressed
  index maps tuples to slots, and a stack lists the unused
  slots.  `none` stands for an unused slot and for an empty
  index cell.  Every operation also reports the callbacks it
  makes and the descriptors it closes, in order.

  Main declarations:
    * `FlowTable.get`
    * `FlowTable.removeSlot`
    * `FlowTable.evictOldest`
    * `FlowTable.put`
    * `FlowTable.expireIncremental`
    * `FlowTable.evictIf`
    * `FlowTable.free`
-/

namespace QuicSniRouter

open LinearProbing

/- A client, its backend and the socket between. -/
structure Flow where
  fd : Int
  client : Sockaddr
  backend : Sockaddr
  lastSeen : Int
  id : Nat
deriving DecidableEq

/- Why a flow was closed. -/
inductive FlowCloseReason
  | idle
  | evicted
  | filtered
  | removed
  | shutdown
deriving DecidableEq, Repr

/- What an operation does outside the table. -/
inductive FlowEvent
  | onClose (flow : Flow) (reason : FlowCloseReason)
  | close (fd : Int)
deriving DecidableEq

/-
  `freeSlots` is the stack of unused slots with its top in
  front; its length is `free_count`.
-/
structure FlowTable where
  capacity : Nat
  indexCapacity : Nat
  flows : Nat → Option Flow
  index : Nat → Option Nat
  freeSlots : List Nat
  count : Nat
  expireCursor : Nat
  evictCursor : Nat
  nextId : Nat

namespace FlowTable

/- How many slots an eviction looks at. -/
abbrev flowEvictScanBudget : Nat := 4096

/- The table of a successful allocation. -/
def init
    (capacity : Nat) :
    Except Status FlowTable :=
  if capacity = 0 then
    .error .invalid
  else
    .ok
      { capacity
        indexCapacity := capacity * 2
        flows := fun _ => none
        index := fun _ => none
        freeSlots := List.range capacity
        count := 0
        expireCursor := 0
        evictCursor := 0
        nextId := 1 }

/- Where the probe for a client starts. -/
def tupleHash
    (hash : Bytes → Nat)
    (client : Sockaddr)
    (capacity : Nat) : Nat :=
  hash (UInt8.ofNat client.len :: client.bytes) % capacity

/- Whether a slot holds the flow of a tuple. -/
def slotMatches
    (table : FlowTable)
    (client : Sockaddr)
    (slot : Nat) : Bool :=
  match table.flows slot with
  | some flow => flow.client.equals client
  | none => false

/- The tuple stored in a slot, zeros in an unused one. -/
def clientAt
    (table : FlowTable)
    (slot : Nat) : Sockaddr :=
  match table.flows slot with
  | some flow => flow.client
  | none => Sockaddr.zero

/- The probe walk of a tuple over the index. -/
def indexProbe
    (hash : Bytes → Nat)
    (table : FlowTable)
    (client : Sockaddr) : Probe :=
  walk table.indexCapacity table.index
    (table.slotMatches client) table.indexCapacity
    (tupleHash hash client table.indexCapacity)

/-
  The index position of a tuple, or the empty one where it
  would go; `none` is the `SIZE_MAX` of the source.
-/
def indexFind
    (hash : Bytes → Nat)
    (table : FlowTable)
    (client : Sockaddr) : Option Nat :=
  (table.indexProbe hash client).position

/- The slot of a client. -/
def get
    (hash : Bytes → Nat)
    (table : FlowTable)
    (client : Sockaddr) : Option Nat :=
  if ¬ client.valid then
    none
  else
    (table.indexFind hash client).bind table.index

/- The used flow of a slot. -/
def slot
    (table : FlowTable)
    (i : Nat) : Option Flow :=
  if i ≥ table.capacity then none else table.flows i

theorem slot_eq_some
    {table : FlowTable}
    {i : Nat}
    {flow : Flow}
    (hSlot : table.slot i = some flow) :
    i < table.capacity ∧ table.flows i = some flow := by
  unfold slot at hSlot
  split at hSlot
  · cases hSlot
  · rename_i hLt
    exact ⟨Nat.lt_of_not_le hLt, hSlot⟩

/-
  Write a slot to the found index position.  The index is at
  most half full, so there always is one.
-/
def indexStore
    (table : FlowTable)
    (slot : Nat) :
    Option Nat → FlowTable
| some pos =>
    { table with index := fill table.index pos slot }
| none => table

/- Reinsert the cluster up to the first empty cell. -/
def indexCloseGap
    (hash : Bytes → Nat) :
    Nat → FlowTable → Nat → FlowTable
| 0, table, _ => table
| fuel + 1, table, cursor =>
    match table.index cursor with
    | none => table
    | some slot =>
        let cleared :=
          { table with index := vacate table.index cursor }
        indexCloseGap hash fuel
          (cleared.indexStore slot
            (cleared.indexFind hash (table.clientAt slot)))
          (next table.indexCapacity cursor)

/- More reinsertions than any deletion performs. -/
def indexGapFuel
    (table : FlowTable) : Nat :=
  table.indexCapacity * table.indexCapacity *
    table.indexCapacity + table.indexCapacity

/- Remove a position of the index. -/
def indexDeleteAt
    (hash : Bytes → Nat)
    (table : FlowTable)
    (pos : Nat) : FlowTable :=
  indexCloseGap hash table.indexGapFuel
    { table with index := vacate table.index pos }
    (next table.indexCapacity pos)

/- Drop the index cell of a tuple, if it has one. -/
def indexDelete
    (hash : Bytes → Nat)
    (table : FlowTable)
    (client : Sockaddr) : FlowTable :=
  match table.indexFind hash client with
  | some pos =>
      if table.index pos ≠ none then
        table.indexDeleteAt hash pos
      else
        table
  | none => table

/- The descriptor of a flow is closed when there is one. -/
def closeFd
    (fd : Int) : List FlowEvent :=
  if fd ≥ 0 then [.close fd] else []

/-
  The callback sees the flow before its descriptor is
  closed; the slot is still marked used while the index
  cluster is reinserted.
-/
def removeSlot
    (hash : Bytes → Nat)
    (table : FlowTable)
    (slot : Nat)
    (reason : FlowCloseReason) :
    FlowTable × List FlowEvent :=
  match table.flows slot with
  | none => (table, [])
  | some flow =>
      let deleted := table.indexDelete hash flow.client
      ({ deleted with
          flows := vacate deleted.flows slot
          freeSlots := slot :: deleted.freeSlots
          count := deleted.count - 1 },
        .onClose flow reason :: closeFd flow.fd)

/- Close one flow. -/
def remove
    (hash : Bytes → Nat)
    (table : FlowTable)
    (slot : Nat) :
    FlowTable × List FlowEvent :=
  if slot < table.capacity then
    table.removeSlot hash slot .removed
  else
    (table, [])

/- The length of the eviction window. -/
def evictScans
    (table : FlowTable) : Nat :=
  if table.capacity < flowEvictScanBudget then
    table.capacity
  else
    flowEvictScanBudget

/- The oldest flow of the scanned window. -/
def evictVictim
    (table : FlowTable) : Option Nat :=
  oldest table.capacity table.flows Flow.lastSeen
    table.evictCursor table.evictScans

/- The table whose eviction cursor has moved on. -/
def scanned
    (table : FlowTable) : FlowTable :=
  { table with
    evictCursor :=
      (table.evictCursor + table.evictScans) %
        table.capacity }

/- Returns the number of evicted flows, zero or one. -/
def evictOldest
    (hash : Bytes → Nat)
    (table : FlowTable) :
    Nat × FlowTable × List FlowEvent :=
  if table.capacity = 0 ∨ table.count = 0 then
    (0, table, [])
  else
    match table.evictVictim with
    | none => (0, table.scanned, [])
    | some victim =>
        (1, table.scanned.removeSlot hash victim .evicted)

/-
  The arguments of a put.  The backend's family is not
  checked.
-/
def putValid
    (client backend : Sockaddr)
    (fd : Int) : Bool :=
  client.valid && backend.len != 0 && backend.len ≤ 128 &&
    fd ≥ 0

/- Re-aim an existing flow at a socket and a backend. -/
def updateSlot
    (table : FlowTable)
    (slot : Nat)
    (backend : Sockaddr)
    (fd : Int)
    (now : Int) :
    FlowTable × List FlowEvent :=
  match table.flows slot with
  | none => (table, [])
  | some flow =>
      ({ table with
          flows :=
            fill table.flows slot
              { flow with fd, backend, lastSeen := now } },
        if flow.fd ≠ fd then closeFd flow.fd else [])

/-
  Take a slot from the stack and write a new flow to it.
  Ids are counted modulo `2 ^ 64`.
-/
def insertFlow
    (table : FlowTable)
    (client backend : Sockaddr)
    (fd : Int)
    (now : Int)
    (pos : Option Nat) :
    Option Nat × FlowTable :=
  match pos, table.freeSlots with
  | some pos, slot :: rest =>
      (some slot,
        { table with
          flows :=
            fill table.flows slot
              { fd, client, backend
                lastSeen := now
                id := table.nextId }
          index := fill table.index pos slot
          freeSlots := rest
          count := table.count + 1
          nextId := (table.nextId + 1) % 2 ^ 64 })
  | _, _ => (none, table)

/-
  The slot of the stored flow, or `none` when the caller
  keeps the descriptor.
-/
def put
    (hash : Bytes → Nat)
    (table : FlowTable)
    (client backend : Sockaddr)
    (fd : Int)
    (now : Int) :
    Option Nat × FlowTable × List FlowEvent :=
  if ¬ putValid client backend fd then
    (none, table, [])
  else
    let pos := table.indexFind hash client
    match pos.bind table.index with
    | some slot =>
        (some slot, table.updateSlot slot backend fd now)
    | none =>
        if table.freeSlots.length = 0 then
          let evicted := table.evictOldest hash
          if evicted.1 = 0 then
            (none, evicted.2)
          else
            -- The eviction moved the cluster: look again.
            let table := evicted.2.1
            let stored :=
              table.insertFlow client backend fd now
                (table.indexFind hash client)
            (stored.1, stored.2, evicted.2.2)
        else
          let stored :=
            table.insertFlow client backend fd now pos
          (stored.1, stored.2, [])

/- One slot of a sweep. -/
def sweepSlot
    (hash : Bytes → Nat)
    (pred : Flow → Bool)
    (reason : FlowCloseReason)
    (table : FlowTable)
    (slot : Nat) :
    Nat × FlowTable × List FlowEvent :=
  match table.flows slot with
  | some flow =>
      if pred flow then
        (1, table.removeSlot hash slot reason)
      else
        (0, table, [])
  | none => (0, table, [])

/- No packet for as long as the timeout. -/
def idle
    (now idleTimeoutSeconds : Int)
    (flow : Flow) : Bool :=
  now - flow.lastSeen ≥ idleTimeoutSeconds

/- The cursor advances past a removed flow as well. -/
def expireLoop
    (hash : Bytes → Nat)
    (now idleTimeoutSeconds : Int) :
    Nat → FlowTable → Nat × FlowTable × List FlowEvent
| 0, table => (0, table, [])
| scans + 1, table =>
    let swept :=
      sweepSlot hash (idle now idleTimeoutSeconds) .idle
        table table.expireCursor
    let rest :=
      expireLoop hash now idleTimeoutSeconds scans
        { swept.2.1 with
          expireCursor :=
            next table.capacity table.expireCursor }
    (swept.1 + rest.1, rest.2.1, swept.2.2 ++ rest.2.2)

/- Scan some of the slots for idle flows. -/
def expireIncremental
    (hash : Bytes → Nat)
    (table : FlowTable)
    (now idleTimeoutSeconds : Int)
    (scanBudget : Nat) :
    Nat × FlowTable × List FlowEvent :=
  expireLoop hash now idleTimeoutSeconds
    (min scanBudget table.capacity) table

/- Close what is chosen among the slots. -/
def evictSlots
    (hash : Bytes → Nat)
    (pred : Flow → Bool) :
    List Nat → FlowTable → Nat × FlowTable × List FlowEvent
| [], table => (0, table, [])
| slot :: slots, table =>
    let swept := sweepSlot hash pred .filtered table slot
    let rest := evictSlots hash pred slots swept.2.1
    (swept.1 + rest.1, rest.2.1, swept.2.2 ++ rest.2.2)

/- Close all flows that are chosen. -/
def evictIf
    (hash : Bytes → Nat)
    (table : FlowTable)
    (pred : Flow → Bool) :
    Nat × FlowTable × List FlowEvent :=
  evictSlots hash pred (List.range table.capacity) table

/- Callback and descriptor of one slot at the end. -/
def freeSlot
    (table : FlowTable)
    (slot : Nat) : List FlowEvent :=
  match table.flows slot with
  | some flow => .onClose flow .shutdown :: closeFd flow.fd
  | none => []

/- The table is all zeros afterwards. -/
def free
    (table : FlowTable) :
    FlowTable × List FlowEvent :=
  ({ capacity := 0
     indexCapacity := 0
     flows := fun _ => none
     index := fun _ => none
     freeSlots := []
     count := 0
     expireCursor := 0
     evictCursor := 0
     nextId := 0 },
    (List.range table.capacity).flatMap table.freeSlot)

end FlowTable

end QuicSniRouter
