import QuicSniRouter.Common
import QuicSniRouter.LinearProbing.Cut
import QuicSniRouter.LinearProbing.Oldest

/-
  The session table: a bounded open-addressed map from
  client tuples and connection ids to backend addresses.
  `none` stands for a zeroed slot.  The hash is a parameter,
  since SipHash is keyed at random at start-up.

  Main declarations:
    * `SessionKey` and its constructors
    * `SessionTable.get`
    * `SessionTable.put` and `SessionTable.putOwned`
    * `SessionTable.expire`
    * `SessionTable.expireIncremental`
    * `SessionTable.evictIf`
-/

------------------------------------------------------------
-- Keys
------------------------------------------------------------

namespace QuicSniRouter

/-
  The lengths of the connection ids are those of the lists;
  `key_valid` bounds them by the size of the C arrays.
-/
structure SessionKey where
  hasTuple : Bool
  hasCids : Bool
  client : Sockaddr
  dcid : Bytes
  scid : Bytes
deriving DecidableEq

namespace SessionKey

/- The all-zero key, which is not valid. -/
def zero : SessionKey where
  hasTuple := false
  hasCids := false
  client := Sockaddr.zero
  dcid := []
  scid := []

/- The key has a part, and its parts fit. -/
def valid
    (key : SessionKey) : Bool :=
  (key.hasTuple || key.hasCids) &&
    key.dcid.length ≤ maxQuicCidLen &&
    key.scid.length ≤ maxQuicCidLen &&
    (!key.hasTuple || key.client.valid) &&
    (!key.hasCids || key.dcid.length > 0 ||
      key.scid.length > 0)

/- The length-prefixed bytes that are hashed in one pass. -/
def serialize
    (key : SessionKey) : Bytes :=
  [if key.hasTuple then 1 else 0,
    if key.hasCids then 1 else 0] ++
  (if key.hasTuple then
    UInt8.ofNat key.client.len :: key.client.bytes
  else []) ++
  (if key.hasCids then
    UInt8.ofNat key.dcid.length :: key.dcid ++
      UInt8.ofNat key.scid.length :: key.scid
  else [])

/- Where the probe for a key starts. -/
def hash
    (hashBytes : Bytes → Nat)
    (key : SessionKey)
    (capacity : Nat) : Nat :=
  hashBytes key.serialize % capacity

/- Bytes are compared only where the flags say so. -/
def equals
    (a b : SessionKey) : Bool :=
  a.hasTuple == b.hasTuple && a.hasCids == b.hasCids &&
    a.client.len == b.client.len &&
    a.dcid.length == b.dcid.length &&
    a.scid.length == b.scid.length &&
    (!a.hasTuple || a.client.bytes == b.client.bytes) &&
    (!a.hasCids || (a.dcid == b.dcid && a.scid == b.scid))

/- A key that copies the `len` bytes of a client address. -/
def tupleKey
    (addr : Sockaddr) : SessionKey :=
  if addr.len ≤ 128 then
    { zero with
      hasTuple := true
      client :=
        { storage := SockaddrStorage.ofBytes addr.bytes
          len := addr.len } }
  else
    zero

/- The key of a pair of connection ids. -/
def cidKey
    (dcid scid : Bytes) : SessionKey :=
  if dcid.length ≤ maxQuicCidLen ∧
      scid.length ≤ maxQuicCidLen ∧
      (dcid.length > 0 ∨ scid.length > 0) then
    { zero with hasCids := true, dcid, scid }
  else
    zero

/- Short connection ids give the invalid key. -/
def singleCidKey
    (cid : Bytes) : SessionKey :=
  if cid.length < minLearnedCidLen then zero
  else cidKey cid []

/- The bit of the id-length mask that a key accounts for. -/
def cidLenBit
    (key : SessionKey) : Nat :=
  if key.hasCids ∧ minLearnedCidLen ≤ key.dcid.length ∧
      key.dcid.length ≤ maxQuicCidLen then
    1 <<< key.dcid.length
  else
    0

end SessionKey

open LinearProbing

/- Where the packets of a key go. -/
structure Session where
  key : SessionKey
  backend : Sockaddr
  lastSeen : Int
  ownerSlot : Nat
  ownerFlowId : Nat
deriving DecidableEq

/- The table, with its cursors and length mask. -/
structure SessionTable where
  capacity : Nat
  sessions : Nat → Option Session
  count : Nat
  expireCursor : Nat
  evictCursor : Nat
  cidLenMask : Nat
  cidLenMaskPending : Nat

/-
  The `const struct sockaddr_storage *` argument of a put:
  an address outside the table, or the backend field of a
  slot of the table itself.
-/
inductive BackendRef
  | addr (storage : SockaddrStorage)
  | slot (i : Nat)
deriving DecidableEq

/- The arguments of `session_table_put_internal`. -/
structure PutArgs where
  key : SessionKey
  backendAddr : BackendRef
  backendAddrLen : Nat
  now : Int
  allowPressureEvict : Bool
  ownerSlot : Nat
  ownerFlowId : Nat

namespace PutArgs

/- The put that brings a saved entry back. -/
def ofSaved
    (saved : Session) : PutArgs where
  key := saved.key
  backendAddr := .addr saved.backend.storage
  backendAddrLen := saved.backend.len
  now := saved.lastSeen
  allowPressureEvict := false
  ownerSlot := saved.ownerSlot
  ownerFlowId := saved.ownerFlowId

end PutArgs

namespace SessionTable

/- The limits of evictions. -/
abbrev evictScanBudget : Nat := 4096
abbrev pressureEvictMinCapacity : Nat := 1024
abbrev pressureEvictLoadPercent : Nat := 90

/- The table of a successful allocation. -/
def init
    (capacity : Nat) :
    Except Status SessionTable :=
  if capacity = 0 then
    .error .invalid
  else
    .ok
      { capacity
        sessions := fun _ => none
        count := 0
        expireCursor := 0
        evictCursor := 0
        cidLenMask := 0
        cidLenMaskPending := 0 }

/- The backend that slot `i` holds; a zeroed slot holds zeros. -/
def backendAt
    (table : SessionTable)
    (i : Nat) : Sockaddr :=
  match table.sessions i with
  | some session => session.backend
  | none => Sockaddr.zero

/- What reading through the pointer gives now. -/
def deref
    (table : SessionTable) :
    BackendRef → SockaddrStorage
| .addr storage => storage
| .slot i => (table.backendAt i).storage

/- The backend that a put would store now. -/
def backendOf
    (table : SessionTable)
    (args : PutArgs) : Sockaddr where
  storage := table.deref args.backendAddr
  len := args.backendAddrLen

/- The probe walk that lookups and insertions share. -/
def probe
    (hash : Bytes → Nat)
    (table : SessionTable)
    (key : SessionKey) : Probe :=
  walk table.capacity table.sessions
    (fun session => session.key.equals key)
    table.capacity (key.hash hash table.capacity)

/- The slot of a key. -/
def get
    (hash : Bytes → Nat)
    (table : SessionTable)
    (key : SessionKey) : Option Nat :=
  if table.capacity = 0 ∨ ¬ key.valid then
    none
  else
    match table.probe hash key with
    | .hit i => some i
    | _ => none

------------------------------------------------------------
-- Insertion, Eviction And Deletion
------------------------------------------------------------

/- Zero one slot. -/
def clear
    (table : SessionTable)
    (i : Nat) : SessionTable :=
  { table with
    sessions := vacate table.sessions i
    count := table.count - 1 }

/- Write a new entry to an unused slot. -/
def insertAt
    (table : SessionTable)
    (args : PutArgs)
    (i : Nat) : SessionTable :=
  { table with
    sessions :=
      fill table.sessions i
        { key := args.key
          backend := table.backendOf args
          lastSeen := args.now
          ownerSlot := args.ownerSlot
          ownerFlowId := args.ownerFlowId }
    count := table.count + 1
    cidLenMask := table.cidLenMask ||| args.key.cidLenBit
    cidLenMaskPending :=
      table.cidLenMaskPending ||| args.key.cidLenBit }

/- Refresh an entry; owner id zero leaves the owner alone. -/
def refresh
    (session : Session)
    (backend : Sockaddr)
    (args : PutArgs) : Session :=
  { session with
    backend
    lastSeen := args.now
    ownerSlot :=
      if args.ownerFlowId ≠ 0 then args.ownerSlot
      else session.ownerSlot
    ownerFlowId :=
      if args.ownerFlowId ≠ 0 then args.ownerFlowId
      else session.ownerFlowId }

/- Write into an entry that is there. -/
def updateAt
    (table : SessionTable)
    (args : PutArgs)
    (i : Nat) : SessionTable :=
  match table.sessions i with
  | some session =>
      { table with
        sessions :=
          fill table.sessions i
            (refresh session (table.backendOf args) args) }
  | none => table

/- The table is large and nearly full. -/
def pressureEvictNeeded
    (table : SessionTable) : Bool :=
  table.capacity ≥ pressureEvictMinCapacity &&
    table.count * 100 ≥
      table.capacity * pressureEvictLoadPercent

/- The second walk, which never evicts. -/
def putRetry
    (hash : Bytes → Nat)
    (table : SessionTable)
    (args : PutArgs) :
    Status × SessionTable :=
  match table.probe hash args.key with
  | .vacant i => (.ok, table.insertAt args i)
  | .hit i => (.ok, table.updateAt args i)
  | .exhausted => (.full, table)

/-
  `session_table_put_internal`.  Under pressure the first
  walk evicts, leaves the probe loop, and so falls into the
  eviction behind the loop as well: two entries go.
-/
def putWith
    (hash : Bytes → Nat)
    (evictOldest : SessionTable → SessionTable)
    (table : SessionTable)
    (args : PutArgs) :
    Status × SessionTable :=
  if table.capacity = 0 ∨ ¬ args.key.valid ∨
      ¬ (table.backendOf args).valid then
    (.invalid, table)
  else
    match table.probe hash args.key with
    | .vacant i =>
        if args.allowPressureEvict &&
            table.pressureEvictNeeded then
          putRetry hash (evictOldest (evictOldest table)) args
        else
          (.ok, table.insertAt args i)
    | .hit i => (.ok, table.updateAt args i)
    | .exhausted => putRetry hash (evictOldest table) args

/- Reinsert the cluster up to the first unused slot. -/
def closeGapWith
    (put : SessionTable → PutArgs → SessionTable) :
    Nat → SessionTable → Nat → SessionTable
| 0, table, _ => table
| fuel + 1, table, cursor =>
    match table.sessions cursor with
    | none => table
    | some saved =>
        closeGapWith put fuel
          (put (table.clear cursor) (PutArgs.ofSaved saved))
          (next table.capacity cursor)

/- More reinsertions than any deletion performs. -/
def gapFuel
    (capacity : Nat) : Nat :=
  capacity * capacity * capacity + capacity

/- Delete an entry and move up what follows it. -/
def tableDeleteAtWith
    (put : SessionTable → PutArgs → SessionTable)
    (table : SessionTable)
    (index : Nat) : SessionTable :=
  closeGapWith put (gapFuel table.capacity)
    (table.clear index) (next table.capacity index)

/- The length of the eviction window. -/
def evictScans
    (table : SessionTable) : Nat :=
  if table.capacity < evictScanBudget then table.capacity
  else evictScanBudget

/- The oldest entry of the scanned window. -/
def evictVictim
    (table : SessionTable) : Option Nat :=
  oldest table.capacity table.sessions Session.lastSeen
    table.evictCursor table.evictScans

/- Delete the oldest entry of the window. -/
def evictOldestWith
    (put : SessionTable → PutArgs → SessionTable)
    (table : SessionTable) : SessionTable :=
  if table.count = 0 then
    table
  else
    let scanned :=
      { table with
        evictCursor :=
          (table.evictCursor + table.evictScans) %
            table.capacity }
    match table.evictVictim with
    | none => scanned
    | some victim => tableDeleteAtWith put scanned victim

/-
  A put may evict, an eviction deletes, and a deletion puts
  the cluster back.  The recursion is unfolded to a depth: a
  reinsertion meets the slot just cleared, so it does not
  evict again and depth two is the whole of it.
-/
def putInternal
    (hash : Bytes → Nat) :
    Nat → SessionTable → PutArgs → Status × SessionTable
| 0, table, _ => (.full, table)
| depth + 1, table, args =>
    putWith hash
      (evictOldestWith
        (fun t a => (putInternal hash depth t a).2))
      table args

/- The put of a deletion. -/
def reinsert
    (hash : Bytes → Nat)
    (table : SessionTable)
    (args : PutArgs) : SessionTable :=
  (putInternal hash 1 table args).2

/- Deletion as the code has it. -/
def tableDeleteAt
    (hash : Bytes → Nat)
    (table : SessionTable)
    (index : Nat) : SessionTable :=
  tableDeleteAtWith (reinsert hash) table index

/- Eviction as the code has it. -/
def evictOldest
    (hash : Bytes → Nat)
    (table : SessionTable) : SessionTable :=
  evictOldestWith (reinsert hash) table

/- A put without an owner. -/
def put
    (hash : Bytes → Nat)
    (table : SessionTable)
    (key : SessionKey)
    (backendAddr : BackendRef)
    (backendAddrLen : Nat)
    (now : Int) :
    Status × SessionTable :=
  putInternal hash 2 table
    { key, backendAddr, backendAddrLen, now
      allowPressureEvict := true
      ownerSlot := 0
      ownerFlowId := 0 }

/- A put for a flow. -/
def putOwned
    (hash : Bytes → Nat)
    (table : SessionTable)
    (key : SessionKey)
    (backendAddr : BackendRef)
    (backendAddrLen : Nat)
    (now : Int)
    (ownerSlot ownerFlowId : Nat) :
    Status × SessionTable :=
  putInternal hash 2 table
    { key, backendAddr, backendAddrLen, now
      allowPressureEvict := true
      ownerSlot, ownerFlowId }

/-
  The in-place sweep of `expire` and `evict_if`: a deletion
  does not advance, since another entry may have moved in.
  Returns the number of deletions.
-/
def deleteWhere
    (hash : Bytes → Nat)
    (pred : Session → Bool) :
    Nat → SessionTable → Nat → Nat × SessionTable
| 0, table, _ => (0, table)
| fuel + 1, table, i =>
    if i < table.capacity then
      match table.sessions i with
      | some session =>
          if pred session then
            let rest :=
              deleteWhere hash pred fuel
                (table.tableDeleteAt hash i) i
            (rest.1 + 1, rest.2)
          else
            deleteWhere hash pred fuel table (i + 1)
      | none => deleteWhere hash pred fuel table (i + 1)
    else
      (0, table)

/- Each step of a sweep deletes an entry or passes a slot. -/
def sweepFuel
    (table : SessionTable) : Nat :=
  table.capacity + table.capacity

/- The length of the id in a slot, as a bit. -/
def slotCidLenBit
    (table : SessionTable)
    (i : Nat) : Nat :=
  match table.sessions i with
  | some session => session.key.cidLenBit
  | none => 0

/- Collect the lengths of all slots. -/
def rebuildCidLenMask
    (table : SessionTable) : SessionTable :=
  let mask :=
    (List.range table.capacity).foldl
      (fun mask i => mask ||| table.slotCidLenBit i) 0
  { table with
    cidLenMask := mask
    cidLenMaskPending := mask }

/- Idle for at least the timeout. -/
def idle
    (now idleTimeoutSeconds : Int)
    (session : Session) : Bool :=
  now - session.lastSeen ≥ idleTimeoutSeconds

/- Delete all idle entries. -/
def expire
    (hash : Bytes → Nat)
    (table : SessionTable)
    (now idleTimeoutSeconds : Int) :
    Nat × SessionTable :=
  let swept :=
    deleteWhere hash (idle now idleTimeoutSeconds)
      table.sweepFuel table 0
  if swept.1 > 0 then
    (swept.1, swept.2.rebuildCidLenMask)
  else
    swept

/- Delete all entries that are chosen. -/
def evictIf
    (hash : Bytes → Nat)
    (table : SessionTable)
    (pred : Session → Bool) :
    Nat × SessionTable :=
  deleteWhere hash pred table.sweepFuel table 0

/-
  Move the expiry cursor past its slot and account for the
  id length found there; at the end of a cycle the pending
  mask takes over.
-/
def advanceCursor
    (table : SessionTable) : SessionTable :=
  let pending :=
    table.cidLenMaskPending |||
      table.slotCidLenBit table.expireCursor
  let cursor := next table.capacity table.expireCursor
  if cursor = 0 then
    { table with
      expireCursor := cursor
      cidLenMask := pending
      cidLenMaskPending := 0 }
  else
    { table with
      expireCursor := cursor
      cidLenMaskPending := pending }

/- Set the time stamp of a kept entry. -/
def touch
    (table : SessionTable)
    (i : Nat)
    (now : Int) : SessionTable :=
  match table.sessions i with
  | some session =>
      { table with
        sessions :=
          fill table.sessions i
            { session with lastSeen := now } }
  | none => table

/- One scanned slot of the incremental sweep. -/
def expireStep
    (hash : Bytes → Nat)
    (now idleTimeoutSeconds : Int)
    (keep : Session → Bool)
    (table : SessionTable) :
    Nat × SessionTable :=
  match table.sessions table.expireCursor with
  | some session =>
      if idle now idleTimeoutSeconds session then
        if keep session then
          (0, (table.touch table.expireCursor
            now).advanceCursor)
        else
          (1, table.tableDeleteAt hash table.expireCursor)
      else
        (0, table.advanceCursor)
  | none => (0, table.advanceCursor)

/- Scan one slot after the other. -/
def expireLoop
    (hash : Bytes → Nat)
    (now idleTimeoutSeconds : Int)
    (keep : Session → Bool) :
    Nat → SessionTable → Nat × SessionTable
| 0, table => (0, table)
| scans + 1, table =>
    let first :=
      expireStep hash now idleTimeoutSeconds keep table
    let rest :=
      expireLoop hash now idleTimeoutSeconds keep scans
        first.2
    (first.1 + rest.1, rest.2)

/- Scan some of the slots for idle entries. -/
def expireIncremental
    (hash : Bytes → Nat)
    (table : SessionTable)
    (now idleTimeoutSeconds : Int)
    (scanBudget : Nat)
    (keep : Session → Bool) :
    Nat × SessionTable :=
  expireLoop hash now idleTimeoutSeconds keep
    (min scanBudget table.capacity) table

end SessionTable

end QuicSniRouter
