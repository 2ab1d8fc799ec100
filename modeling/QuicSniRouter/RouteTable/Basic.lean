import QuicSniRouter.Common
import QuicSniRouter.LinearProbing.Probe

/-
  The bounded table of routes, SNI to backend, with its
  three indices: open-addressed buckets by normalized SNI,
  open-addressed buckets by resolved backend address, and a
  direct table by server id.

  Main declarations:
    * `normalizeHostname`
    * `RouteTable.add`
    * `RouteTable.lookup`
    * `RouteTable.hasBackend`
    * `RouteTable.resolve`
-/

namespace QuicSniRouter

/- An ASCII letter folded to lower case. -/
def lowerByte
    (c : UInt8) : UInt8 :=
  if 0x41 ≤ c ∧ c ≤ 0x5a then c + 0x20 else c

/-
  The label loop.  `previous` is the byte written before
  the current one.
-/
def normalizeLabels :
    Bytes → (labelLen : Nat) → (previous : UInt8) →
      Option Bytes
| [], labelLen, previous =>
    if labelLen = 0 ∨ labelLen > 63 ∨ previous = 0x2d then
      none
    else
      some []
| c :: rest, labelLen, previous =>
    if c = 0x2e then
      if labelLen = 0 ∨ labelLen > 63 ∨ previous = 0x2d then
        none
      else
        (normalizeLabels rest 0 0x2e).map (0x2e :: ·)
    else if
        !((0x61 ≤ c && c ≤ 0x7a) || (0x41 ≤ c && c ≤ 0x5a) ||
          (0x30 ≤ c && c ≤ 0x39) || c == 0x2d) then
      none
    else if labelLen = 0 ∧ c = 0x2d then
      none
    else
      (normalizeLabels rest (labelLen + 1)
        (lowerByte c)).map (lowerByte c :: ·)

/- `outLen` is the size of the output buffer. -/
def normalizeHostname
    (input : Bytes)
    (outLen : Nat) :
    Option Bytes :=
  if input.length = 0 ∨ input.length ≥ outLen ∨
      byteAt input 0 = 0x2e ∨
      byteAt input (input.length - 1) = 0x2e then
    none
  else
    normalizeLabels input 0 0

/- A server name and where it is served. -/
structure Route where
  sni : Bytes
  host : Bytes
  port : Nat
  serverId : UInt8
  backendResolved : Bool
  backend : Sockaddr
deriving DecidableEq

/-
  `routes` holds the first `count` cells of the array; an
  index cell is `none` where the source has `SIZE_MAX`.
-/
structure RouteTable where
  routes : List Route
  buckets : Nat → Option Nat
  backendBuckets : Nat → Option Nat
  serverIdIndex : Nat → Option Nat

namespace RouteTable

/- How many routes there are. -/
def count
    (table : RouteTable) : Nat :=
  table.routes.length

/- A table without routes. -/
def init : RouteTable where
  routes := []
  buckets := fun _ => none
  backendBuckets := fun _ => none
  serverIdIndex := fun _ => none

/- The hash of a name. -/
def hashString
    (hash : Bytes → Nat)
    (value : Bytes) : Nat :=
  hash value

/- The hash of an address and its length. -/
def hashBackend
    (hash : Bytes → Nat)
    (addr : Sockaddr) : Nat :=
  hash (UInt8.ofNat addr.len :: addr.bytes)

/- The route leads to the address. -/
def backendEquals
    (route : Route)
    (addr : Sockaddr) : Bool :=
  route.backendResolved && route.backend.equals addr

/- Does the route behind an index cell satisfy `test`? -/
def routeMatches
    (table : RouteTable)
    (test : Route → Bool)
    (routeIndex : Nat) : Bool :=
  match table.routes[routeIndex]? with
  | some route => test route
  | none => false

/- The route of a server name. -/
def lookup
    (hash : Bytes → Nat)
    (table : RouteTable)
    (sni : Bytes) :
    Option Route := do
  let normalized ← normalizeHostname sni (maxHostnameLen + 1)
  match LinearProbing.walk routeBuckets table.buckets
      (table.routeMatches (fun route =>
        route.sni == normalized))
      routeBuckets
      (hashString hash normalized % routeBuckets) with
  | .hit bucket =>
      (table.buckets bucket).bind (table.routes[·]?)
  | _ => none

/- The route of a server id; zero is none. -/
def lookupByServerId
    (table : RouteTable)
    (serverId : UInt8) :
    Option Route :=
  if serverId = 0 then
    none
  else
    (table.serverIdIndex serverId.toNat).bind
      (table.routes[·]?)

/-
  Whether `addr` is a resolved backend of some route, by the
  backend index.
-/
def hasBackend
    (hash : Bytes → Nat)
    (table : RouteTable)
    (addr : Sockaddr) : Bool :=
  if addr.len = 0 ∨ addr.len > 128 then
    false
  else
    match LinearProbing.walk routeBuckets table.backendBuckets
        (table.routeMatches (backendEquals · addr))
        routeBuckets
        (hashBackend hash addr % routeBuckets) with
    | .hit _ => true
    | _ => false

/- The route that a successful `add` appends. -/
def newRoute
    (sni host : Bytes)
    (port : Nat)
    (serverId : UInt8) : Route where
  sni := sni
  host := host
  port := port
  serverId := serverId
  backendResolved := false
  backend := Sockaddr.zero

/- Add a route under its normalized name. -/
def add
    (hash : Bytes → Nat)
    (table : RouteTable)
    (sni host : Bytes)
    (port : Nat)
    (serverId : UInt8) :
    Except Status RouteTable := do
  if port = 0 then
    throw .invalid
  if table.count ≥ maxRoutes then
    throw .full
  match normalizeHostname sni (maxHostnameLen + 1) with
  | none => throw .invalid
  | some normalized =>
      if host.length > maxAddrLen then
        throw .invalid
      if (table.lookup hash normalized).isSome then
        throw .invalid
      if serverId ≠ 0 ∧
          table.serverIdIndex serverId.toNat ≠ none then
        throw .invalid
      -- Only an empty bucket stops this walk.
      match LinearProbing.walk routeBuckets table.buckets
          (fun _ => false) routeBuckets
          (hashString hash normalized % routeBuckets) with
      | .vacant bucket =>
          return {
            routes := table.routes ++
              [newRoute normalized host port serverId]
            buckets :=
              LinearProbing.fill table.buckets bucket
                table.count
            backendBuckets := table.backendBuckets
            serverIdIndex :=
              if serverId ≠ 0 then
                LinearProbing.fill table.serverIdIndex
                  serverId.toNat table.count
              else
                table.serverIdIndex }
      | _ => throw .full

end RouteTable

/-
  The answers of `getaddrinfo` during one resolution, by
  route: the bytes of the first address, or a failure.
-/
abbrev Resolver :=
  (routeIndex : Nat) → (host : Bytes) → (port : Nat) →
    Option Bytes

namespace RouteTable

/- Resolve one route; the address must fit its storage. -/
def resolveRoute
    (resolver : Resolver)
    (routeIndex : Nat)
    (route : Route) :
    Except Status Route :=
  match resolver routeIndex route.host route.port with
  | none => .error .invalid
  | some addr =>
      if addr.length > 128 then
        .error .invalid
      else
        .ok { route with
          backendResolved := true
          backend := {
            storage := SockaddrStorage.ofBytes addr
            len := addr.length } }

/- Resolve the routes from index `i` on. -/
def resolveRoutes
    (resolver : Resolver) :
    Nat → List Route → Except Status (List Route)
| _, [] => .ok []
| i, route :: rest => do
    let route ← resolveRoute resolver i route
    let rest ← resolveRoutes resolver (i + 1) rest
    return route :: rest

/- File one route under its backend address. -/
def backendIndexPut
    (hash : Bytes → Nat)
    (table : RouteTable)
    (routeIndex : Nat)
    (route : Route) :
    Except Status RouteTable :=
  if !route.backendResolved || route.backend.len == 0 then
    .error .invalid
  else
    match LinearProbing.walk routeBuckets table.backendBuckets
        (table.routeMatches (backendEquals · route.backend))
        routeBuckets
        (hashBackend hash route.backend % routeBuckets) with
    | .vacant bucket =>
        .ok { table with
          backendBuckets :=
            LinearProbing.fill table.backendBuckets bucket
              routeIndex }
    | .hit _ => .ok table
    | .exhausted => .error .full

/- File the routes from index `i` on. -/
def backendIndexPuts
    (hash : Bytes → Nat) :
    RouteTable → Nat → List Route → Except Status RouteTable
| table, _, [] => .ok table
| table, i, route :: rest => do
    let table ← backendIndexPut hash table i route
    backendIndexPuts hash table (i + 1) rest

/-
  Resolve every route and rebuild the backend index.  The
  table of a failed resolution is not used by any caller.
-/
def resolve
    (hash : Bytes → Nat)
    (resolver : Resolver)
    (table : RouteTable) :
    Except Status RouteTable := do
  let routes ← resolveRoutes resolver 0 table.routes
  let cleared : RouteTable :=
    { table with routes, backendBuckets := fun _ => none }
  backendIndexPuts hash cleared 0 routes

end RouteTable

end QuicSniRouter
