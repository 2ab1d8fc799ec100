import QuicSniRouter.CidCodec
import QuicSniRouter.RouteTable.Basic

/-
  The configuration and its loader.  The YAML document comes
  from libyaml and is an input; the loader walks its nodes.
  Unknown keys are errors at every level.

  Main declarations:
    * `Config`
    * `strtoul`
    * `parseRoot`
    * `Config.load`
-/

namespace QuicSniRouter

/- What a configuration file sets. -/
structure Config where
  listenUdp : Bytes
  idleTimeoutSeconds : Nat
  maxSessions : Nat
  logConnections : Bool
  routes : RouteTable
  cidCodec : CidCodec

namespace Config

/- The configuration of an empty document. -/
def default : Config where
  -- ":443"
  listenUdp := [58, 52, 52, 51]
  idleTimeoutSeconds := 60
  maxSessions := maxSessionsDefault
  logConnections := false
  routes := RouteTable.init
  cidCodec := CidCodec.disabled

end Config

/-
  A node of a loaded document, aliases resolved.  The loader
  never looks into a sequence.
-/
inductive YamlNode
  | scalar (value : Bytes)
  | sequence
  | mapping (pairs : List (YamlNode × YamlNode))

/- What opening and reading the configuration file gives. -/
inductive ConfigFile
  | missing
  | unreadable
  | malformed
  | document (root : Option YamlNode)

/- `isspace` in the C locale. -/
def isSpace
    (c : UInt8) : Bool :=
  c == 0x20 || (0x09 ≤ c && c ≤ 0x0d)

/- An ASCII digit. -/
def isDigit
    (c : UInt8) : Bool :=
  0x30 ≤ c && c ≤ 0x39

/- The result of `strtoul` and `strtoull` in base ten. -/
structure Strtoul where
  value : Nat
  overflow : Bool
  converted : Bool
  rest : Bytes
deriving DecidableEq, Repr

/-
  The digits after white space and sign: saturation on
  overflow, negation modulo `2 ^ 64`, and no conversion at
  all without a digit.
-/
def strtoulDigits
    (text : Bytes)
    (negative : Bool)
    (unsignedText : Bytes) : Strtoul :=
  let digits := unsignedText.takeWhile isDigit
  let rest := unsignedText.dropWhile isDigit
  let magnitude :=
    digits.foldl (fun acc c => acc * 10 + (c.toNat - 0x30)) 0
  if digits.length = 0 then
    { value := 0, overflow := false, converted := false
      rest := text }
  else if magnitude ≥ 2 ^ 64 then
    { value := 2 ^ 64 - 1, overflow := true
      converted := true, rest }
  else
    { value :=
        if negative then (2 ^ 64 - magnitude) % 2 ^ 64
        else magnitude
      overflow := false, converted := true, rest }

/- The conversion, with a sign and after blanks. -/
def strtoul
    (text : Bytes) : Strtoul :=
  match text.dropWhile isSpace with
  | c :: rest =>
      if c = 0x2d then strtoulDigits text true rest
      else if c = 0x2b then strtoulDigits text false rest
      else strtoulDigits text false (c :: rest)
  | [] => strtoulDigits text false []

/- A number of 32 bits within bounds. -/
def parseU32
    (text : Bytes)
    (lo hi : Nat) :
    Except Status Nat :=
  if text.length = 0 then
    .error .invalid
  else
    let parsed := strtoul text
    if parsed.overflow ∨ ¬ parsed.converted ∨
        parsed.value < lo ∨ parsed.value > hi then
      .error .invalid
    -- An optional "s" suffix, and nothing else.
    else if parsed.rest ≠ [] ∧ parsed.rest ≠ [0x73] then
      .error .invalid
    else
      .ok parsed.value

/- A size within bounds. -/
def parseSize
    (text : Bytes)
    (lo hi : Nat) :
    Except Status Nat :=
  if text.length = 0 then
    .error .invalid
  else
    let parsed := strtoul text
    if parsed.overflow ∨ ¬ parsed.converted ∨
        parsed.rest ≠ [] ∨
        parsed.value < lo ∨ parsed.value > hi then
      .error .invalid
    else
      .ok parsed.value

/- The two spellings of a switch. -/
def parseBool
    (text : Bytes) :
    Except Status Bool :=
  -- "true" and "false"
  if text = [116, 114, 117, 101] then .ok true
  else if text = [102, 97, 108, 115, 101] then .ok false
  else .error .invalid

/- A port; zero is none. -/
def parsePort
    (text : Bytes) :
    Except Status Nat :=
  parseU32 text 1 65535

/- A scalar that fits a buffer and holds no NUL byte. -/
def copyScalar
    (node : YamlNode)
    (outMax : Nat) :
    Except Status Bytes :=
  match node with
  | .scalar value =>
      if value.length + 1 > outMax then .error .invalid
      else if 0 ∈ value then .error .invalid
      else .ok value
  | _ => .error .invalid

/- The pairs of a mapping node. -/
def mappingPairs :
    YamlNode → Except Status (List (YamlNode × YamlNode))
| .mapping pairs => .ok pairs
| _ => .error .invalid

/- One entry below `listen`. -/
def parseListenPair
    (config : Config)
    (k v : YamlNode) :
    Except Status Config := do
  let key ← copyScalar k 16
  -- "udp"
  if key ≠ [117, 100, 112] then
    throw .invalid
  let listenUdp ← copyScalar v maxListenAddrLen
  if listenUdp.length = 0 then
    throw .invalid
  return { config with listenUdp }

/- The section `listen`. -/
def parseListen
    (node : YamlNode)
    (config : Config) :
    Except Status Config := do
  let pairs ← mappingPairs node
  pairs.foldlM
    (fun config (k, v) => parseListenPair config k v)
    config

/- One entry below `sessions`. -/
def parseSessionsPair
    (config : Config)
    (k v : YamlNode) :
    Except Status Config := do
  let key ← copyScalar k 32
  let value ← copyScalar v 32
  -- "idleTimeout"
  if key = [105, 100, 108, 101, 84, 105, 109, 101, 111,
      117, 116] then
    let idleTimeoutSeconds ← parseU32 value 1 86400
    return { config with idleTimeoutSeconds }
  -- "maxSessions"
  else if key = [109, 97, 120, 83, 101, 115, 115, 105,
      111, 110, 115] then
    let maxSessions ←
      parseSize value 1 (maxSessionsDefault * 10)
    return { config with maxSessions }
  else
    throw .invalid

/- The section `sessions`. -/
def parseSessions
    (node : YamlNode)
    (config : Config) :
    Except Status Config := do
  let pairs ← mappingPairs node
  pairs.foldlM
    (fun config (k, v) => parseSessionsPair config k v)
    config

/- The fields of one route, as collected from its pairs. -/
structure RouteBody where
  host : Bytes
  port : Nat
  serverId : UInt8

/- One pair of a route: host, port or server id. -/
def parseRoutePair
    (body : RouteBody)
    (k v : YamlNode) :
    Except Status RouteBody := do
  let key ← copyScalar k 16
  -- "host"
  if key = [104, 111, 115, 116] then
    match copyScalar v (maxAddrLen + 1) with
    | .ok host =>
        if host.length = 0 then
          throw .invalid
        return { body with host }
    | .error _ => throw .invalid
  -- "port"
  else if key = [112, 111, 114, 116] then
    let text ← copyScalar v 16
    let port ← parsePort text
    return { body with port }
  -- "serverId"
  else if key = [115, 101, 114, 118, 101, 114, 73, 100] then
    let text ← copyScalar v 8
    let serverId ← parseU32 text 1 255
    return { body with serverId := UInt8.ofNat serverId }
  else
    throw .invalid

/- The fields of a route, and its addition. -/
def parseRouteBody
    (hash : Bytes → Nat)
    (node : YamlNode)
    (config : Config)
    (sni : Bytes) :
    Except Status Config := do
  let pairs ← mappingPairs node
  let body ←
    pairs.foldlM (fun body (k, v) => parseRoutePair body k v)
      { host := [], port := 0, serverId := 0 }
  if body.host.length = 0 ∨ body.port = 0 then
    throw .invalid
  let routes ←
    config.routes.add hash sni body.host body.port
      body.serverId
  return { config with routes }

/- One entry below `logging`. -/
def parseLoggingPair
    (config : Config)
    (k v : YamlNode) :
    Except Status Config := do
  let key ← copyScalar k 16
  let value ← copyScalar v 16
  -- "connections"
  if key = [99, 111, 110, 110, 101, 99, 116, 105, 111,
      110, 115] then
    let logConnections ← parseBool value
    return { config with logConnections }
  else
    throw .invalid

/- The section `logging`. -/
def parseLogging
    (node : YamlNode)
    (config : Config) :
    Except Status Config := do
  let pairs ← mappingPairs node
  pairs.foldlM
    (fun config (k, v) => parseLoggingPair config k v)
    config

/- The last key given wins. -/
def parseCidEncodingPair
    (k v : YamlNode) :
    Except Status Bytes := do
  let key ← copyScalar k 16
  -- "key"
  if key = [107, 101, 121] then
    copyScalar v (cidKeyLen * 2 + 1)
  else
    throw .invalid

/- The section `cidEncoding`. -/
def parseCidEncoding
    (node : YamlNode)
    (config : Config) :
    Except Status Config := do
  let pairs ← mappingPairs node
  let keyHex ←
    pairs.foldlM (fun _ (k, v) => parseCidEncodingPair k v) []
  if keyHex.length = 0 then
    throw .invalid
  let cidCodec ← CidCodec.initFromHex keyHex
  return { config with cidCodec }

/- One route, under its server name. -/
def parseRoutesPair
    (hash : Bytes → Nat)
    (config : Config)
    (k v : YamlNode) :
    Except Status Config :=
  match copyScalar k (maxHostnameLen + 1) with
  | .ok sni =>
      if sni.length = 0 then .error .invalid
      else parseRouteBody hash v config sni
  | .error _ => .error .invalid

/- The section `routes`. -/
def parseRoutes
    (hash : Bytes → Nat)
    (node : YamlNode)
    (config : Config) :
    Except Status Config := do
  let pairs ← mappingPairs node
  pairs.foldlM
    (fun config (k, v) => parseRoutesPair hash config k v)
    config

/- One top-level section. -/
def parseSection
    (hash : Bytes → Nat)
    (config : Config)
    (k v : YamlNode) :
    Except Status Config := do
  let key ← copyScalar k 16
  -- "listen"
  if key = [108, 105, 115, 116, 101, 110] then
    parseListen v config
  -- "sessions"
  else if key = [115, 101, 115, 115, 105, 111, 110, 115] then
    parseSessions v config
  -- "routes"
  else if key = [114, 111, 117, 116, 101, 115] then
    parseRoutes hash v config
  -- "cidEncoding"
  else if key = [99, 105, 100, 69, 110, 99, 111, 100, 105,
      110, 103] then
    parseCidEncoding v config
  -- "logging"
  else if key = [108, 111, 103, 103, 105, 110, 103] then
    parseLogging v config
  else
    throw .invalid

/- The sections of a document, in their order. -/
def parseRoot
    (hash : Bytes → Nat)
    (root : Option YamlNode)
    (config : Config) :
    Except Status Config :=
  match root with
  | none => .ok config
  | some node => do
      let pairs ← mappingPairs node
      pairs.foldlM
        (fun config (k, v) => parseSection hash config k v)
        config

namespace Config

/- The configuration of a file, or why there is none. -/
def load
    (hash : Bytes → Nat) :
    ConfigFile → Except Status Config
| .missing => .error .notFound
| .unreadable => .error .invalid
| .malformed => .error .invalid
| .document root => parseRoot hash root Config.default

end Config

end QuicSniRouter
