import QuicSniRouter.Config.Scalars
import QuicSniRouter.RouteTable.Added
import QuicSniRouter.Stepwise

/-
  The configuration file format.  A document is described as
  the settings that it spells, and a list of settings has a
  meaning: the last one of a kind counts, and the routes are
  all of them.  Settings that are applied in order succeed
  if their routes do not clash, and lead to their meaning.

  Main declarations:
    * `Setting` and `Setting.apply`
    * `Document.Spells`
    * `Settings.Routable` and `Settings.meaning`
    * `Settings.applyAll_eq_ok_iff`
-/

------------------------------------------------------------
-- Documents
------------------------------------------------------------

namespace QuicSniRouter

open RouteTable (AddCall)

/- What one entry of a document sets. -/
inductive Setting
  | listen (address : Bytes)
  | idleTimeout (seconds : Nat)
  | maxSessions (sessions : Nat)
  | route (call : AddCall)
  | cidKey (key : Bytes)
  | connections (logged : Bool)

namespace Setting

/- The listening address, if that is what is set. -/
def address? :
    Setting → Option Bytes
| .listen address => some address
| _ => none

/- The idle timeout, if that is what is set. -/
def seconds? :
    Setting → Option Nat
| .idleTimeout seconds => some seconds
| _ => none

/- The number of sessions, if that is what is set. -/
def sessions? :
    Setting → Option Nat
| .maxSessions sessions => some sessions
| _ => none

/- The addition of a route, if that is what is set. -/
def call? :
    Setting → Option AddCall
| .route call => some call
| _ => none

/- The key of the codec, if that is what is set. -/
def key? :
    Setting → Option Bytes
| .cidKey key => some key
| _ => none

/- The switch for logging, if that is what is set. -/
def logged? :
    Setting → Option Bool
| .connections logged => some logged
| _ => none

end Setting

/- What one entry of a route sets. -/
inductive RouteField
  | host (name : Bytes)
  | port (number : Nat)
  | serverId (id : Nat)

namespace RouteField

/- The host of a route, if the field gives it. -/
def name? :
    RouteField → Option Bytes
| .host name => some name
| _ => none

/- The port of a route, if the field gives it. -/
def number? :
    RouteField → Option Nat
| .port number => some number
| _ => none

/- The server id of a route, as it is stored. -/
def id? :
    RouteField → Option UInt8
| .serverId id => some (UInt8.ofNat id)
| _ => none

end RouteField

namespace Document

/- The names of the sections. -/
-- "listen", "sessions", "routes", "cidEncoding", "logging"
abbrev listenKey : Bytes := [108, 105, 115, 116, 101, 110]
abbrev sessionsKey : Bytes :=
  [115, 101, 115, 115, 105, 111, 110, 115]
abbrev routesKey : Bytes := [114, 111, 117, 116, 101, 115]
abbrev cidEncodingKey : Bytes :=
  [99, 105, 100, 69, 110, 99, 111, 100, 105, 110, 103]
abbrev loggingKey : Bytes :=
  [108, 111, 103, 103, 105, 110, 103]

/- The names of the settings in them. -/
-- "udp", "idleTimeout", "maxSessions", "connections"
abbrev udpKey : Bytes := [117, 100, 112]
abbrev idleTimeoutKey : Bytes :=
  [105, 100, 108, 101, 84, 105, 109, 101, 111, 117, 116]
abbrev maxSessionsKey : Bytes :=
  [109, 97, 120, 83, 101, 115, 115, 105, 111, 110, 115]
abbrev connectionsKey : Bytes :=
  [99, 111, 110, 110, 101, 99, 116, 105, 111, 110, 115]

/- The names of the fields of a route. -/
-- "host", "port", "serverId", "key"
abbrev hostKey : Bytes := [104, 111, 115, 116]
abbrev portKey : Bytes := [112, 111, 114, 116]
abbrev serverIdKey : Bytes :=
  [115, 101, 114, 118, 101, 114, 73, 100]
abbrev keyKey : Bytes := [107, 101, 121]

/- A text without NUL that leaves room for one. -/
structure Text
    (room : Nat)
    (value : Bytes) : Prop where
  fits : value.length < room
  clean : 0 ∉ value

/- What may stand below `listen`. -/
inductive ListenEntry :
    YamlNode × YamlNode → Setting → Prop
  | udp
      (address : Bytes)
      (hText : Text maxListenAddrLen address)
      (hSome : address ≠ []) :
      ListenEntry (.scalar udpKey, .scalar address)
        (.listen address)

/- What may stand below `sessions`. -/
inductive SessionsEntry :
    YamlNode × YamlNode → Setting → Prop
  | idleTimeout
      (text : Bytes)
      (seconds : Nat)
      (hText : Text 32 text)
      (hNumber :
        Scalar.Accepted [[], Scalar.seconds] 1 86400 text
          seconds) :
      SessionsEntry (.scalar idleTimeoutKey, .scalar text)
        (.idleTimeout seconds)
  | maxSessions
      (text : Bytes)
      (sessions : Nat)
      (hText : Text 32 text)
      (hNumber :
        Scalar.Accepted [[]] 1 (maxSessionsDefault * 10)
          text sessions) :
      SessionsEntry (.scalar maxSessionsKey, .scalar text)
        (.maxSessions sessions)

/- What may stand below `logging`. -/
inductive LoggingEntry :
    YamlNode × YamlNode → Setting → Prop
  -- "true" and "false"
  | on :
      LoggingEntry
        (.scalar connectionsKey, .scalar [116, 114, 117, 101])
        (.connections true)
  | off :
      LoggingEntry
        (.scalar connectionsKey,
          .scalar [102, 97, 108, 115, 101])
        (.connections false)

/- What may stand below a route. -/
inductive FieldEntry :
    YamlNode × YamlNode → RouteField → Prop
  | host
      (name : Bytes)
      (hText : Text (maxAddrLen + 1) name)
      (hSome : name ≠ []) :
      FieldEntry (.scalar hostKey, .scalar name) (.host name)
  | port
      (text : Bytes)
      (number : Nat)
      (hText : Text 16 text)
      (hNumber :
        Scalar.Accepted [[], Scalar.seconds] 1 65535 text
          number) :
      FieldEntry (.scalar portKey, .scalar text)
        (.port number)
  | serverId
      (text : Bytes)
      (id : Nat)
      (hText : Text 8 text)
      (hNumber :
        Scalar.Accepted [[], Scalar.seconds] 1 255 text id) :
      FieldEntry (.scalar serverIdKey, .scalar text)
        (.serverId id)

/- Of several fields of a kind the last one counts. -/
structure Describes
    (fields : List RouteField)
    (call : AddCall) : Prop where
  host :
    (fields.filterMap RouteField.name?).getLast? =
      some call.host
  port :
    (fields.filterMap RouteField.number?).getLast? =
      some call.port
  serverId :
    (fields.filterMap RouteField.id?).getLastD 0 =
      call.serverId

/- What may stand below `routes`. -/
inductive RouteEntry :
    YamlNode × YamlNode → Setting → Prop
  | route
      (pairs : List (YamlNode × YamlNode))
      (fields : List RouteField)
      (call : AddCall)
      (hText : Text (maxHostnameLen + 1) call.sni)
      (hSome : call.sni ≠ [])
      (hFields : List.Forall₂ FieldEntry pairs fields)
      (hDescribes : Describes fields call) :
      RouteEntry (.scalar call.sni, .mapping pairs)
        (.route call)

/- What may stand below `cidEncoding`. -/
inductive KeyEntry :
    YamlNode × YamlNode → Bytes → Prop
  | key
      (text : Bytes)
      (hText : Text (cidKeyLen * 2 + 1) text) :
      KeyEntry (.scalar keyKey, .scalar text) text

/- One section of a document. -/
inductive Section :
    YamlNode × YamlNode → List Setting → Prop
  | listen
      (pairs : List (YamlNode × YamlNode))
      (settings : List Setting)
      (hPairs : List.Forall₂ ListenEntry pairs settings) :
      Section (.scalar listenKey, .mapping pairs) settings
  | sessions
      (pairs : List (YamlNode × YamlNode))
      (settings : List Setting)
      (hPairs : List.Forall₂ SessionsEntry pairs settings) :
      Section (.scalar sessionsKey, .mapping pairs) settings
  | routes
      (pairs : List (YamlNode × YamlNode))
      (settings : List Setting)
      (hPairs : List.Forall₂ RouteEntry pairs settings) :
      Section (.scalar routesKey, .mapping pairs) settings
  | cidEncoding
      (pairs : List (YamlNode × YamlNode))
      (texts : List Bytes)
      (text key : Bytes)
      (hPairs : List.Forall₂ KeyEntry pairs texts)
      (hLast : texts.getLast? = some text)
      (hLength : text.length = cidKeyLen * 2)
      (hKey : CidCodec.hexBytes text = some key) :
      Section (.scalar cidEncodingKey, .mapping pairs)
        [.cidKey key]
  | logging
      (pairs : List (YamlNode × YamlNode))
      (settings : List Setting)
      (hPairs : List.Forall₂ LoggingEntry pairs settings) :
      Section (.scalar loggingKey, .mapping pairs) settings

/- A whole document; an empty one sets nothing. -/
inductive Spells :
    Option YamlNode → List Setting → Prop
  | empty : Spells none []
  | sections
      (pairs : List (YamlNode × YamlNode))
      (parts : List (List Setting))
      (hParts : List.Forall₂ Section pairs parts) :
      Spells (some (.mapping pairs)) parts.flatten

end Document

namespace Settings

/- The listening addresses that are set, in order. -/
def listens
    (settings : List Setting) : List Bytes :=
  settings.filterMap Setting.address?

/- The idle timeouts that are set, in order. -/
def idleTimeouts
    (settings : List Setting) : List Nat :=
  settings.filterMap Setting.seconds?

/- The session limits that are set, in order. -/
def maxSessions
    (settings : List Setting) : List Nat :=
  settings.filterMap Setting.sessions?

/- The routes that are added, in order. -/
def routes
    (settings : List Setting) : List AddCall :=
  settings.filterMap Setting.call?

/- The keys that are set, in order. -/
def cidKeys
    (settings : List Setting) : List Bytes :=
  settings.filterMap Setting.key?

/- The switches that are set, in order. -/
def connections
    (settings : List Setting) : List Bool :=
  settings.filterMap Setting.logged?

/- Routes that fit into one table. -/
structure Routable
    (calls : List AddCall) : Prop where
  valid : ∀ call ∈ calls, call.Valid
  room : calls.length ≤ 1024
  names :
    calls.Pairwise
      (fun old new => ¬ Hostname.SameName old.sni new.sni)
  serverIds :
    calls.Pairwise
      (fun old new =>
        new.serverId = 0 ∨ old.serverId ≠ new.serverId)

/- The last setting of a kind counts, and every route. -/
def meaning
    (hash : Bytes → Nat)
    (settings : List Setting) : Config where
  listenUdp := (listens settings).getLastD [58, 52, 52, 51]
  idleTimeoutSeconds := (idleTimeouts settings).getLastD 60
  maxSessions :=
    (maxSessions settings).getLastD maxSessionsDefault
  logConnections := (connections settings).getLastD false
  routes := (RouteTable.runAdds hash (routes settings)).1
  cidCodec :=
    match (cidKeys settings).getLast? with
    | some key => { key, enabled := true }
    | none => CidCodec.disabled

end Settings

------------------------------------------------------------
-- Settings In Order
------------------------------------------------------------

/- What a setting does to a configuration. -/
def Setting.apply
    (hash : Bytes → Nat)
    (config : Config) :
    Setting → Except Status Config
| .listen address => .ok { config with listenUdp := address }
| .idleTimeout seconds =>
    .ok { config with idleTimeoutSeconds := seconds }
| .maxSessions sessions =>
    .ok { config with maxSessions := sessions }
| .route call => do
    let routes ← RouteTable.addCall hash config.routes call
    return { config with routes }
| .cidKey key =>
    .ok { config with cidCodec := { key, enabled := true } }
| .connections logged =>
    .ok { config with logConnections := logged }

namespace Settings

variable {hash : Bytes → Nat} {calls : List AddCall}
variable {settings : List Setting} {α : Type} {call : AddCall}
variable {config : Config}

/- The last of a list that has grown. -/
theorem getLastD_append_toList
    (items : List α)
    (more : Option α)
    (default : α) :
    (items ++ more.toList).getLastD default =
      more.getD (items.getLastD default) := by
  cases more with
  | none => rw [Option.toList_none, List.append_nil]; rfl
  | some item =>
      rw [Option.toList_some, List.getLastD_concat]
      rfl

theorem filterMap_snoc
    {β : Type}
    (f : α → Option β)
    (items : List α)
    (item : α) :
    (items ++ [item]).filterMap f =
      items.filterMap f ++ (f item).toList := by
  rw [List.filterMap_append]
  cases hItem : f item with
  | none => rw [List.filterMap_cons_none hItem]; rfl
  | some b => rw [List.filterMap_cons_some hItem]; rfl

theorem routable_nil :
    Routable [] :=
  ⟨by simp, by simp, List.Pairwise.nil, List.Pairwise.nil⟩

/- One more route fits if the table would admit it. -/
theorem routable_snoc :
    Routable (calls ++ [call]) ↔
      Routable calls ∧ RouteTable.Admits calls call := by
  constructor
  · intro hAll
    rcases List.pairwise_append.mp hAll.names with
      ⟨hNames, _, hName⟩
    rcases List.pairwise_append.mp hAll.serverIds with
      ⟨hIds, _, hId⟩
    have hRoom := hAll.room
    rw [List.length_append, List.length_singleton] at hRoom
    refine ⟨⟨fun old hIn =>
        hAll.valid old (List.mem_append_left _ hIn),
        by omega, hNames, hIds⟩,
      hAll.valid call (List.mem_append_right _
        List.mem_cons_self),
      by omega,
      fun old hIn => hName old hIn call List.mem_cons_self,
      ?_⟩
    by_cases hZero : call.serverId = 0
    · exact Or.inl hZero
    · right
      intro old hIn
      rcases hId old hIn call List.mem_cons_self with
        hNone | hNe
      · exact absurd hNone hZero
      · exact hNe
  · rintro ⟨hCalls, hAdmits⟩
    refine ⟨?_, ?_, ?_, ?_⟩
    · intro other hIn
      rcases List.mem_append.mp hIn with hOld | hNew
      · exact hCalls.valid other hOld
      · rw [List.mem_singleton.mp hNew]
        exact hAdmits.valid
    · rw [List.length_append, List.length_singleton]
      have hRoom := hAdmits.room
      omega
    · refine List.pairwise_append.mpr
        ⟨hCalls.names, List.pairwise_singleton _ _, ?_⟩
      intro old hOld new hNew
      rw [List.mem_singleton.mp hNew]
      exact hAdmits.name old hOld
    · refine List.pairwise_append.mpr
        ⟨hCalls.serverIds, List.pairwise_singleton _ _, ?_⟩
      intro old hOld new hNew
      rw [List.mem_singleton.mp hNew]
      rcases hAdmits.serverId with hZero | hNe
      · exact Or.inl hZero
      · exact Or.inr (hNe old hOld)

theorem runAdds_snoc
    (calls : List AddCall)
    (call : AddCall) :
    RouteTable.runAdds hash (calls ++ [call]) =
      RouteTable.addStep hash
        (RouteTable.runAdds hash calls) call := by
  unfold RouteTable.runAdds
  rw [List.foldl_append]
  rfl

/- Routes that fit are all added. -/
theorem runAdds_routable
    (hCalls : Routable calls) :
    (RouteTable.runAdds hash calls).2 = calls := by
  induction calls using List.reverseRecOn with
  | nil => rfl
  | append_singleton calls call ih =>
      rcases routable_snoc.mp hCalls with ⟨hOld, hAdmits⟩
      have hTable := RouteTable.runAdds_represents hash calls
      rw [ih hOld] at hTable
      rcases (hTable.admits_iff call).mpr hAdmits with
        ⟨after, hAdd⟩
      rw [runAdds_snoc]
      unfold RouteTable.addStep
      rw [hAdd, ih hOld]

/- Adding one more route to those that fit. -/
theorem addCall_eq_ok_iff
    {after : RouteTable}
    (hCalls : Routable calls) :
    RouteTable.addCall hash
        (RouteTable.runAdds hash calls).1 call = .ok after ↔
      Routable (calls ++ [call]) ∧
        after =
          (RouteTable.runAdds hash (calls ++ [call])).1 := by
  have hTable := RouteTable.runAdds_represents hash calls
  rw [runAdds_routable hCalls] at hTable
  rw [runAdds_snoc, routable_snoc]
  unfold RouteTable.addStep
  constructor
  · intro hAdd
    rw [hAdd]
    exact ⟨⟨hCalls,
      (hTable.admits_iff call).mp ⟨after, hAdd⟩⟩, rfl⟩
  · rintro ⟨⟨_, hAdmits⟩, hAfter⟩
    rcases (hTable.admits_iff call).mpr hAdmits with
      ⟨table, hAdd⟩
    rw [hAdd] at hAfter ⊢
    rw [hAfter]

/- The meaning of settings with one more at the end. -/
theorem meaning_snoc
    (setting : Setting) :
    meaning hash (settings ++ [setting]) =
      { listenUdp :=
          setting.address?.getD
            (meaning hash settings).listenUdp
        idleTimeoutSeconds :=
          setting.seconds?.getD
            (meaning hash settings).idleTimeoutSeconds
        maxSessions :=
          setting.sessions?.getD
            (meaning hash settings).maxSessions
        logConnections :=
          setting.logged?.getD
            (meaning hash settings).logConnections
        routes :=
          (RouteTable.runAdds hash
            (routes settings ++ setting.call?.toList)).1
        cidCodec :=
          match setting.key? with
          | some key => { key, enabled := true }
          | none => (meaning hash settings).cidCodec } := by
  unfold meaning listens idleTimeouts maxSessions
    connections routes cidKeys
  simp only [filterMap_snoc, getLastD_append_toList]
  congr 1
  cases setting.key? with
  | none => rw [Option.toList_none, List.append_nil]
  | some key => rw [Option.toList_some, List.getLast?_concat]

theorem ok_eq_ok_iff
    {made : Config}
    (hCalls : Routable calls) :
    (Except.ok made : Except Status Config) = .ok config ↔
      Routable calls ∧ config = made := by
  constructor
  · intro hOk
    cases hOk
    exact ⟨hCalls, rfl⟩
  · rintro ⟨_, hConfig⟩
    rw [hConfig]

/- Routes that fit still do with fewer at the end. -/
theorem Routable.of_append
    {all more : List AddCall}
    (hAll : Routable all)
    (hSplit : all = calls ++ more) :
    Routable calls := by
  subst hSplit
  have hRoom := hAll.room
  rw [List.length_append] at hRoom
  exact ⟨fun call hIn =>
      hAll.valid call (List.mem_append_left _ hIn),
    by omega,
    (List.pairwise_append.mp hAll.names).1,
    (List.pairwise_append.mp hAll.serverIds).1⟩

theorem apply_meaning
    {setting : Setting}
    (hRoutes : Routable (routes settings)) :
    setting.apply hash (meaning hash settings) = .ok config ↔
      Routable (routes (settings ++ [setting])) ∧
        config = meaning hash (settings ++ [setting]) := by
  have hCalls :
      routes (settings ++ [setting]) =
        routes settings ++ setting.call?.toList :=
    filterMap_snoc Setting.call? settings setting
  rw [hCalls, meaning_snoc]
  cases setting
  case route call =>
    unfold Setting.apply
    rw [Stepwise.bind_eq_ok]
    constructor
    · rintro ⟨table, hAdd, hDone⟩
      rcases (addCall_eq_ok_iff hRoutes).mp hAdd with
        ⟨hFits, hTable⟩
      cases hDone
      exact ⟨hFits, by rw [hTable]; rfl⟩
    · rintro ⟨hFits, hConfig⟩
      exact ⟨_, (addCall_eq_ok_iff hRoutes).mpr ⟨hFits, rfl⟩,
        congrArg Except.ok hConfig.symm⟩
  -- The other settings always succeed.
  all_goals
    simp only [Setting.call?, Option.toList_none,
      List.append_nil]
    exact ok_eq_ok_iff hRoutes

/- Settings that are applied in order. -/
theorem applyAll_eq_ok_iff
    (settings : List Setting)
    (config : Config) :
    settings.foldlM (Setting.apply hash) Config.default =
        .ok config ↔
      Routable (routes settings) ∧
        config = meaning hash settings := by
  induction settings using List.reverseRecOn
    generalizing config with
  | nil =>
      constructor
      · intro hDone
        cases hDone
        exact ⟨routable_nil, rfl⟩
      · rintro ⟨_, hConfig⟩
        exact congrArg Except.ok hConfig.symm
  | append_singleton settings setting ih =>
      rw [Stepwise.foldlM_append_eq_ok]
      constructor
      · rintro ⟨middle, hFirst, hLast⟩
        rcases (ih middle).mp hFirst with ⟨hRoutes, hMiddle⟩
        rw [Stepwise.foldlM_singleton, hMiddle] at hLast
        exact (apply_meaning hRoutes).mp hLast
      · rintro ⟨hAll, hConfig⟩
        have hRoutes : Routable (routes settings) :=
          hAll.of_append
            (filterMap_snoc Setting.call? settings setting)
        refine ⟨_, (ih _).mpr ⟨hRoutes, rfl⟩, ?_⟩
        rw [Stepwise.foldlM_singleton]
        exact (apply_meaning hRoutes).mpr ⟨hAll, hConfig⟩

end Settings

end QuicSniRouter
