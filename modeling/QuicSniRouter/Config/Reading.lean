import QuicSniRouter.Config.Grammar

/-
  The loader reads the configuration file format: it accepts
  the documents that spell settings whose routes fit
  together, and these settings are in force then.

  Main declarations:
    * `Document.parseRoutesPair_eq_ok`
    * `Document.parseSection_eq_ok`
    * `Settings.load_follows_grammar`
    * `Config.WellFormed`
-/

------------------------------------------------------------
-- Reading
------------------------------------------------------------

namespace QuicSniRouter

namespace Document

variable {hash : Bytes → Nat} {node : YamlNode}

theorem copyScalar_eq_ok
    {room : Nat}
    {value : Bytes} :
    copyScalar node room = .ok value ↔
      node = .scalar value ∧ Text room value := by
  unfold copyScalar
  split
  · rename_i other
    split
    · rename_i hLong
      constructor
      · intro hOk
        cases hOk
      · rintro ⟨hNode, hText⟩
        cases hNode
        have hFits := hText.fits
        omega
    · rename_i hFits
      split
      · rename_i hZero
        constructor
        · intro hOk
          cases hOk
        · rintro ⟨hNode, hText⟩
          cases hNode
          exact absurd hZero hText.clean
      · rename_i hClean
        constructor
        · intro hOk
          cases hOk
          exact ⟨rfl, by omega, hClean⟩
        · rintro ⟨hNode, _⟩
          cases hNode
          rfl
  · rename_i hOther
    constructor
    · intro hOk
      cases hOk
    · rintro ⟨hNode, _⟩
      exact absurd hNode (hOther value)

theorem mappingPairs_eq_ok
    {pairs : List (YamlNode × YamlNode)} :
    mappingPairs node = .ok pairs ↔
      node = .mapping pairs := by
  cases node with
  | scalar value => simp [mappingPairs]
  | sequence => simp [mappingPairs]
  | mapping others => simp [mappingPairs]

variable (config : Config) (pair : YamlNode × YamlNode)

theorem parseListenPair_eq_ok
    (after : Config) :
    parseListenPair config pair.1 pair.2 = .ok after ↔
      ∃ setting, ListenEntry pair setting ∧
        setting.apply hash config = .ok after := by
  rcases pair with ⟨k, v⟩
  unfold parseListenPair
  simp only [Stepwise.bind_eq_ok, Stepwise.guard_eq_ok,
    copyScalar_eq_ok]
  constructor
  · rintro ⟨key, ⟨hKey, _⟩, hUdp, address,
      ⟨hAddress, hText⟩, hSome, hDone⟩
    rw [not_not] at hUdp
    subst hKey hUdp hAddress
    exact ⟨_, ListenEntry.udp address hText
      (mt List.length_eq_zero_iff.mpr hSome), hDone⟩
  · rintro ⟨setting, hEntry, hDone⟩
    cases hEntry with
    | udp address hText hSome =>
        exact ⟨udpKey, ⟨rfl, by decide, by decide⟩,
          not_not.mpr rfl, address, ⟨rfl, hText⟩,
          mt List.length_eq_zero_iff.mp hSome, hDone⟩

theorem parseSessionsPair_eq_ok
    (after : Config) :
    parseSessionsPair config pair.1 pair.2 = .ok after ↔
      ∃ setting, SessionsEntry pair setting ∧
        setting.apply hash config = .ok after := by
  rcases pair with ⟨k, v⟩
  unfold parseSessionsPair
  simp only [Stepwise.bind_eq_ok, copyScalar_eq_ok]
  constructor
  · rintro ⟨key, ⟨hKey, _⟩, text, ⟨hText, hFits⟩, hRest⟩
    subst hKey hText
    split at hRest
    · rename_i hIdle
      subst hIdle
      rcases Stepwise.bind_eq_ok.mp hRest with
        ⟨seconds, hNumber, hDone⟩
      exact ⟨_, SessionsEntry.idleTimeout text seconds hFits
        (Scalar.parseU32_eq_ok.mp hNumber), hDone⟩
    · split at hRest
      · rename_i hMax
        subst hMax
        rcases Stepwise.bind_eq_ok.mp hRest with
          ⟨sessions, hNumber, hDone⟩
        exact ⟨_, SessionsEntry.maxSessions text sessions
          hFits (Scalar.parseSize_eq_ok.mp hNumber), hDone⟩
      · cases hRest
  · rintro ⟨setting, hEntry, hDone⟩
    cases hEntry with
    | idleTimeout text seconds hFits hNumber =>
        refine ⟨idleTimeoutKey,
          ⟨rfl, by decide, by decide⟩, text, ⟨rfl, hFits⟩,
          ?_⟩
        rw [if_pos rfl]
        exact Stepwise.bind_eq_ok.mpr
          ⟨seconds, Scalar.parseU32_eq_ok.mpr hNumber, hDone⟩
    | maxSessions text sessions hFits hNumber =>
        refine ⟨maxSessionsKey,
          ⟨rfl, by decide, by decide⟩, text, ⟨rfl, hFits⟩,
          ?_⟩
        rw [if_neg (by decide), if_pos rfl]
        exact Stepwise.bind_eq_ok.mpr
          ⟨sessions, Scalar.parseSize_eq_ok.mpr hNumber,
            hDone⟩

theorem parseBool_eq_ok
    {text : Bytes}
    {value : Bool} :
    parseBool text = .ok value ↔
      (text = [116, 114, 117, 101] ∧ value = true) ∨
        (text = [102, 97, 108, 115, 101] ∧
          value = false) := by
  unfold parseBool
  split
  · rename_i hTrue
    subst hTrue
    cases value <;> simp
  · rename_i hTrue
    split
    · rename_i hFalse
      subst hFalse
      cases value <;> simp
    · rename_i hFalse
      simp [hTrue, hFalse]

theorem parseLoggingPair_eq_ok
    (after : Config) :
    parseLoggingPair config pair.1 pair.2 = .ok after ↔
      ∃ setting, LoggingEntry pair setting ∧
        setting.apply hash config = .ok after := by
  rcases pair with ⟨k, v⟩
  unfold parseLoggingPair
  simp only [Stepwise.bind_eq_ok, copyScalar_eq_ok]
  constructor
  · rintro ⟨key, ⟨hKey, _⟩, text, ⟨hText, _⟩, hRest⟩
    subst hKey hText
    split at hRest
    · rename_i hConnections
      subst hConnections
      rcases Stepwise.bind_eq_ok.mp hRest with
        ⟨logged, hBool, hDone⟩
      rcases parseBool_eq_ok.mp hBool with
        ⟨hText, hLogged⟩ | ⟨hText, hLogged⟩
      · subst hText hLogged
        exact ⟨_, LoggingEntry.on, hDone⟩
      · subst hText hLogged
        exact ⟨_, LoggingEntry.off, hDone⟩
    · cases hRest
  · rintro ⟨setting, hEntry, hDone⟩
    cases hEntry with
    | on =>
        refine ⟨connectionsKey,
          ⟨rfl, by decide, by decide⟩, _,
          ⟨rfl, by decide, by decide⟩, ?_⟩
        rw [if_pos rfl]
        exact Stepwise.bind_eq_ok.mpr ⟨true, rfl, hDone⟩
    | off =>
        refine ⟨connectionsKey,
          ⟨rfl, by decide, by decide⟩, _,
          ⟨rfl, by decide, by decide⟩, ?_⟩
        rw [if_pos rfl]
        exact Stepwise.bind_eq_ok.mpr ⟨false, rfl, hDone⟩

end Document

------------------------------------------------------------
-- Routes And Keys
------------------------------------------------------------

open RouteTable (AddCall)

/- What a field does to a route that is being collected. -/
def RouteField.apply
    (body : RouteBody) :
    RouteField → Except Status RouteBody
| .host name => .ok { body with host := name }
| .port number => .ok { body with port := number }
| .serverId id =>
    .ok { body with serverId := UInt8.ofNat id }

namespace Document

variable {hash : Bytes → Nat}
variable {pairs : List (YamlNode × YamlNode)}
variable {fields : List RouteField}

theorem parseRoutePair_eq_ok
    (body : RouteBody)
    (pair : YamlNode × YamlNode)
    (after : RouteBody) :
    parseRoutePair body pair.1 pair.2 = .ok after ↔
      ∃ field, FieldEntry pair field ∧
        field.apply body = .ok after := by
  rcases pair with ⟨k, v⟩
  unfold parseRoutePair
  simp only [Stepwise.bind_eq_ok, copyScalar_eq_ok]
  constructor
  · rintro ⟨key, ⟨hKey, _⟩, hRest⟩
    subst hKey
    simp only [ite_eq_iff] at hRest
    rcases hRest with
      ⟨hIs, hRest⟩ | ⟨_, ⟨hIs, hRest⟩ | ⟨_,
        ⟨hIs, hRest⟩ | ⟨_, hRest⟩⟩⟩
    · subst hIs
      cases hCopy : copyScalar v (maxAddrLen + 1) with
      | error status =>
          rw [hCopy] at hRest
          cases hRest
      | ok name =>
          rw [hCopy] at hRest
          rcases copyScalar_eq_ok.mp hCopy with ⟨hNode, hText⟩
          rcases Stepwise.guard_eq_ok.mp hRest with
            ⟨hSome, hDone⟩
          subst hNode
          exact ⟨_, .host name hText
            (mt List.length_eq_zero_iff.mpr hSome), hDone⟩
    · subst hIs
      simp only [Stepwise.bind_eq_ok, copyScalar_eq_ok,
        parsePort, Scalar.parseU32_eq_ok] at hRest
      rcases hRest with
        ⟨text, ⟨hNode, hText⟩, number, hNumber, hDone⟩
      subst hNode
      exact ⟨_, .port text number hText hNumber, hDone⟩
    · subst hIs
      simp only [Stepwise.bind_eq_ok, copyScalar_eq_ok,
        Scalar.parseU32_eq_ok] at hRest
      rcases hRest with
        ⟨text, ⟨hNode, hText⟩, id, hNumber, hDone⟩
      subst hNode
      exact ⟨_, .serverId text id hText hNumber, hDone⟩
    · cases hRest
  · rintro ⟨field, hEntry, hDone⟩
    cases hEntry with
    | host name hText hSome =>
        refine ⟨hostKey, ⟨rfl, by decide, by decide⟩, ?_⟩
        rw [if_pos rfl, copyScalar_eq_ok.mpr ⟨rfl, hText⟩]
        exact Stepwise.guard_eq_ok.mpr
          ⟨mt List.length_eq_zero_iff.mp hSome, hDone⟩
    | port text number hText hNumber =>
        refine ⟨portKey, ⟨rfl, by decide, by decide⟩, ?_⟩
        rw [if_neg (by decide), if_pos rfl]
        simp only [Stepwise.bind_eq_ok, copyScalar_eq_ok,
          parsePort, Scalar.parseU32_eq_ok]
        exact ⟨text, ⟨rfl, hText⟩, number, hNumber, hDone⟩
    | serverId text id hText hNumber =>
        refine ⟨serverIdKey,
          ⟨rfl, by decide, by decide⟩, ?_⟩
        rw [if_neg (by decide), if_neg (by decide),
          if_pos rfl]
        simp only [Stepwise.bind_eq_ok, copyScalar_eq_ok,
          Scalar.parseU32_eq_ok]
        exact ⟨text, ⟨rfl, hText⟩, id, hNumber, hDone⟩

/- The route that the fields of a body add up to. -/
theorem applyFields
    (fields : List RouteField) :
    fields.foldlM RouteField.apply
        { host := [], port := 0, serverId := 0 } =
      (.ok
        { host :=
            (fields.filterMap RouteField.name?).getLastD []
          port :=
            (fields.filterMap RouteField.number?).getLastD 0
          serverId :=
            (fields.filterMap RouteField.id?).getLastD 0 } :
        Except Status RouteBody) := by
  induction fields using List.reverseRecOn with
  | nil => rfl
  | append_singleton fields field ih =>
      rw [List.foldlM_append, ih]
      simp only [Settings.filterMap_snoc,
        Settings.getLastD_append_toList]
      cases field <;> rfl

/- A default that does not occur shows that none does. -/
theorem getLast?_eq_some_iff_getLastD
    {α : Type}
    {items : List α}
    {default : α}
    (hOther : ∀ other ∈ items, other ≠ default)
    (item : α) :
    items.getLast? = some item ↔
      items.getLastD default = item ∧ item ≠ default := by
  rw [List.getLastD_eq_getLast?]
  cases hLast : items.getLast? with
  | none =>
      constructor
      · intro hSome
        cases hSome
      · rintro ⟨hEq, hNe⟩
        exact absurd hEq.symm hNe
  | some last =>
      have hIn := List.mem_of_getLast? hLast
      constructor
      · intro hSome
        cases hSome
        exact ⟨rfl, hOther item hIn⟩
      · rintro ⟨hEq, _⟩
        exact congrArg some hEq

/- Every host is named and no port is zero. -/
theorem fields_nonzero
    (hFields : List.Forall₂ FieldEntry pairs fields) :
    (∀ name ∈ fields.filterMap RouteField.name?, name ≠ []) ∧
      ∀ number ∈ fields.filterMap RouteField.number?,
        number ≠ 0 := by
  constructor
  · intro name hIn
    rcases List.mem_filterMap.mp hIn with
      ⟨field, hField, hName⟩
    rcases Stepwise.exists_of_mem_right hFields hField with
      ⟨pair, _, hEntry⟩
    cases hEntry with
    | host other _ hSome =>
        cases hName
        exact hSome
    | port => cases hName
    | serverId => cases hName
  · intro number hIn
    rcases List.mem_filterMap.mp hIn with
      ⟨field, hField, hNumber⟩
    rcases Stepwise.exists_of_mem_right hFields hField with
      ⟨pair, _, hEntry⟩
    cases hEntry with
    | host => cases hNumber
    | port text other _ hAccepted =>
        cases hNumber
        rcases hAccepted with
          ⟨_, _, _, _, _, _, _, _, hLow, _⟩
        omega
    | serverId => cases hNumber

/- The fields of a route, as the loader collects them. -/
theorem collected_iff
    (hFields : List.Forall₂ FieldEntry pairs fields)
    (sni : Bytes)
    (body : RouteBody) :
    (fields.foldlM RouteField.apply
        { host := [], port := 0, serverId := 0 } = .ok body ∧
      ¬ (body.host.length = 0 ∨ body.port = 0)) ↔
      Describes fields
        { sni
          host := body.host
          port := body.port
          serverId := body.serverId } := by
  rcases fields_nonzero hFields with ⟨hHosts, hPorts⟩
  have hHost := getLast?_eq_some_iff_getLastD hHosts body.host
  have hPort := getLast?_eq_some_iff_getLastD hPorts body.port
  rw [applyFields, not_or]
  constructor
  · rintro ⟨hBody, hNamed, hNumbered⟩
    cases hBody
    exact ⟨hHost.mpr
        ⟨rfl, mt List.length_eq_zero_iff.mpr hNamed⟩,
      hPort.mpr ⟨rfl, hNumbered⟩, rfl⟩
  · intro hDescribes
    rcases hHost.mp hDescribes.host with ⟨hName, hNamed⟩
    rcases hPort.mp hDescribes.port with ⟨hNumber, hNumbered⟩
    rw [hName, hNumber, hDescribes.serverId]
    exact ⟨rfl, mt List.length_eq_zero_iff.mp hNamed,
      hNumbered⟩

theorem parseRoutesPair_eq_ok
    (config : Config)
    (pair : YamlNode × YamlNode)
    (after : Config) :
    parseRoutesPair hash config pair.1 pair.2 = .ok after ↔
      ∃ setting, RouteEntry pair setting ∧
        setting.apply hash config = .ok after := by
  rcases pair with ⟨k, v⟩
  unfold parseRoutesPair
  constructor
  · intro hParse
    cases hCopy : copyScalar k (maxHostnameLen + 1) with
    | error status =>
        rw [hCopy] at hParse
        cases hParse
    | ok sni =>
        rw [hCopy] at hParse
        rcases copyScalar_eq_ok.mp hCopy with ⟨hNode, hText⟩
        subst hNode
        dsimp only at hParse
        split at hParse
        · cases hParse
        · rename_i hSome
          unfold parseRouteBody at hParse
          simp only [Stepwise.bind_eq_ok,
            Stepwise.guard_eq_ok, mappingPairs_eq_ok]
            at hParse
          rcases hParse with
            ⟨pairs, hMapping, body, hBody, hFull, table,
              hAdd, hDone⟩
          subst hMapping
          rcases (Stepwise.foldlM_eq_ok_iff
            parseRoutePair_eq_ok pairs _ body).mp hBody with
            ⟨fields, hFields, hFold⟩
          exact ⟨_, RouteEntry.route pairs fields
            { sni
              host := body.host
              port := body.port
              serverId := body.serverId }
            hText
            (mt List.length_eq_zero_iff.mpr hSome) hFields
            ((collected_iff hFields sni body).mp
              ⟨hFold, hFull⟩),
            Stepwise.bind_eq_ok.mpr
              ⟨table, hAdd, hDone⟩⟩
  · rintro ⟨setting, hEntry, hDone⟩
    cases hEntry with
    | route pairs fields call hText hSome hFields
        hDescribes =>
        rcases Stepwise.bind_eq_ok.mp hDone with
          ⟨table, hAdd, hDone⟩
        rcases (collected_iff hFields call.sni
          { host := call.host
            port := call.port
            serverId := call.serverId }).mpr hDescribes with
          ⟨hFold, hFull⟩
        have hBody :=
          (Stepwise.foldlM_eq_ok_iff parseRoutePair_eq_ok
            pairs _ _).mpr ⟨fields, hFields, hFold⟩
        rw [copyScalar_eq_ok.mpr ⟨rfl, hText⟩]
        dsimp only
        rw [if_neg (mt List.length_eq_zero_iff.mp hSome)]
        unfold parseRouteBody
        simp only [Stepwise.bind_eq_ok,
          Stepwise.guard_eq_ok, mappingPairs_eq_ok]
        exact ⟨pairs, rfl, _, hBody, hFull, table, hAdd,
          hDone⟩

theorem parseCidEncodingPair_eq_ok
    (_ : Bytes)
    (pair : YamlNode × YamlNode)
    (after : Bytes) :
    parseCidEncodingPair pair.1 pair.2 = .ok after ↔
      ∃ text, KeyEntry pair text ∧
        (.ok text : Except Status Bytes) = .ok after := by
  rcases pair with ⟨k, v⟩
  unfold parseCidEncodingPair
  simp only [Stepwise.bind_eq_ok, copyScalar_eq_ok]
  constructor
  · rintro ⟨key, ⟨hKey, _⟩, hRest⟩
    subst hKey
    split at hRest
    · rename_i hIs
      subst hIs
      rcases copyScalar_eq_ok.mp hRest with ⟨hNode, hText⟩
      subst hNode
      exact ⟨after, KeyEntry.key after hText, rfl⟩
    · cases hRest
  · rintro ⟨text, hEntry, hDone⟩
    cases hEntry with
    | key text hText =>
        cases hDone
        refine ⟨keyKey, ⟨rfl, by decide, by decide⟩, ?_⟩
        rw [if_pos rfl]
        exact copyScalar_eq_ok.mpr ⟨rfl, hText⟩

theorem keepLast
    (texts : List Bytes) :
    texts.foldlM
        (fun _ text =>
          (.ok text : Except Status Bytes)) [] =
      .ok (texts.getLastD []) := by
  induction texts using List.reverseRecOn with
  | nil => rfl
  | append_singleton texts text ih =>
      rw [List.foldlM_append, ih, List.getLastD_concat]
      rfl

theorem initFromHex_eq_ok
    {text : Bytes}
    {codec : CidCodec} :
    CidCodec.initFromHex text = .ok codec ↔
      ∃ key, text.length = cidKeyLen * 2 ∧
        CidCodec.hexBytes text = some key ∧
        codec = { key, enabled := true } := by
  unfold CidCodec.initFromHex
  split
  · rename_i hLength
    simp [hLength]
  · rename_i hLength
    rw [not_not] at hLength
    cases hHex : CidCodec.hexBytes text with
    | none => simp
    | some key => simp [hLength, eq_comm]

theorem parseCidEncoding_eq_ok
    {config after : Config} :
    parseCidEncoding (.mapping pairs) config = .ok after ↔
      ∃ settings,
        Section (.scalar cidEncodingKey, .mapping pairs)
          settings ∧
        settings.foldlM (Setting.apply hash) config =
          .ok after := by
  have hFold :=
    Stepwise.foldlM_eq_ok_iff parseCidEncodingPair_eq_ok
      pairs []
  unfold parseCidEncoding
  simp only [Stepwise.bind_eq_ok, Stepwise.guard_eq_ok,
    mappingPairs_eq_ok, initFromHex_eq_ok]
  constructor
  · rintro ⟨others, hMapping, text, hTexts, _, codec,
      ⟨key, hLength, hHex, hCodec⟩, hDone⟩
    cases hMapping
    rcases (hFold text).mp hTexts with ⟨texts, hPairs, hLast⟩
    rw [keepLast, Except.ok.injEq] at hLast
    refine ⟨_, Section.cidEncoding pairs texts text key
      hPairs ?_ hLength hHex, ?_⟩
    · rw [List.getLastD_eq_getLast?] at hLast
      cases hTail : texts.getLast? with
      | none =>
          rw [hTail] at hLast
          rw [← hLast] at hLength
          cases hLength
      | some last =>
          rw [hTail] at hLast
          exact congrArg some hLast
    · rw [Stepwise.foldlM_singleton]
      subst hCodec
      exact hDone
  · rintro ⟨settings, hSection, hDone⟩
    cases hSection with
    | cidEncoding _ texts text key hPairs hLast hLength
        hHex =>
        rw [Stepwise.foldlM_singleton] at hDone
        refine ⟨pairs, rfl, text, (hFold text).mpr
          ⟨texts, hPairs, ?_⟩, ?_, _,
          ⟨key, hLength, hHex, rfl⟩, hDone⟩
        · rw [keepLast, List.getLastD_eq_getLast?, hLast]
          rfl
        · rw [hLength]
          decide

------------------------------------------------------------
-- Sections
------------------------------------------------------------

variable {config after : Config}

/- A section whose entries each set one thing. -/
theorem parseMapping_eq_ok
    {step : Config → YamlNode × YamlNode →
      Except Status Config}
    {entry : YamlNode × YamlNode → Setting → Prop}
    (hStep :
      ∀ config pair after,
        step config pair = .ok after ↔
          ∃ setting, entry pair setting ∧
            setting.apply hash config = .ok after)
    (node : YamlNode) :
    (do
      let pairs ← mappingPairs node
      pairs.foldlM step config) = .ok after ↔
      ∃ pairs settings, node = .mapping pairs ∧
        List.Forall₂ entry pairs settings ∧
        settings.foldlM (Setting.apply hash) config =
          .ok after := by
  rw [Stepwise.bind_eq_ok]
  constructor
  · rintro ⟨pairs, hPairs, hFold⟩
    rcases (Stepwise.foldlM_eq_ok_iff hStep pairs config
      after).mp hFold with ⟨settings, hSettings, hDone⟩
    exact ⟨pairs, settings, mappingPairs_eq_ok.mp hPairs,
      hSettings, hDone⟩
  · rintro ⟨pairs, settings, hNode, hSettings, hDone⟩
    exact ⟨pairs, mappingPairs_eq_ok.mpr hNode,
      (Stepwise.foldlM_eq_ok_iff hStep pairs config
        after).mpr ⟨settings, hSettings, hDone⟩⟩

theorem parseCidEncoding_mapping
    {node : YamlNode}
    (hOk : parseCidEncoding node config = .ok after) :
    ∃ pairs, node = .mapping pairs := by
  unfold parseCidEncoding at hOk
  rcases Stepwise.bind_eq_ok.mp hOk with ⟨pairs, hPairs, _⟩
  exact ⟨pairs, mappingPairs_eq_ok.mp hPairs⟩

/- A section is read as its settings. -/
theorem parseSection_eq_ok
    (config : Config)
    (pair : YamlNode × YamlNode)
    (after : Config) :
    parseSection hash config pair.1 pair.2 = .ok after ↔
      ∃ settings, Section pair settings ∧
        settings.foldlM (Setting.apply hash) config =
          .ok after := by
  rcases pair with ⟨k, v⟩
  unfold parseSection
  simp only [Stepwise.bind_eq_ok, copyScalar_eq_ok]
  constructor
  · rintro ⟨key, ⟨hKey, _⟩, hRest⟩
    subst hKey
    simp only [ite_eq_iff] at hRest
    rcases hRest with
      ⟨hIs, hRest⟩ | ⟨_, ⟨hIs, hRest⟩ | ⟨_,
        ⟨hIs, hRest⟩ | ⟨_, ⟨hIs, hRest⟩ | ⟨_,
          ⟨hIs, hRest⟩ | ⟨_, hRest⟩⟩⟩⟩⟩
    · subst hIs
      rcases (parseMapping_eq_ok parseListenPair_eq_ok
        v).mp hRest with
        ⟨pairs, settings, hNode, hEntries, hDone⟩
      subst hNode
      exact ⟨settings, .listen pairs settings hEntries, hDone⟩
    · subst hIs
      rcases (parseMapping_eq_ok parseSessionsPair_eq_ok
        v).mp hRest with
        ⟨pairs, settings, hNode, hEntries, hDone⟩
      subst hNode
      exact ⟨settings, .sessions pairs settings hEntries,
        hDone⟩
    · subst hIs
      rcases (parseMapping_eq_ok parseRoutesPair_eq_ok
        v).mp hRest with
        ⟨pairs, settings, hNode, hEntries, hDone⟩
      subst hNode
      exact ⟨settings, .routes pairs settings hEntries, hDone⟩
    · subst hIs
      rcases parseCidEncoding_mapping hRest with
        ⟨pairs, hNode⟩
      subst hNode
      exact parseCidEncoding_eq_ok.mp hRest
    · subst hIs
      rcases (parseMapping_eq_ok parseLoggingPair_eq_ok
        v).mp hRest with
        ⟨pairs, settings, hNode, hEntries, hDone⟩
      subst hNode
      exact ⟨settings, .logging pairs settings hEntries,
        hDone⟩
    · cases hRest
  · rintro ⟨settings, hSection, hDone⟩
    cases hSection with
    | listen pairs _ hEntries =>
        refine ⟨listenKey,
          ⟨rfl, by decide, by decide⟩, ?_⟩
        rw [if_pos rfl]
        exact (parseMapping_eq_ok parseListenPair_eq_ok
          _).mpr ⟨pairs, settings, rfl, hEntries, hDone⟩
    | sessions pairs _ hEntries =>
        refine ⟨sessionsKey,
          ⟨rfl, by decide, by decide⟩, ?_⟩
        rw [if_neg (by decide), if_pos rfl]
        exact (parseMapping_eq_ok parseSessionsPair_eq_ok
          _).mpr ⟨pairs, settings, rfl, hEntries, hDone⟩
    | routes pairs _ hEntries =>
        refine ⟨routesKey,
          ⟨rfl, by decide, by decide⟩, ?_⟩
        rw [if_neg (by decide), if_neg (by decide),
          if_pos rfl]
        exact (parseMapping_eq_ok parseRoutesPair_eq_ok
          _).mpr ⟨pairs, settings, rfl, hEntries, hDone⟩
    | cidEncoding pairs texts text key hPairs hLast hLength
        hHex =>
        refine ⟨cidEncodingKey,
          ⟨rfl, by decide, by decide⟩, ?_⟩
        rw [if_neg (by decide), if_neg (by decide),
          if_neg (by decide), if_pos rfl]
        exact parseCidEncoding_eq_ok.mpr
          ⟨_, Section.cidEncoding pairs texts text key
            hPairs hLast hLength hHex, hDone⟩
    | logging pairs _ hEntries =>
        refine ⟨loggingKey,
          ⟨rfl, by decide, by decide⟩, ?_⟩
        rw [if_neg (by decide), if_neg (by decide),
          if_neg (by decide), if_neg (by decide),
          if_pos rfl]
        exact (parseMapping_eq_ok parseLoggingPair_eq_ok
          _).mpr ⟨pairs, settings, rfl, hEntries, hDone⟩

/- A document is read as its settings. -/
theorem parseRoot_eq_ok
    (root : Option YamlNode)
    (config after : Config) :
    parseRoot hash root config = .ok after ↔
      ∃ settings, Spells root settings ∧
        settings.foldlM (Setting.apply hash) config =
          .ok after := by
  have hFold :=
    Stepwise.foldlM_eq_ok_iff (@parseSection_eq_ok hash)
  cases root with
  | none =>
      constructor
      · intro hDone
        exact ⟨[], Spells.empty, hDone⟩
      · rintro ⟨settings, hSpells, hDone⟩
        cases hSpells
        exact hDone
  | some node =>
      unfold parseRoot
      rw [Stepwise.bind_eq_ok]
      constructor
      · rintro ⟨pairs, hPairs, hSections⟩
        rw [mappingPairs_eq_ok.mp hPairs]
        rcases (hFold pairs config after).mp hSections with
          ⟨parts, hParts, hDone⟩
        rw [Stepwise.foldlM_flatten] at hDone
        exact ⟨_, Spells.sections pairs parts hParts, hDone⟩
      · rintro ⟨settings, hSpells, hDone⟩
        cases hSpells with
        | sections pairs parts hParts =>
            refine ⟨pairs, rfl,
              (hFold pairs config after).mpr
                ⟨parts, hParts, ?_⟩⟩
            rw [Stepwise.foldlM_flatten]
            exact hDone

end Document

namespace Settings

/-
  A file is accepted if it spells settings whose routes fit
  together, and then the settings are in force: the last of
  each kind, and for every name the route it was given.
-/
theorem load_follows_grammar
    (hash : Bytes → Nat)
    (root : Option YamlNode)
    (config : Config) :
    Config.load hash (.document root) = .ok config ↔
      ∃ settings, Document.Spells root settings ∧
        Routable (routes settings) ∧
        config = meaning hash settings ∧
        ∀ name route,
          config.routes.lookup hash name = some route ↔
            ∃ call ∈ routes settings,
              Hostname.SameName call.sni name ∧
                route = call.route := by
  unfold Config.load
  rw [Document.parseRoot_eq_ok]
  constructor
  · rintro ⟨settings, hSpells, hApply⟩
    rcases (applyAll_eq_ok_iff settings config).mp hApply
      with ⟨hRoutes, hConfig⟩
    refine ⟨settings, hSpells, hRoutes, hConfig, ?_⟩
    have hTable :=
      RouteTable.runAdds_represents hash (routes settings)
    rw [runAdds_routable hRoutes] at hTable
    rw [hConfig]
    exact hTable.lookup_eq_some
  · rintro ⟨settings, hSpells, hRoutes, hConfig, _⟩
    exact ⟨settings, hSpells,
      (applyAll_eq_ok_iff settings config).mpr
        ⟨hRoutes, hConfig⟩⟩

end Settings

/- The ranges that the loader enforces. -/
structure Config.WellFormed
    (config : Config) : Prop where
  listen :
    config.listenUdp ≠ [] ∧
      Document.Text maxListenAddrLen config.listenUdp
  idleTimeout :
    1 ≤ config.idleTimeoutSeconds ∧
      config.idleTimeoutSeconds ≤ 86400
  maxSessions :
    1 ≤ config.maxSessions ∧
      config.maxSessions ≤ maxSessionsDefault * 10

namespace Document

variable {root : Option YamlNode} {settings : List Setting}
variable {setting : Setting}

/- What a single setting may be. -/
def InRange :
    Setting → Prop
| .listen address =>
    address ≠ [] ∧ Text maxListenAddrLen address
| .idleTimeout seconds => 1 ≤ seconds ∧ seconds ≤ 86400
| .maxSessions sessions =>
    1 ≤ sessions ∧ sessions ≤ maxSessionsDefault * 10
| _ => True

theorem Section.inRange
    {pair : YamlNode × YamlNode}
    (hSection : Section pair settings)
    (hIn : setting ∈ settings) :
    InRange setting := by
  cases hSection with
  | listen pairs _ hPairs =>
      rcases Stepwise.exists_of_mem_right hPairs hIn with
        ⟨_, _, hEntry⟩
      cases hEntry with
      | udp address hText hSome => exact ⟨hSome, hText⟩
  | sessions pairs _ hPairs =>
      rcases Stepwise.exists_of_mem_right hPairs hIn with
        ⟨_, _, hEntry⟩
      cases hEntry with
      | idleTimeout text seconds _ hNumber =>
          rcases hNumber with
            ⟨_, _, _, _, _, _, _, _, hLow, hHigh⟩
          exact ⟨hLow, hHigh⟩
      | maxSessions text sessions _ hNumber =>
          rcases hNumber with
            ⟨_, _, _, _, _, _, _, _, hLow, hHigh⟩
          exact ⟨hLow, hHigh⟩
  | routes pairs _ hPairs =>
      rcases Stepwise.exists_of_mem_right hPairs hIn with
        ⟨_, _, hEntry⟩
      cases hEntry
      trivial
  | cidEncoding pairs texts text key =>
      rw [List.mem_singleton.mp hIn]
      trivial
  | logging pairs _ hPairs =>
      rcases Stepwise.exists_of_mem_right hPairs hIn with
        ⟨_, _, hEntry⟩
      cases hEntry <;> trivial

theorem Spells.inRange
    (hSpells : Spells root settings)
    (hIn : setting ∈ settings) :
    InRange setting := by
  cases hSpells with
  | empty => cases hIn
  | sections pairs parts hParts =>
      rcases List.mem_flatten.mp hIn with
        ⟨part, hPart, hSetting⟩
      rcases Stepwise.exists_of_mem_right hParts hPart with
        ⟨pair, _, hSection⟩
      exact hSection.inRange hSetting

/- The last setting of a kind, or what stands for none. -/
theorem getLastD_induction
    {α : Type}
    {P : α → Prop}
    {items : List α}
    {default : α}
    (hItems : ∀ item ∈ items, P item)
    (hDefault : P default) :
    P (items.getLastD default) := by
  rw [List.getLastD_eq_getLast?]
  cases hLast : items.getLast? with
  | none => exact hDefault
  | some item =>
      exact hItems item (List.mem_of_getLast? hLast)

theorem Spells.wellFormed
    (hSpells : Spells root settings)
    (hash : Bytes → Nat) :
    (Settings.meaning hash settings).WellFormed := by
  refine ⟨?_, ?_, ?_⟩
  · apply getLastD_induction (P := fun address =>
      address ≠ [] ∧ Text maxListenAddrLen address)
    · intro address hIn
      rcases List.mem_filterMap.mp hIn with
        ⟨setting, hSetting, hAddress⟩
      have hRange := hSpells.inRange hSetting
      cases setting <;> cases hAddress
      exact hRange
    · exact ⟨by decide, by decide, by decide⟩
  · apply getLastD_induction (P := fun seconds =>
      1 ≤ seconds ∧ seconds ≤ 86400)
    · intro seconds hIn
      rcases List.mem_filterMap.mp hIn with
        ⟨setting, hSetting, hSeconds⟩
      have hRange := hSpells.inRange hSetting
      cases setting <;> cases hSeconds
      exact hRange
    · decide
  · apply getLastD_induction (P := fun sessions =>
      1 ≤ sessions ∧ sessions ≤ maxSessionsDefault * 10)
    · intro sessions hIn
      rcases List.mem_filterMap.mp hIn with
        ⟨setting, hSetting, hSessions⟩
      have hRange := hSpells.inRange hSetting
      cases setting <;> cases hSessions
      exact hRange
    · decide

end Document

theorem Config.load_wellFormed
    {hash : Bytes → Nat}
    {file : ConfigFile}
    {config : Config}
    (hLoad : Config.load hash file = .ok config) :
    config.WellFormed := by
  cases file with
  | missing => cases hLoad
  | unreadable => cases hLoad
  | malformed => cases hLoad
  | document root =>
      rcases (Document.parseRoot_eq_ok root Config.default
        config).mp hLoad with
        ⟨settings, hSpells, hApply⟩
      rcases (Settings.applyAll_eq_ok_iff settings
        config).mp hApply with ⟨_, hConfig⟩
      rw [hConfig]
      exact hSpells.wellFormed hash

end QuicSniRouter
