import QuicSniRouter.Hostname
import QuicSniRouter.RouteTable.Resolved

/-
  The route table as a finite map.  Over any sequence of
  additions its three indices represent the list of the
  additions that succeeded, whatever the hash function.

  Main declarations:
    * `RouteTable.AddCall`
    * `RouteTable.Admits`
    * `RouteTable.Represents`
    * `RouteTable.adds_represent_names`
-/

------------------------------------------------------------
-- Additions
------------------------------------------------------------

namespace QuicSniRouter

open Hostname

namespace RouteTable

/- The arguments of a call of `add`. -/
structure AddCall where
  sni : Bytes
  host : Bytes
  port : Nat
  serverId : UInt8
deriving DecidableEq

namespace AddCall

/- What an addition may ask for. -/
def Valid
    (call : AddCall) : Prop :=
  Hostname call.sni ∧ call.host.length ≤ 255 ∧ call.port ≠ 0

/- The route that a successful call leaves in the table. -/
def route
    (call : AddCall) : Route :=
  newRoute (call.sni.map lowerByte) call.host call.port
    call.serverId

end AddCall

/- The addition as the call has it. -/
def addCall
    (hash : Bytes → Nat)
    (table : RouteTable)
    (call : AddCall) :
    Except Status RouteTable :=
  table.add hash call.sni call.host call.port call.serverId

/- What a further call needs to succeed. -/
structure Admits
    (added : List AddCall)
    (call : AddCall) : Prop where
  valid : call.Valid
  room : added.length < 1024
  name : ∀ old ∈ added, ¬ SameName old.sni call.sni
  serverId :
    call.serverId = 0 ∨
      ∀ old ∈ added, old.serverId ≠ call.serverId

/-
  One call on a table, with the calls that have succeeded;
  a caller goes on with the table it has when a call fails.
-/
def addStep
    (hash : Bytes → Nat)
    (state : RouteTable × List AddCall)
    (call : AddCall) :
    RouteTable × List AddCall :=
  match addCall hash state.1 call with
  | .ok table => (table, state.2 ++ [call])
  | .error _ => state

/- Additions in turn, and which were accepted. -/
def runAdds
    (hash : Bytes → Nat)
    (calls : List AddCall) :
    RouteTable × List AddCall :=
  calls.foldl (addStep hash) (init, [])

open Hostname LinearProbing

/- The bucket from which a route is looked for. -/
def sniHome
    (hash : Bytes → Nat)
    (table : RouteTable)
    (routeIndex : Nat) : Nat :=
  match table.routes[routeIndex]? with
  | some route => hashString hash route.sni % routeBuckets
  | none => 0

/- The indices lead to the routes of the added calls. -/
structure Represents
    (hash : Bytes → Nat)
    (table : RouteTable)
    (added : List AddCall) : Prop where
  routes : table.routes = added.map AddCall.route
  names : ∀ call ∈ added, Hostname call.sni
  distinct :
    ∀ (i j : Nat) (a b : AddCall),
      added[i]? = some a → added[j]? = some b →
        SameName a.sni b.sni → i = j
  chain :
    Chain routeBuckets (sniHome hash table) table.buckets
  filed :
    ∀ i, Holds routeBuckets table.buckets i ↔ i < added.length
  used : used routeBuckets table.buckets = added.length
  bound : added.length ≤ maxRoutes
  serverIds :
    ∀ id i, table.serverIdIndex id = some i ↔
      id ≠ 0 ∧ ∃ call, added[i]? = some call ∧
        call.serverId.toNat = id

variable {hash : Bytes → Nat} {table after : RouteTable}
variable {added : List AddCall} {call : AddCall}
variable {name : Bytes}

theorem represents_init
    (hash : Bytes → Nat) :
    Represents hash init [] where
  routes := rfl
  names := by simp
  distinct := by simp
  chain := by
    intro p _ e hCell
    cases hCell
  filed := by
    intro i
    constructor
    · rintro ⟨p, _, hCell⟩
      cases hCell
    · intro hLt
      cases hLt
  used := by
    unfold used init
    simp
  bound := Nat.zero_le _
  serverIds := by
    intro id i
    simp [init]

namespace Represents

theorem route_at
    (hTable : Represents hash table added)
    (i : Nat) :
    table.routes[i]? = added[i]?.map AddCall.route := by
  rw [hTable.routes, List.getElem?_map]

theorem matches_iff
    (hTable : Represents hash table added)
    (i : Nat) :
    table.routeMatches
        (fun route => route.sni == name.map lowerByte) i =
      true ↔
      ∃ call, added[i]? = some call ∧
        SameName call.sni name := by
  rw [routeMatches_eq_true, hTable.route_at]
  constructor
  · rintro ⟨route, hRoute, hSni⟩
    rcases Option.map_eq_some_iff.mp hRoute with
      ⟨call, hCall, hEq⟩
    rw [← hEq] at hSni
    exact ⟨call, hCall,
      map_lowerByte_eq_iff.mp (beq_iff_eq.mp hSni)⟩
  · rintro ⟨call, hCall, hSame⟩
    refine ⟨call.route, by rw [hCall]; rfl, ?_⟩
    exact beq_iff_eq.mpr (map_lowerByte_eq_iff.mpr hSame)

theorem home_of_same
    (hTable : Represents hash table added)
    {i : Nat}
    (hCall : added[i]? = some call)
    (hSame : SameName call.sni name) :
    sniHome hash table i =
      hashString hash (name.map lowerByte) %
        routeBuckets := by
  unfold sniHome
  rw [hTable.route_at, hCall,
    ← map_lowerByte_eq_iff.mpr hSame]
  rfl

theorem name_of_same
    (hTable : Represents hash table added)
    (hMem : call ∈ added)
    (hSame : SameName call.sni name) :
    Hostname name := by
  rw [← hostname_lower_iff, ← map_lowerByte_eq_iff.mpr hSame,
    hostname_lower_iff]
  exact hTable.names call hMem

/- A name leads to the route of the call that added it. -/
theorem lookup_eq_some
    (hTable : Represents hash table added)
    (name : Bytes)
    (route : Route) :
    table.lookup hash name = some route ↔
      ∃ call ∈ added,
        SameName call.sni name ∧ route = call.route := by
  have hHome :
      hashString hash (name.map lowerByte) % routeBuckets <
        routeBuckets :=
    Nat.mod_lt _ (by decide)
  unfold lookup
  constructor
  · intro hLookup
    rcases Option.bind_eq_some_iff.mp hLookup with
      ⟨normal, hNormal, hFound⟩
    rw [(normalizeHostname_eq_some.mp hNormal).2] at hFound
    split at hFound
    · rename_i bucket hWalk
      rcases walk_hit hHome hWalk with
        ⟨_, ⟨i, hCell, hMatch⟩, _⟩
      rcases (hTable.matches_iff i).mp hMatch with
        ⟨call, hCall, hSame⟩
      rw [hCell, Option.bind_some, hTable.route_at,
        hCall] at hFound
      cases hFound
      exact ⟨call, List.mem_of_getElem? hCall, hSame, rfl⟩
    · cases hFound
  · rintro ⟨call, hMem, hSame, hRoute⟩
    rcases List.mem_iff_getElem?.mp hMem with ⟨i, hCall⟩
    have hLt := (List.getElem?_eq_some_iff.mp hCall).1
    rcases (hTable.filed i).mpr hLt with ⟨p, hp, hCell⟩
    rcases exists_walk_hit hHome hTable.chain hp hCell
        (hTable.home_of_same hCall hSame)
        ((hTable.matches_iff i).mpr
          ⟨call, hCall, hSame⟩) with
      ⟨q, j, hWalk, _, hCell', hMatch⟩
    rcases (hTable.matches_iff j).mp hMatch with
      ⟨other, hOther, hSame'⟩
    -- Only one call has added the name.
    have hBoth : SameName other.sni call.sni := by
      apply map_lowerByte_eq_iff.mp
      rw [map_lowerByte_eq_iff.mpr hSame,
        map_lowerByte_eq_iff.mpr hSame']
    have hEq :=
      hTable.distinct j i other call hOther hCall hBoth
    rw [normalizeHostname_eq_some.mpr
      ⟨hTable.name_of_same hMem hSame, rfl⟩]
    dsimp only [bind, Option.bind]
    rw [hWalk]
    dsimp only
    rw [hCell', hEq, hRoute]
    dsimp only [Option.bind]
    rw [hTable.route_at, hCall]
    rfl

/- A server id leads to the route added with it. -/
theorem lookupByServerId_eq_some
    (hTable : Represents hash table added)
    {serverId : UInt8}
    (hNonzero : serverId ≠ 0)
    (route : Route) :
    table.lookupByServerId serverId = some route ↔
      ∃ call ∈ added,
        call.serverId = serverId ∧ route = call.route := by
  have hId : serverId.toNat ≠ 0 := by
    intro hZero
    exact hNonzero (UInt8.toNat_inj.mp hZero)
  unfold lookupByServerId
  rw [if_neg hNonzero, Option.bind_eq_some_iff]
  constructor
  · rintro ⟨i, hIndex, hRoute⟩
    rcases (hTable.serverIds _ i).mp hIndex with
      ⟨_, call, hCall, hSame⟩
    rw [hTable.route_at, hCall] at hRoute
    cases hRoute
    exact ⟨call, List.mem_of_getElem? hCall,
      UInt8.toNat_inj.mp hSame, rfl⟩
  · rintro ⟨call, hMem, hSame, hRoute⟩
    rcases List.mem_iff_getElem?.mp hMem with ⟨i, hCall⟩
    refine ⟨i, (hTable.serverIds _ i).mpr
      ⟨hId, call, hCall, by rw [hSame]⟩, ?_⟩
    rw [hTable.route_at, hCall, hRoute]
    rfl

end Represents

/- The table with the route of a call in a given bucket. -/
def withRoute
    (table : RouteTable)
    (call : AddCall)
    (bucket : Nat) : RouteTable where
  routes := table.routes ++ [call.route]
  buckets := fill table.buckets bucket table.count
  backendBuckets := table.backendBuckets
  serverIdIndex :=
    if call.serverId ≠ 0 then
      fill table.serverIdIndex call.serverId.toNat table.count
    else
      table.serverIdIndex

/- The checks of an addition, in their order. -/
theorem addCall_eq_ok
    (hash : Bytes → Nat)
    (table : RouteTable)
    (call : AddCall) :
    addCall hash table call = .ok after ↔
      call.Valid ∧ table.count < maxRoutes ∧
        table.lookup hash (call.sni.map lowerByte) = none ∧
        (call.serverId = 0 ∨
          table.serverIdIndex call.serverId.toNat = none) ∧
        ∃ bucket,
          walk routeBuckets table.buckets (fun _ => false)
              routeBuckets
              (hashString hash (call.sni.map lowerByte) %
                routeBuckets) = .vacant bucket ∧
            after = table.withRoute call bucket := by
  unfold addCall add
  constructor
  · intro hAdd
    rcases except_guard_eq_ok hAdd with ⟨hPort, hAdd⟩
    rcases except_guard_eq_ok hAdd with ⟨hRoom, hAdd⟩
    split at hAdd
    · cases hAdd
    rename_i normal hNormal
    rcases normalizeHostname_eq_some.mp hNormal with
      ⟨hName, hLower⟩
    rw [hLower] at hAdd
    rcases except_guard_eq_ok hAdd with ⟨hHost, hAdd⟩
    rcases except_guard_eq_ok hAdd with ⟨hNew, hAdd⟩
    rcases except_guard_eq_ok hAdd with ⟨hId, hAdd⟩
    dsimp only at hAdd
    split at hAdd
    · rename_i bucket hWalk
      cases hAdd
      refine ⟨⟨hName, Nat.le_of_not_lt hHost, hPort⟩,
        Nat.lt_of_not_le hRoom, ?_, ?_, bucket, hWalk, rfl⟩
      · simpa using hNew
      · by_contra hUsed
        rw [not_or] at hUsed
        exact hId hUsed
    · cases hAdd
  · rintro ⟨⟨hName, hHost, hPort⟩, hRoom, hNew, hId, bucket,
      hWalk, hAfter⟩
    apply except_guard_ok hPort
    apply except_guard_ok (Nat.not_le_of_lt hRoom)
    rw [normalizeHostname_eq_some.mpr ⟨hName, rfl⟩]
    apply except_guard_ok (Nat.not_lt_of_le hHost)
    apply except_guard_ok (by simp [hNew])
    apply except_guard_ok
    · rintro ⟨hNonzero, hUsed⟩
      rcases hId with hId | hId
      · exact hNonzero hId
      · exact hUsed hId
    · rw [hWalk, hAfter]
      rfl

namespace Represents

theorem count_eq
    (hTable : Represents hash table added) :
    table.count = added.length := by
  unfold count
  rw [hTable.routes, List.length_map]

theorem lookup_eq_none
    (hTable : Represents hash table added)
    (call : AddCall) :
    table.lookup hash (call.sni.map lowerByte) = none ↔
      ∀ old ∈ added, ¬ SameName old.sni call.sni := by
  have hFold (old : AddCall) :
      SameName old.sni (call.sni.map lowerByte) ↔
        SameName old.sni call.sni := by
    rw [← map_lowerByte_eq_iff, ← map_lowerByte_eq_iff,
      map_lowerByte_idem]
  rw [Option.eq_none_iff_forall_ne_some]
  constructor
  · intro hNone old hMem hSame
    exact hNone old.route ((hTable.lookup_eq_some _ _).mpr
      ⟨old, hMem, (hFold old).mpr hSame, rfl⟩)
  · intro hNone route hSome
    rcases (hTable.lookup_eq_some _ _).mp hSome with
      ⟨old, hMem, hSame, _⟩
    exact hNone old hMem ((hFold old).mp hSame)

theorem serverId_eq_none
    (hTable : Represents hash table added)
    {serverId : UInt8}
    (hNonzero : serverId ≠ 0) :
    table.serverIdIndex serverId.toNat = none ↔
      ∀ old ∈ added, old.serverId ≠ serverId := by
  have hId : serverId.toNat ≠ 0 := by
    intro hZero
    exact hNonzero (UInt8.toNat_inj.mp hZero)
  rw [Option.eq_none_iff_forall_ne_some]
  constructor
  · intro hNone old hMem hSame
    rcases List.mem_iff_getElem?.mp hMem with ⟨i, hOld⟩
    exact hNone i ((hTable.serverIds _ i).mpr
      ⟨hId, old, hOld, by rw [hSame]⟩)
  · intro hNone i hSome
    rcases (hTable.serverIds _ i).mp hSome with
      ⟨_, old, hOld, hSame⟩
    exact hNone old (List.mem_of_getElem? hOld)
      (UInt8.toNat_inj.mp hSame)

/- The buckets outnumber the routes. -/
theorem exists_bucket
    (hTable : Represents hash table added)
    {home : Nat}
    (hHome : home < routeBuckets) :
    ∃ bucket,
      walk routeBuckets table.buckets (fun _ => false)
        routeBuckets home = .vacant bucket := by
  have hRoom :
      LinearProbing.used routeBuckets table.buckets <
        routeBuckets := by
    rw [hTable.used]
    exact Nat.lt_of_le_of_lt hTable.bound (by decide)
  rcases exists_vacant hRoom with ⟨v, hv, hVacant⟩
  cases hWalk :
      walk routeBuckets table.buckets (fun _ => false)
        routeBuckets home with
  | vacant bucket => exact ⟨bucket, rfl⟩
  | hit bucket =>
      rcases walk_hit hHome hWalk with ⟨_, ⟨_, _, hHit⟩, _⟩
      cases hHit
  | exhausted =>
      rcases walk_exhausted hHome hWalk v hv with
        ⟨_, hCell, _⟩
      rw [hVacant] at hCell
      cases hCell

/- An addition succeeds if nothing speaks against it. -/
theorem admits_iff
    (hTable : Represents hash table added)
    (call : AddCall) :
    (∃ after, addCall hash table call = .ok after) ↔
      Admits added call := by
  constructor
  · rintro ⟨after, hAdd⟩
    rcases (addCall_eq_ok hash table call).mp hAdd with
      ⟨hValid, hRoom, hNew, hId, _⟩
    rw [hTable.count_eq] at hRoom
    refine ⟨hValid, hRoom,
      (hTable.lookup_eq_none call).mp hNew, ?_⟩
    by_cases hZero : call.serverId = 0
    · exact Or.inl hZero
    · exact Or.inr ((hTable.serverId_eq_none hZero).mp
        (hId.resolve_left hZero))
  · intro hAdmits
    have hHome :
        hashString hash (call.sni.map lowerByte) %
          routeBuckets < routeBuckets :=
      Nat.mod_lt _ (by decide)
    rcases hTable.exists_bucket hHome with ⟨bucket, hWalk⟩
    refine ⟨table.withRoute call bucket,
      (addCall_eq_ok hash table call).mpr
        ⟨hAdmits.valid, ?_,
          (hTable.lookup_eq_none call).mpr hAdmits.name, ?_,
          bucket, hWalk, rfl⟩⟩
    · rw [hTable.count_eq]
      exact hAdmits.room
    · by_cases hZero : call.serverId = 0
      · exact Or.inl hZero
      · exact Or.inr ((hTable.serverId_eq_none hZero).mpr
          (hAdmits.serverId.resolve_left hZero))

end Represents

------------------------------------------------------------
-- What An Addition Keeps
------------------------------------------------------------

theorem getElem?_snoc
    {α : Type}
    {list : List α}
    {a b : α}
    {i : Nat} :
    (list ++ [b])[i]? = some a ↔
      list[i]? = some a ∨ (i = list.length ∧ a = b) := by
  rcases Nat.lt_trichotomy i list.length with
    hLt | hEq | hGt
  · rw [List.getElem?_append_left hLt]
    constructor
    · exact Or.inl
    · rintro (hOld | ⟨hEq, _⟩)
      · exact hOld
      · omega
  · subst hEq
    simp [eq_comm]
  · rw [List.getElem?_eq_none (by simp; omega),
      List.getElem?_eq_none (by omega)]
    constructor
    · intro hNone
      cases hNone
    · rintro (hNone | ⟨hEq, _⟩)
      · cases hNone
      · omega

namespace Represents

variable {i bucket : Nat}

theorem distinct_snoc
    (hTable : Represents hash table added)
    (hAdmits : Admits added call)
    {j : Nat}
    {a b : AddCall}
    (hA : (added ++ [call])[i]? = some a)
    (hB : (added ++ [call])[j]? = some b)
    (hSame : SameName a.sni b.sni) :
    i = j := by
  rcases getElem?_snoc.mp hA with hA | ⟨hi, hA⟩
  · rcases getElem?_snoc.mp hB with hB | ⟨_, hB⟩
    · exact hTable.distinct i j a b hA hB hSame
    · rw [hB] at hSame
      exact absurd hSame
        (hAdmits.name a (List.mem_of_getElem? hA))
  · rcases getElem?_snoc.mp hB with hB | ⟨hj, _⟩
    · rw [hA] at hSame
      apply absurd _
        (hAdmits.name b (List.mem_of_getElem? hB))
      apply map_lowerByte_eq_iff.mp
      exact (map_lowerByte_eq_iff.mpr hSame).symm
    · rw [hi, hj]

theorem home_withRoute
    (hTable : Represents hash table added)
    (bucket : Nat)
    (hLt : i < added.length) :
    sniHome hash (table.withRoute call bucket) i =
      sniHome hash table i := by
  unfold sniHome withRoute
  dsimp only
  rw [List.getElem?_append_left
    (by rw [hTable.routes, List.length_map]; exact hLt)]

theorem home_self
    (hTable : Represents hash table added)
    (bucket : Nat) :
    sniHome hash (table.withRoute call bucket) added.length =
      hashString hash (call.sni.map lowerByte) %
        routeBuckets := by
  unfold sniHome withRoute
  dsimp only
  rw [← hTable.count_eq]
  unfold count
  rw [List.getElem?_concat_length]
  rfl

theorem chain_withRoute
    (hTable : Represents hash table added)
    (hWalk :
      walk routeBuckets table.buckets (fun _ => false)
        routeBuckets
        (hashString hash (call.sni.map lowerByte) %
          routeBuckets) = .vacant bucket) :
    Chain routeBuckets
      (sniHome hash (table.withRoute call bucket))
      (table.withRoute call bucket).buckets := by
  rcases walk_vacant (Nat.mod_lt _ (by decide)) hWalk with
    ⟨_, _, hPassed⟩
  have hOld :
      Chain routeBuckets
        (sniHome hash (table.withRoute call bucket))
        table.buckets := by
    apply hTable.chain.congr
    intro p hp i hCell
    exact hTable.home_withRoute bucket
      ((hTable.filed i).mp ⟨p, hp, hCell⟩)
  apply chain_fill hOld
  rw [hTable.count_eq, hTable.home_self bucket]
  intro q hq hLt hVacant
  rcases hPassed q hq hLt with ⟨_, hCell, _⟩
  rw [hVacant] at hCell
  cases hCell

theorem filed_withRoute
    (hTable : Represents hash table added)
    (hBucket : bucket < routeBuckets)
    (hVacant : table.buckets bucket = none)
    (i : Nat) :
    Holds routeBuckets
        (table.withRoute call bucket).buckets i ↔
      i < (added ++ [call]).length := by
  rw [List.length_append, List.length_singleton]
  constructor
  · rintro ⟨p, hp, hCell⟩
    rcases fill_eq_some hCell with ⟨_, hEq⟩ | ⟨_, hOld⟩
    · rw [hTable.count_eq] at hEq
      omega
    · have hLt := (hTable.filed i).mp ⟨p, hp, hOld⟩
      omega
  · intro hLt
    by_cases hEq : i = added.length
    · refine ⟨bucket, hBucket, ?_⟩
      rw [hEq, ← hTable.count_eq]
      exact fill_self _ _ _
    · rcases (hTable.filed i).mpr (by omega) with
        ⟨p, hp, hCell⟩
      refine ⟨p, hp, ?_⟩
      rw [← hCell]
      apply fill_of_ne
      intro hSame
      rw [hSame, hVacant] at hCell
      cases hCell

/- An id that the call does not have leads where it did. -/
theorem serverIds_other
    (hTable : Represents hash table added)
    {id : Nat}
    (hOther : id = 0 ∨ call.serverId.toNat ≠ id)
    (i : Nat) :
    table.serverIdIndex id = some i ↔
      id ≠ 0 ∧ ∃ a, (added ++ [call])[i]? = some a ∧
        a.serverId.toNat = id := by
  rw [hTable.serverIds id i]
  constructor
  · rintro ⟨hNonzero, a, hA, hSame⟩
    exact ⟨hNonzero, a, getElem?_snoc.mpr (Or.inl hA), hSame⟩
  · rintro ⟨hNonzero, a, hA, hSame⟩
    rcases getElem?_snoc.mp hA with hA | ⟨_, hA⟩
    · exact ⟨hNonzero, a, hA, hSame⟩
    · rw [hA] at hSame
      exact absurd hSame (hOther.resolve_left hNonzero)

theorem serverIds_withRoute
    (hTable : Represents hash table added)
    (hAdmits : Admits added call)
    (bucket id i : Nat) :
    (table.withRoute call bucket).serverIdIndex id = some i ↔
      id ≠ 0 ∧ ∃ a, (added ++ [call])[i]? = some a ∧
        a.serverId.toNat = id := by
  unfold RouteTable.withRoute
  dsimp only
  by_cases hZero : call.serverId = 0
  · rw [if_neg (not_not.mpr hZero)]
    apply hTable.serverIds_other
    by_cases hId : id = 0
    · exact Or.inl hId
    · refine Or.inr ?_
      rw [hZero]
      exact fun hSame => hId hSame.symm
  · rw [if_pos hZero]
    by_cases hId : id = call.serverId.toNat
    · have hUnused := hAdmits.serverId.resolve_left hZero
      rw [hId, fill_self, hTable.count_eq]
      constructor
      · intro hEq
        cases hEq
        refine ⟨?_, call,
          getElem?_snoc.mpr (Or.inr ⟨rfl, rfl⟩), rfl⟩
        intro hNat
        exact hZero (UInt8.toNat_inj.mp hNat)
      · rintro ⟨_, a, hA, hSame⟩
        rcases getElem?_snoc.mp hA with hA | ⟨hi, _⟩
        · exact absurd (UInt8.toNat_inj.mp hSame)
            (hUnused a (List.mem_of_getElem? hA))
        · rw [hi]
    · rw [fill_of_ne _ _ hId]
      exact hTable.serverIds_other (Or.inr (Ne.symm hId)) i

/- Three indices are extended, and they still agree. -/
theorem withRoute
    (hTable : Represents hash table added)
    (hAdmits : Admits added call)
    (hWalk :
      walk routeBuckets table.buckets (fun _ => false)
        routeBuckets
        (hashString hash (call.sni.map lowerByte) %
          routeBuckets) = .vacant bucket) :
    Represents hash (table.withRoute call bucket)
      (added ++ [call]) := by
  rcases walk_vacant (Nat.mod_lt _ (by decide)) hWalk with
    ⟨hBucket, hVacant, _⟩
  exact {
    routes := by
      unfold RouteTable.withRoute
      rw [hTable.routes, List.map_append]
      rfl
    names := by
      intro a hMem
      rcases List.mem_append.mp hMem with hMem | hMem
      · exact hTable.names a hMem
      · rw [List.mem_singleton.mp hMem]
        exact hAdmits.valid.1
    distinct := fun _ _ _ _ hA hB hSame =>
      hTable.distinct_snoc hAdmits hA hB hSame
    chain := hTable.chain_withRoute hWalk
    filed := hTable.filed_withRoute hBucket hVacant
    used := by
      rw [List.length_append, List.length_singleton,
        ← hTable.used]
      exact used_fill _ hBucket hVacant
    bound := by
      rw [List.length_append, List.length_singleton]
      exact hAdmits.room
    serverIds := hTable.serverIds_withRoute hAdmits bucket }

end Represents

variable {hash : Bytes → Nat} {table : RouteTable}
variable {added : List AddCall}

/- An addition keeps the representation. -/
theorem addStep_represents
    (hTable : Represents hash table added)
    (call : AddCall) :
    Represents hash (addStep hash (table, added) call).1
      (addStep hash (table, added) call).2 := by
  unfold addStep
  dsimp only
  cases hAdd : addCall hash table call with
  | error status => exact hTable
  | ok after =>
      have hAdmits :=
        (hTable.admits_iff call).mp ⟨after, hAdd⟩
      rcases (addCall_eq_ok hash table call).mp hAdd with
        ⟨_, _, _, _, bucket, hWalk, hAfter⟩
      dsimp only
      rw [hAfter]
      exact hTable.withRoute hAdmits hWalk

theorem foldl_addStep_represents
    (hTable : Represents hash table added)
    (calls : List AddCall) :
    Represents hash
      (calls.foldl (addStep hash) (table, added)).1
      (calls.foldl (addStep hash) (table, added)).2 := by
  induction calls generalizing table added with
  | nil => exact hTable
  | cons call calls ih =>
      exact ih (addStep_represents hTable call)

/- The table represents what was added. -/
theorem runAdds_represents
    (hash : Bytes → Nat)
    (calls : List AddCall) :
    Represents hash (runAdds hash calls).1
      (runAdds hash calls).2 :=
  foldl_addStep_represents (represents_init hash) calls

/-
  After any calls of `add`, a further call succeeds if its
  arguments are valid, there is room, and no call that has
  succeeded has its name or its server id; a call that fails
  changes nothing.  Names and server ids lead to the routes
  of the calls that have succeeded.
-/
theorem adds_represent_names
    (hash : Bytes → Nat)
    (calls : List AddCall) :
    (∀ call,
      (∃ after,
        addCall hash (runAdds hash calls).1 call =
          .ok after) ↔
        Admits (runAdds hash calls).2 call) ∧
    (∀ call,
      (∀ after,
        addCall hash (runAdds hash calls).1 call = .ok after →
          runAdds hash (calls ++ [call]) =
            (after, (runAdds hash calls).2 ++ [call])) ∧
        ∀ status,
          addCall hash (runAdds hash calls).1 call =
              .error status →
            runAdds hash (calls ++ [call]) =
              runAdds hash calls) ∧
    (∀ name route,
      (runAdds hash calls).1.lookup hash name = some route ↔
        ∃ call ∈ (runAdds hash calls).2,
          SameName call.sni name ∧ route = call.route) ∧
    (∀ serverId : UInt8, serverId ≠ 0 → ∀ route,
      (runAdds hash calls).1.lookupByServerId serverId =
          some route ↔
        ∃ call ∈ (runAdds hash calls).2,
          call.serverId = serverId ∧ route = call.route) := by
  have hTable := runAdds_represents hash calls
  refine ⟨hTable.admits_iff, ?_, hTable.lookup_eq_some,
    fun _ hNonzero =>
      hTable.lookupByServerId_eq_some hNonzero⟩
  intro call
  have hStep :
      runAdds hash (calls ++ [call]) =
        addStep hash (runAdds hash calls) call := by
    unfold runAdds
    rw [List.foldl_append]
    rfl
  rw [hStep]
  unfold addStep
  constructor
  · intro after hAdd
    rw [hAdd]
  · intro status hAdd
    rw [hAdd]

end RouteTable

end QuicSniRouter
