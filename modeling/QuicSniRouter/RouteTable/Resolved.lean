import QuicSniRouter.RouteTable.Basic

/-
  The backend index of a resolved route table is exact: it
  answers for an address whether some route has it.

  Main declarations:
    * `RouteTable.Provides`
    * `RouteTable.Resolved`
    * `RouteTable.resolve_resolved`
    * `RouteTable.hasBackend_iff`
    * `RouteTable.backend_index_scans`
-/

------------------------------------------------------------
-- The Backend Index
------------------------------------------------------------

namespace QuicSniRouter

open LinearProbing

namespace RouteTable

variable {i : Nat} {addr a b : Sockaddr}
variable {resolved routes : List Route}

/- Some route of the table is resolved to the address. -/
def Provides
    (table : RouteTable)
    (addr : Sockaddr) : Prop :=
  ∃ route ∈ table.routes, backendEquals route addr = true

/- The bucket from which a filed route is looked for. -/
def backendHome
    (hash : Bytes → Nat)
    (table : RouteTable)
    (routeIndex : Nat) : Nat :=
  match table.routes[routeIndex]? with
  | some route =>
      hashBackend hash route.backend % routeBuckets
  | none => 0

/- Some bucket leads to a route with the address. -/
def Filed
    (table : RouteTable)
    (addr : Sockaddr) : Prop :=
  ∃ bucket < routeBuckets, ∃ j,
    table.backendBuckets bucket = some j ∧
      table.routeMatches (backendEquals · addr) j = true

/-
  The backend index while it is rebuilt: its buckets are
  chained, and the first `done` routes are filed.
-/
structure Indexed
    (hash : Bytes → Nat)
    (table : RouteTable)
    (done : Nat) : Prop where
  chain :
    Chain routeBuckets (backendHome hash table)
      table.backendBuckets
  filed :
    ∀ i < done, ∀ route, table.routes[i]? = some route →
      route.backend.len ≠ 0 ∧ table.Filed route.backend

/- Every route is resolved and filed. -/
structure Resolved
    (hash : Bytes → Nat)
    (table : RouteTable) : Prop where
  routes :
    ∀ route ∈ table.routes,
      route.backendResolved = true ∧ route.backend.len ≤ 128
  indexed : Indexed hash table table.count

variable {hash : Bytes → Nat} {table after : RouteTable}

theorem routeMatches_eq_true
    {test : Route → Bool} :
    table.routeMatches test i = true ↔
      ∃ route, table.routes[i]? = some route ∧
        test route = true := by
  unfold routeMatches
  cases table.routes[i]? with
  | none => simp
  | some route => simp

theorem backendEquals_iff
    {route : Route} :
    backendEquals route addr = true ↔
      route.backendResolved = true ∧
        route.backend.equals addr = true := by
  simp [backendEquals]

theorem hashBackend_congr
    (hEquals : a.equals b = true) :
    hashBackend hash a = hashBackend hash b := by
  rcases Sockaddr.equals_iff.mp hEquals with ⟨hLen, hBytes⟩
  unfold hashBackend
  rw [hLen, hBytes]

theorem backendHome_of_matches
    {j : Nat}
    (hMatch :
      table.routeMatches (backendEquals · addr) j = true) :
    backendHome hash table j =
      hashBackend hash addr % routeBuckets := by
  rcases routeMatches_eq_true.mp hMatch with
    ⟨route, hRoute, hEquals⟩
  unfold backendHome
  rw [hRoute]
  dsimp only
  rw [hashBackend_congr (backendEquals_iff.mp hEquals).2]

theorem Filed.congr
    (hFiled : table.Filed a)
    (hEquals : a.equals b = true) :
    table.Filed b := by
  rcases hFiled with ⟨bucket, hBucket, j, hCell, hMatch⟩
  refine ⟨bucket, hBucket, j, hCell, ?_⟩
  rcases routeMatches_eq_true.mp hMatch with
    ⟨route, hRoute, hRouteEquals⟩
  rw [backendEquals_iff] at hRouteEquals
  exact routeMatches_eq_true.mpr ⟨route, hRoute,
    backendEquals_iff.mpr ⟨hRouteEquals.1,
      Sockaddr.equals_trans hRouteEquals.2 hEquals⟩⟩

/- In a chained index the walk finds what is filed. -/
theorem Filed.walk
    (hFiled : table.Filed addr)
    (hChain :
      Chain routeBuckets (backendHome hash table)
        table.backendBuckets) :
    ∃ bucket,
      walk routeBuckets table.backendBuckets
        (table.routeMatches (backendEquals · addr))
        routeBuckets
        (hashBackend hash addr % routeBuckets) =
          .hit bucket := by
  rcases hFiled with ⟨p, hp, j, hCell, hMatch⟩
  rcases exists_walk_hit (Nat.mod_lt _ (by decide)) hChain
      hp hCell (backendHome_of_matches hMatch) hMatch with
    ⟨bucket, _, hWalk, _⟩
  exact ⟨bucket, hWalk⟩

/- The index answers for exactly the routes' addresses. -/
theorem hasBackend_iff
    (hResolved : Resolved hash table)
    (addr : Sockaddr) :
    table.hasBackend hash addr = true ↔
      table.Provides addr := by
  constructor
  · intro hHas
    unfold hasBackend at hHas
    split at hHas
    · cases hHas
    · split at hHas
      · rename_i bucket hWalk
        rcases walk_hit (Nat.mod_lt _ (by decide)) hWalk with
          ⟨_, ⟨j, _, hMatch⟩, _⟩
        rcases routeMatches_eq_true.mp hMatch with
          ⟨route, hRoute, hEquals⟩
        exact ⟨route, List.mem_of_getElem? hRoute, hEquals⟩
      · cases hHas
  · rintro ⟨route, hMem, hEquals⟩
    have hBackend := (backendEquals_iff.mp hEquals).2
    have hLen := (Sockaddr.equals_iff.mp hBackend).1
    rcases List.mem_iff_getElem?.mp hMem with ⟨i, hRoute⟩
    have hi : i < table.count :=
      (List.getElem?_eq_some_iff.mp hRoute).1
    rcases hResolved.indexed.filed i hi route hRoute with
      ⟨hNonempty, hFiled⟩
    have hFits := (hResolved.routes route hMem).2
    rcases (hFiled.congr hBackend).walk
        hResolved.indexed.chain with ⟨bucket, hWalk⟩
    unfold hasBackend
    rw [if_neg (by omega), hWalk]

------------------------------------------------------------
-- Resolution
------------------------------------------------------------

/- A route with the address that it was resolved to. -/
def withBackend
    (route : Route)
    (answer : Bytes) : Route :=
  { route with
    backendResolved := true
    backend := {
      storage := SockaddrStorage.ofBytes answer
      len := answer.length } }

variable {resolver : Resolver}

theorem resolveRoute_eq_ok
    {route resolved : Route}
    (hResolve :
      resolveRoute resolver i route = .ok resolved) :
    ∃ answer,
      resolver i route.host route.port = some answer ∧
        answer.length ≤ 128 ∧
        resolved = withBackend route answer := by
  unfold resolveRoute at hResolve
  cases hAnswer : resolver i route.host route.port with
  | none =>
      rw [hAnswer] at hResolve
      cases hResolve
  | some answer =>
      rw [hAnswer] at hResolve
      dsimp only at hResolve
      split at hResolve
      · cases hResolve
      · rename_i hFits
        cases hResolve
        exact ⟨answer, rfl, Nat.le_of_not_lt hFits, rfl⟩

theorem resolveRoutes_resolved
    (hResolve :
      resolveRoutes resolver i routes = .ok resolved) :
    ∀ route ∈ resolved,
      route.backendResolved = true ∧
        route.backend.len ≤ 128 := by
  induction routes generalizing i resolved with
  | nil =>
      cases hResolve
      simp
  | cons first rest ih =>
      unfold resolveRoutes at hResolve
      rcases except_bind_eq_ok hResolve with
        ⟨route, hRoute, hRest⟩
      rcases except_bind_eq_ok hRest with
        ⟨others, hOthers, hEq⟩
      cases hEq
      intro r hMem
      rcases List.mem_cons.mp hMem with hEq | hMem
      · rcases resolveRoute_eq_ok hRoute with
          ⟨answer, _, hFits, hResolved⟩
        rw [hEq, hResolved]
        exact ⟨rfl, hFits⟩
      · exact ih hOthers r hMem

/- Filing one more route. -/
theorem backendIndexPut_indexed
    {route : Route}
    (hRoute : table.routes[i]? = some route)
    (hPut : backendIndexPut hash table i route = .ok after)
    (hIndexed : Indexed hash table i) :
    after.routes = table.routes ∧
      Indexed hash after (i + 1) := by
  unfold backendIndexPut at hPut
  split at hPut
  · cases hPut
  rename_i hGuard
  simp only [Bool.or_eq_true, Bool.not_eq_true',
    beq_iff_eq, not_or, Bool.not_eq_false] at hGuard
  have hSelf :
      table.routeMatches (backendEquals · route.backend) i =
        true :=
    routeMatches_eq_true.mpr ⟨route, hRoute,
      backendEquals_iff.mpr ⟨hGuard.1,
        Sockaddr.equals_refl _⟩⟩
  have hHome :
      hashBackend hash route.backend % routeBuckets <
        routeBuckets :=
    Nat.mod_lt _ (by decide)
  split at hPut
  · rename_i bucket hWalk
    cases hPut
    rcases walk_vacant hHome hWalk with
      ⟨hBucket, hNone, hPassed⟩
    refine ⟨rfl, ⟨?_, ?_⟩⟩
    · apply chain_fill hIndexed.chain
      rw [backendHome_of_matches hSelf]
      intro q hq hLt hVacant
      rcases hPassed q hq hLt with ⟨e, hCell, _⟩
      rw [hVacant] at hCell
      cases hCell
    · intro k hk other hOther
      by_cases hki : k = i
      · subst hki
        rw [hRoute] at hOther
        cases hOther
        exact ⟨hGuard.2, bucket, hBucket, k, fill_self _ _ _,
          hSelf⟩
      · rcases hIndexed.filed k (by omega) other hOther with
          ⟨hLen, p, hp, j, hCell, hMatch⟩
        refine ⟨hLen, p, hp, j, ?_, hMatch⟩
        have hNe : p ≠ bucket := by
          intro hEq
          rw [hEq, hNone] at hCell
          cases hCell
        rw [← hCell]
        exact fill_of_ne _ _ hNe
  · rename_i bucket hWalk
    cases hPut
    rcases walk_hit hHome hWalk with
      ⟨hBucket, ⟨j, hCell, hMatch⟩, _⟩
    refine ⟨rfl, ⟨hIndexed.chain, ?_⟩⟩
    intro k hk other hOther
    by_cases hki : k = i
    · subst hki
      rw [hRoute] at hOther
      cases hOther
      exact ⟨hGuard.2, bucket, hBucket, j, hCell, hMatch⟩
    · exact hIndexed.filed k (by omega) other hOther
  · cases hPut

theorem backendIndexPuts_indexed
    {rest : List Route}
    (hRest : table.routes.drop i = rest)
    (hPuts : backendIndexPuts hash table i rest = .ok after)
    (hIndexed : Indexed hash table i) :
    after.routes = table.routes ∧
      Indexed hash after (i + rest.length) := by
  induction rest generalizing table i with
  | nil =>
      cases hPuts
      exact ⟨rfl, hIndexed⟩
  | cons route rest ih =>
      unfold backendIndexPuts at hPuts
      rcases except_bind_eq_ok hPuts with
        ⟨filed, hPut, hOthers⟩
      have hRoute : table.routes[i]? = some route := by
        rw [← Nat.add_zero i, ← List.getElem?_drop, hRest]
        rfl
      rcases backendIndexPut_indexed hRoute hPut
          hIndexed with ⟨hRoutes, hFiled⟩
      have hTail : filed.routes.drop (i + 1) = rest := by
        rw [hRoutes, ← List.drop_drop, hRest]
        rfl
      rcases ih hTail hOthers hFiled with ⟨hSame, hAfter⟩
      refine ⟨hSame.trans hRoutes, ?_⟩
      rw [List.length_cons]
      rw [show i + (rest.length + 1) =
        i + 1 + rest.length from by omega]
      exact hAfter

/- The index is built from nothing. -/
theorem resolve_indexed
    (hResolve : table.resolve hash resolver = .ok after) :
    resolveRoutes resolver 0 table.routes = .ok after.routes ∧
      Indexed hash after after.count := by
  unfold resolve at hResolve
  rcases except_bind_eq_ok hResolve with
    ⟨routes, hRoutes, hPuts⟩
  have hEmpty :
      Indexed hash
        { table with
          routes, backendBuckets := fun _ => none } 0 := by
    constructor
    · intro p _ e hCell
      cases hCell
    · intro i hi
      omega
  rcases backendIndexPuts_indexed rfl hPuts hEmpty with
    ⟨hSame, hIndexed⟩
  unfold count
  rw [hSame]
  refine ⟨hRoutes, ?_⟩
  simpa using hIndexed

/- After a resolution all routes have backends. -/
theorem resolve_resolved
    (hResolve : table.resolve hash resolver = .ok after) :
    Resolved hash after where
  routes :=
    resolveRoutes_resolved (resolve_indexed hResolve).1
  indexed := (resolve_indexed hResolve).2

variable {table : RouteTable} {route : Route}

theorem lookup_mem
    {sni : Bytes}
    (hLookup : table.lookup hash sni = some route) :
    route ∈ table.routes := by
  unfold lookup at hLookup
  rcases Option.bind_eq_some_iff.mp hLookup with
    ⟨normalized, _, hFound⟩
  split at hFound
  · rcases Option.bind_eq_some_iff.mp hFound with
      ⟨i, _, hRoute⟩
    exact List.mem_of_getElem? hRoute
  · cases hFound

theorem lookupByServerId_mem
    {serverId : UInt8}
    (hLookup : table.lookupByServerId serverId = some route) :
    route ∈ table.routes := by
  unfold lookupByServerId at hLookup
  split at hLookup
  · cases hLookup
  · rcases Option.bind_eq_some_iff.mp hLookup with
      ⟨i, _, hRoute⟩
    exact List.mem_of_getElem? hRoute

theorem Resolved.provides
    (hResolved : Resolved hash table)
    (hMem : route ∈ table.routes) :
    table.Provides route.backend :=
  ⟨route, hMem, backendEquals_iff.mpr
    ⟨(hResolved.routes route hMem).1, Sockaddr.equals_refl _⟩⟩

theorem Provides.congr
    (hProvides : table.Provides a)
    (hEquals : a.equals b = true) :
    table.Provides b := by
  rcases hProvides with ⟨route, hMem, hRoute⟩
  rw [backendEquals_iff] at hRoute
  exact ⟨route, hMem, backendEquals_iff.mpr
    ⟨hRoute.1, Sockaddr.equals_trans hRoute.2 hEquals⟩⟩

variable {hash : Bytes → Nat} {resolver : Resolver}
variable {table after : RouteTable}

theorem resolveRoutes_getElem?
    (hResolve :
      resolveRoutes resolver i routes = .ok resolved)
    (k : Nat) :
    (routes[k]? = none ∧ resolved[k]? = none) ∨
      ∃ route answer, routes[k]? = some route ∧
        resolver (i + k) route.host route.port = some answer ∧
        answer.length ≤ 128 ∧
        resolved[k]? = some (withBackend route answer) := by
  induction routes generalizing i k resolved with
  | nil =>
      cases hResolve
      exact Or.inl ⟨rfl, rfl⟩
  | cons first rest ih =>
      unfold resolveRoutes at hResolve
      rcases except_bind_eq_ok hResolve with
        ⟨route, hRoute, hRest⟩
      rcases except_bind_eq_ok hRest with
        ⟨others, hOthers, hEq⟩
      cases hEq
      cases k with
      | zero =>
          rcases resolveRoute_eq_ok hRoute with
            ⟨answer, hAnswer, hFits, hResolved⟩
          refine Or.inr
            ⟨first, answer, rfl, hAnswer, hFits, ?_⟩
          rw [hResolved]
          rfl
      | succ k =>
          have hNext := ih hOthers k
          rw [Nat.add_assoc, Nat.add_comm 1 k] at hNext
          exact hNext

theorem bytes_withBackend
    (route : Route)
    {answer : Bytes}
    (hFits : answer.length ≤ 128) :
    (withBackend route answer).backend.bytes = answer := by
  unfold withBackend Sockaddr.bytes SockaddrStorage.ofBytes
  dsimp only
  rw [List.take_take, Nat.min_eq_left hFits, List.take_left]

/-
  After a resolution the index says that an address is a
  backend if a scan of the routes finds it, which are the
  addresses that the resolver gave for some route.  Nothing
  is asked of the table before, so that earlier resolutions
  have no part in this.
-/
theorem backend_index_scans
    (hResolve : table.resolve hash resolver = .ok after)
    (addr : Sockaddr) :
    (after.hasBackend hash addr = true ↔
      ∃ route ∈ after.routes,
        route.backendResolved = true ∧
          route.backend.len = addr.len ∧
          route.backend.bytes = addr.bytes) ∧
    (after.hasBackend hash addr = true ↔
      ∃ i route answer,
        table.routes[i]? = some route ∧
          resolver i route.host route.port = some answer ∧
          answer.length = addr.len ∧
          answer = addr.bytes) := by
  have hScan :
      after.hasBackend hash addr = true ↔
        ∃ route ∈ after.routes,
          route.backendResolved = true ∧
            route.backend.len = addr.len ∧
            route.backend.bytes = addr.bytes := by
    rw [hasBackend_iff (resolve_resolved hResolve)]
    unfold Provides
    simp only [backendEquals_iff, Sockaddr.equals_iff]
  refine ⟨hScan, hScan.trans ?_⟩
  have hRoutes := (resolve_indexed hResolve).1
  constructor
  · rintro ⟨resolved, hMem, _, hLen, hBytes⟩
    rcases List.mem_iff_getElem?.mp hMem with ⟨i, hAt⟩
    rcases resolveRoutes_getElem? hRoutes i with
      ⟨_, hNone⟩ | ⟨route, answer, hOld, hAnswer, hFits, hNew⟩
    · rw [hAt] at hNone
      cases hNone
    · rw [hAt] at hNew
      cases hNew
      rw [Nat.zero_add] at hAnswer
      rw [bytes_withBackend route hFits] at hBytes
      exact ⟨i, route, answer, hOld, hAnswer, hLen, hBytes⟩
  · rintro ⟨i, route, answer, hOld, hAnswer, hLen, hBytes⟩
    rcases resolveRoutes_getElem? hRoutes i with
      ⟨hNone, _⟩ | ⟨route', answer', hOld', hAnswer', hFits,
        hNew⟩
    · rw [hOld] at hNone
      cases hNone
    · rw [hOld] at hOld'
      cases hOld'
      rw [Nat.zero_add, hAnswer] at hAnswer'
      cases hAnswer'
      refine ⟨withBackend route answer,
        List.mem_of_getElem? hNew, rfl, hLen, ?_⟩
      rw [bytes_withBackend route hFits]
      exact hBytes

/- Two names that lead to the same backend. -/
def shared : Except Status RouteTable := do
  let table ← init.add (fun _ => 0) [97] [49] 443 0
  table.add (fun _ => 0) [98] [49] 443 0

theorem shared_routes
    (hShared : shared = .ok table) :
    table.routes[1]? = some (newRoute [98] [49] 443 0) := by
  cases hShared
  rfl

/- Two routes with one backend are indexed. -/
theorem shared_backend_indexed :
    ∃ table after,
      shared = .ok table ∧
        table.resolve (fun _ => 0)
          (fun _ host _ => some (2 :: host)) = .ok after ∧
        after.hasBackend (fun _ => 0)
          ⟨SockaddrStorage.ofBytes [2, 49], 2⟩ = true := by
  have hRun :
      ∃ table after,
        shared = .ok table ∧
          table.resolve (fun _ => 0)
            (fun _ host _ => some (2 :: host)) = .ok after :=
    ⟨_, _, rfl, rfl⟩
  rcases hRun with ⟨table, after, hShared, hResolve⟩
  refine ⟨table, after, hShared, hResolve, ?_⟩
  apply (backend_index_scans hResolve _).2.mpr
  exact ⟨1, _, _, shared_routes hShared, rfl, rfl, rfl⟩

end RouteTable

end QuicSniRouter
