import QuicSniRouter.SessionTable.Invariant

/-
  The sweeps keep the representation invariant, and so does
  every sequence of operations on a session table.

  Main declarations:
    * `SessionTable.deleteWhere_inv`
    * `SessionTable.expireIncremental_inv`
    * `SessionTable.Op` and `SessionTable.apply`
    * `SessionTable.operations_represent_keys`
-/

namespace QuicSniRouter

open LinearProbing

namespace SessionTable

variable (hash : Bytes → Nat) {table : SessionTable}

theorem deleteWhere_inv
    (pred : Session → Bool)
    (fuel : Nat)
    (i : Nat)
    (hInv : table.Inv hash) :
    (deleteWhere hash pred fuel table i).2.Inv hash := by
  induction fuel generalizing table i with
  | zero => exact hInv
  | succ fuel ih =>
      unfold deleteWhere
      by_cases hi : i < table.capacity
      · simp only [hi, if_true]
        cases hCell : table.sessions i with
        | none => exact ih (i + 1) hInv
        | some session =>
            by_cases hPred : pred session = true
            · simp only [hPred, if_true]
              exact ih i
                (tableDeleteAt_inv hash hInv hi hCell)
            · simp only [hPred]
              exact ih (i + 1) hInv
      · simp only [hi, if_false]
        exact hInv

theorem rebuildCidLenMask_inv
    (hInv : table.Inv hash) :
    table.rebuildCidLenMask.Inv hash :=
  ⟨hInv.pos, hInv.keys, hInv.chain, hInv.distinct,
    hInv.count, hInv.cut, hInv.cursor⟩

variable (now idleTimeoutSeconds : Int)
variable (keep : Session → Bool)

theorem expire_inv
    (hInv : table.Inv hash) :
    (table.expire hash now idleTimeoutSeconds).2.Inv
      hash := by
  have hSwept :=
    deleteWhere_inv hash (idle now idleTimeoutSeconds)
      table.sweepFuel 0 hInv
  unfold expire
  dsimp only
  split
  · exact rebuildCidLenMask_inv hash hSwept
  · exact hSwept

theorem advanceCursor_inv
    (hInv : table.Inv hash) :
    table.advanceCursor.Inv hash := by
  have hCursor := next_lt hInv.pos table.expireCursor
  unfold advanceCursor
  dsimp only
  split
  · exact ⟨hInv.pos, hInv.keys, hInv.chain, hInv.distinct,
      hInv.count, hInv.cut, hCursor⟩
  · exact ⟨hInv.pos, hInv.keys, hInv.chain, hInv.distinct,
      hInv.count, hInv.cut, hCursor⟩

theorem touch_inv
    (i : Nat)
    (now : Int)
    (hInv : table.Inv hash) :
    (table.touch i now).Inv hash := by
  unfold touch
  cases hCell : table.sessions i with
  | none => exact hInv
  | some session => exact replace_inv hash hInv hCell rfl

theorem expireStep_inv
    (hInv : table.Inv hash) :
    (expireStep hash now idleTimeoutSeconds keep
      table).2.Inv hash := by
  unfold expireStep
  cases hCell : table.sessions table.expireCursor with
  | none => exact advanceCursor_inv hash hInv
  | some session =>
      dsimp only
      split
      · split
        · exact advanceCursor_inv hash
            (touch_inv hash _ now hInv)
        · exact tableDeleteAt_inv hash hInv hInv.cursor hCell
      · exact advanceCursor_inv hash hInv

theorem expireLoop_inv
    (scans : Nat)
    (hInv : table.Inv hash) :
    (expireLoop hash now idleTimeoutSeconds keep scans
      table).2.Inv hash := by
  induction scans generalizing table with
  | zero => exact hInv
  | succ scans ih =>
      exact ih
        (expireStep_inv hash now idleTimeoutSeconds keep hInv)

theorem expireIncremental_inv
    (scanBudget : Nat)
    (keep : Session → Bool)
    (hInv : table.Inv hash) :
    (table.expireIncremental hash now idleTimeoutSeconds
      scanBudget keep).2.Inv hash :=
  expireLoop_inv hash now idleTimeoutSeconds keep _ hInv

/- The operations that change a session table. -/
inductive Op
  | put
      (key : SessionKey)
      (backendAddr : BackendRef)
      (backendAddrLen : Nat)
      (now : Int)
  | putOwned
      (key : SessionKey)
      (backendAddr : BackendRef)
      (backendAddrLen : Nat)
      (now : Int)
      (ownerSlot ownerFlowId : Nat)
  | expire
      (now idleTimeoutSeconds : Int)
  | expireIncremental
      (now idleTimeoutSeconds : Int)
      (scanBudget : Nat)
      (keep : Session → Bool)
  | evictIf
      (pred : Session → Bool)

/- One operation. -/
def apply
    (hash : Bytes → Nat)
    (table : SessionTable) :
    Op → SessionTable
| .put key backendAddr backendAddrLen now =>
    (table.put hash key backendAddr backendAddrLen now).2
| .putOwned key backendAddr backendAddrLen now ownerSlot
    ownerFlowId =>
    (table.putOwned hash key backendAddr backendAddrLen now
      ownerSlot ownerFlowId).2
| .expire now idleTimeoutSeconds =>
    (table.expire hash now idleTimeoutSeconds).2
| .expireIncremental now idleTimeoutSeconds scanBudget keep =>
    (table.expireIncremental hash now idleTimeoutSeconds
      scanBudget keep).2
| .evictIf pred => (table.evictIf hash pred).2

theorem apply_inv
    (hash : Bytes → Nat)
    (op : Op)
    (hInv : table.Inv hash) :
    (table.apply hash op).Inv hash := by
  cases op with
  | put key backendAddr backendAddrLen now =>
      exact putInternal_inv hash _ hInv
  | putOwned key backendAddr backendAddrLen now ownerSlot
      ownerFlowId =>
      exact putInternal_inv hash _ hInv
  | expire now idleTimeoutSeconds =>
      exact expire_inv hash now idleTimeoutSeconds hInv
  | expireIncremental now idleTimeoutSeconds scanBudget
      keep =>
      exact expireIncremental_inv hash now
        idleTimeoutSeconds scanBudget keep hInv
  | evictIf pred =>
      exact deleteWhere_inv hash pred _ 0 hInv

theorem run_inv
    (hash : Bytes → Nat)
    (ops : List Op)
    (hInv : table.Inv hash) :
    (ops.foldl (apply hash) table).Inv hash := by
  induction ops generalizing table with
  | nil => exact hInv
  | cons op ops ih => exact ih (apply_inv hash op hInv)

/- The slots of a key, as `get` must report them. -/
def Represents
    (hash : Bytes → Nat)
    (table : SessionTable) : Prop :=
  (∀ i < table.capacity, ∀ j < table.capacity,
    ∀ a b, table.sessions i = some a →
      table.sessions j = some b → i ≠ j →
        a.key.equals b.key = false) ∧
  table.count =
    ((Finset.range table.capacity).filter
      (fun i => (table.sessions i).isSome)).card ∧
  (∀ key, key.valid = true →
    (∀ i, table.get hash key = some i ↔
      i < table.capacity ∧
        ∃ session, table.sessions i = some session ∧
          session.key.equals key = true) ∧
    (table.get hash key = none ↔
      ∀ i < table.capacity, ∀ session,
        table.sessions i = some session →
          session.key.equals key = false))

theorem Inv.represents
    {hash : Bytes → Nat}
    (hInv : table.Inv hash) :
    table.Represents hash := by
  refine ⟨?_, hInv.count, ?_⟩
  · intro i hi j hj a b ha hb hNe
    by_contra hEquals
    have hSame : Session.SameKey a b := by
      unfold Session.SameKey
      simpa using hEquals
    exact hNe (hInv.distinct i hi j hj a b ha hb hSame)
  · intro key hValid
    exact ⟨fun i => get_eq_some hInv hValid,
      get_eq_none hInv hValid⟩

/-
  Whatever is done to a table of any capacity, lookups find
  exactly the stored keys.
-/
theorem operations_represent_keys
    (hash : Bytes → Nat)
    (capacity : Nat)
    (ops : List Op)
    (hPos : 1 ≤ capacity) :
    ∃ start, init capacity = .ok start ∧
      Represents hash (ops.foldl (apply hash) start) := by
  have hInit : ∃ start, init capacity = .ok start := by
    unfold init
    rw [if_neg (by omega)]
    exact ⟨_, rfl⟩
  rcases hInit with ⟨start, hStart⟩
  exact ⟨start, hStart,
    (run_inv hash ops (init_inv hStart)).represents⟩

/- Two colliding ids, the first of which is evicted again. -/
def collidingOps : List Op :=
  let backend :=
    BackendRef.addr (SockaddrStorage.ofBytes [2, 0])
  [.put (SessionKey.singleCidKey (List.replicate 8 1))
      backend 16 0,
    .put (SessionKey.singleCidKey (List.replicate 8 2))
      backend 16 1,
    .evictIf (fun session => session.lastSeen == 0)]

/- Two keys of one hash are represented. -/
theorem colliding_keys_represented :
    ∃ start, init 2 = .ok start ∧
      Represents (fun _ => 1)
        (collidingOps.foldl (apply fun _ => 1) start) :=
  operations_represent_keys (fun _ => 1) 2 collidingOps
    (by decide)

end SessionTable

end QuicSniRouter
