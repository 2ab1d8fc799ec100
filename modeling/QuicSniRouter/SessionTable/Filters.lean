import QuicSniRouter.SessionTable.Cutover

/-
  The deleting sweeps as filters of the session map, on
  every table that operations can build.  What stands in
  their way is an entry without a valid backend address, as
  a put through a pointer into the table itself can leave
  it: the deletion in front of it drops it uncounted.

  Main declarations:
    * `SessionTable.Filters`
    * `SessionTable.evictIf_filters`
    * `SessionTable.Op.Copies`
    * `SessionTable.run_storable`
    * `SessionTable.sweeps_filter_where_clean`
-/

namespace QuicSniRouter

open LinearProbing

namespace SessionTable

variable {hash : Bytes → Nat} {table : SessionTable}
variable {pred : Session → Bool} {capacity : Nat}

/-
  The map that a sweep leaves has the unselected entries,
  and what it returns is the number of the selected ones.
-/
def Filters
    (hash : Bytes → Nat)
    (table : SessionTable)
    (pred : Session → Bool)
    (swept : Nat × SessionTable) : Prop :=
  Restricts hash table swept.2 (fun s => pred s = true) ∧
    swept.1 =
      (entries table.capacity table.sessions).countP pred

theorem Inv.used_of_holds_iff
    {after : SessionTable}
    (gone : Session → Bool)
    (hInv : table.Inv hash)
    (hAfter : after.Inv hash)
    (hCapacity : after.capacity = table.capacity)
    (hHolds :
      ∀ s, Holds table.capacity after.sessions s ↔
        Holds table.capacity table.sessions s ∧
          gone s = false) :
    used table.capacity after.sessions +
        (entries table.capacity table.sessions).countP gone =
      used table.capacity table.sessions := by
  have hDistinct := hAfter.distinct
  rw [hCapacity] at hDistinct
  exact LinearProbing.used_of_holds_iff gone
    (fun s => SessionKey.equals_refl s.key) hInv.distinct
    hDistinct hHolds

theorem evictIf_filters
    (hInv : table.Inv hash) :
    Filters hash table pred (table.evictIf hash pred) ↔
      table.CleanFrom 0 pred := by
  have hThin := evictIf_thinned pred hInv
  have hCapacity := hThin.frame.capacity
  unfold Filters
  rw [restricts_iff hInv hThin.inv hCapacity]
  simp only [Bool.not_eq_true]
  constructor
  · rintro ⟨hHolds, hCount⟩
    have hUsed :=
      hInv.used_of_holds_iff pred hThin.inv hCapacity hHolds
    rcases evictIf_sweeps pred hInv with ⟨k', hEnd, hSweeps⟩
    exact hSweeps.cleanFrom (Refreshes.id pred) hInv.pos
      hInv hEnd (by omega)
  · intro hClean
    rcases evictIf_clean hInv hClean with ⟨hHolds, hCounts⟩
    have hUsed :=
      hInv.used_of_holds_iff pred hThin.inv hCapacity hHolds
    exact ⟨hHolds, by omega⟩

/- The full expiry is that sweep and a rebuilt mask. -/
theorem expire_filters_iff
    (now idleTimeoutSeconds : Int) :
    Filters hash table (idle now idleTimeoutSeconds)
        (table.expire hash now idleTimeoutSeconds) ↔
      Filters hash table (idle now idleTimeoutSeconds)
        (table.evictIf hash
          (idle now idleTimeoutSeconds)) := by
  unfold expire evictIf
  dsimp only
  split
  · exact Iff.rfl
  · exact Iff.rfl

/- A reference to an address outside of the table. -/
def BackendRef.Outside :
    BackendRef → Prop
| .addr _ => True
| .slot _ => False

/- An operation that puts no backend from inside. -/
def Op.Copies :
    Op → Prop
| .put _ backendAddr _ _ => BackendRef.Outside backendAddr
| .putOwned _ backendAddr _ _ _ _ =>
    BackendRef.Outside backendAddr
| _ => True

theorem putInternal_storable
    (args : PutArgs)
    (hInv : table.Inv hash)
    (hOutside : BackendRef.Outside args.backendAddr)
    (hAll : table.Entries Session.Storable) :
    (putInternal hash 2 table args).2.Entries
      Session.Storable := by
  -- An address outside reads the same after evictions.
  have hSame :
      (table.makeRoom hash args).backendOf args =
        table.backendOf args := by
    unfold backendOf
    cases hRef : args.backendAddr with
    | addr storage => rfl
    | slot i =>
        rw [hRef] at hOutside
        exact absurd hOutside id
  apply putInternal_entries args hInv _ _ hAll
  · rintro ⟨_, hKey, hBackend⟩
    refine ⟨hKey, ?_⟩
    unfold newEntry
    dsimp only
    rw [hSame]
    exact hBackend
  · rintro old ⟨_, _, hBackend⟩ hOld _
    refine ⟨hOld.1, ?_⟩
    unfold refresh
    dsimp only
    rw [hSame]
    exact hBackend

theorem Op.Copies.outside
    {op : Op}
    {args : PutArgs}
    (hCopies : op.Copies)
    (hArgs : op.putArgs = some args) :
    BackendRef.Outside args.backendAddr := by
  cases op with
  | put key backendAddr backendAddrLen now =>
      cases hArgs
      exact hCopies
  | putOwned key backendAddr backendAddrLen now ownerSlot
      ownerFlowId =>
      cases hArgs
      exact hCopies
  | expire now idleTimeoutSeconds => cases hArgs
  | expireIncremental now idleTimeoutSeconds scanBudget
      keep => cases hArgs
  | evictIf pred => cases hArgs

theorem apply_storable
    (op : Op)
    (hInv : table.Inv hash)
    (hCopies : op.Copies)
    (hAll : table.Entries Session.Storable) :
    (table.apply hash op).Entries Session.Storable := by
  cases hArgs : op.putArgs with
  | none =>
      exact (apply_inherits hArgs hInv).every
        (fun _ _ hRenewed => hRenewed.storable) hAll
  | some args =>
      rw [(apply_put hash table hArgs).2]
      exact putInternal_storable args hInv
        (hCopies.outside hArgs) hAll

/- Such operations store valid backends only. -/
theorem run_storable
    (ops : List Op)
    (hCopies : ∀ op ∈ ops, op.Copies)
    (hInv : table.Inv hash)
    (hAll : table.Entries Session.Storable) :
    (ops.foldl (apply hash) table).Entries
      Session.Storable := by
  induction ops generalizing table with
  | nil => exact hAll
  | cons op ops ih =>
      exact ih
        (fun other hMem =>
          hCopies other (List.mem_cons_of_mem op hMem))
        (apply_inv hash op hInv)
        (apply_storable op hInv
          (hCopies op List.mem_cons_self) hAll)

/- The empty table. -/
def emptyTable
    (capacity : Nat) : SessionTable where
  capacity := capacity
  sessions := fun _ => none
  count := 0
  expireCursor := 0
  evictCursor := 0
  cidLenMask := 0
  cidLenMaskPending := 0

theorem init_eq_ok :
    init capacity = .ok table ↔
      0 < capacity ∧ table = emptyTable capacity := by
  unfold init
  by_cases hZero : capacity = 0
  · simp [hZero]
  · rw [if_neg hZero]
    constructor
    · intro hInit
      cases hInit
      exact ⟨Nat.pos_of_ne_zero hZero, rfl⟩
    · rintro ⟨_, hEmpty⟩
      rw [hEmpty]
      rfl

theorem init_capacity
    (hInit : init capacity = .ok table) :
    table.capacity = capacity := by
  rw [(init_eq_ok.mp hInit).2]
  rfl

theorem init_storable
    (hInit : init capacity = .ok table) :
    table.Entries Session.Storable := by
  rw [(init_eq_ok.mp hInit).2]
  rintro s ⟨p, _, hSome⟩
  cases hSome

theorem Entries.cleanFrom
    (c : Nat)
    (hAll : table.Entries Session.Storable) :
    table.CleanFrom c pred := by
  intro a _ s _ _ j hj _ _ e hEntry
  exact Or.inl (hAll e ⟨j, hj, hEntry⟩)

/-
  On every table that operations build, `evict_if` and
  `expire` are exact filters if and only if no entry without
  a valid backend would be dropped on the way.
-/
theorem sweeps_filter_where_clean
    (hash : Bytes → Nat)
    (capacity : Nat)
    (start : SessionTable)
    (ops : List Op)
    (pred : Session → Bool)
    (now idleTimeoutSeconds : Int)
    (hStart : init capacity = .ok start) :
    let table := ops.foldl (apply hash) start
    (Filters hash table pred (table.evictIf hash pred) ↔
      table.CleanFrom 0 pred) ∧
    (Filters hash table (idle now idleTimeoutSeconds)
        (table.expire hash now idleTimeoutSeconds) ↔
      table.CleanFrom 0 (idle now idleTimeoutSeconds)) := by
  intro table
  have hInv : table.Inv hash :=
    run_inv hash ops (init_inv hStart)
  refine ⟨evictIf_filters hInv, ?_⟩
  rw [expire_filters_iff]
  exact evictIf_filters hInv

/- A hash that reads the last byte of an eight-byte id. -/
def idHash
    (bytes : Bytes) : Nat :=
  (byteAt bytes 10).toNat

/- A key by its byte. -/
def idKey
    (i : UInt8) : SessionKey :=
  SessionKey.singleCidKey (List.replicate 8 i)

/- Some address. -/
def backendRef : BackendRef :=
  .addr (SockaddrStorage.ofBytes [2, 0])

/-
  A full table of two, and a third put whose backend is the
  one of slot 0.  The put evicts that very slot and stores
  the zeros it has become.
-/
def borrowingOps : List Op :=
  [.put (idKey 2) backendRef 16 0,
    .put (idKey 3) backendRef 16 1,
    .put (idKey 5) (.slot 0) 16 2]

/- The table after the put that borrows. -/
def zeroedTable : SessionTable :=
  borrowingOps.foldl (apply idHash) (emptyTable 2)

/- Evicting the entry in front of it takes it along. -/
theorem zeroed_entry_swept :
    init 2 = .ok (emptyTable 2) ∧
      ¬ Filters idHash zeroedTable
        (fun s => s.key.equals (idKey 3))
        (zeroedTable.evictIf idHash
          (fun s => s.key.equals (idKey 3))) := by
  refine ⟨rfl, ?_⟩
  rintro ⟨hRestricts, _⟩
  have hRun :
      ((zeroedTable.entryOf idHash (idKey 5)).map
          fun s => s.key.equals (idKey 3)) = some false ∧
        (zeroedTable.evictIf idHash
          (fun s => s.key.equals (idKey 3))).2.entryOf
            idHash (idKey 5) = none := by
    decide +kernel
  rcases Option.map_eq_some_iff.mp hRun.1 with
    ⟨s, hEntry, hOther⟩
  have hKept :=
    (hRestricts (idKey 5) s).mpr
      ⟨hEntry, by simp [hOther]⟩
  rw [hRun.2] at hKept
  cases hKept

/- The same table, when the third put brings a copy. -/
def copyingOps : List Op :=
  [.put (idKey 2) backendRef 16 0,
    .put (idKey 3) backendRef 16 1,
    .put (idKey 5) backendRef 16 2]

/- The table after the put that copies. -/
def copiedTable : SessionTable :=
  copyingOps.foldl (apply idHash) (emptyTable 2)

theorem copiedTable_storable :
    copiedTable.Entries Session.Storable := by
  have hStart : init 2 = .ok (emptyTable 2) := rfl
  have hCopies : ∀ op ∈ copyingOps, op.Copies := by
    simp [copyingOps, Op.Copies, BackendRef.Outside,
      backendRef]
  exact run_storable copyingOps hCopies
    (init_inv hStart) (init_storable hStart)

/- With a copy the entry stays. -/
theorem copied_entry_kept :
    Filters idHash copiedTable
      (fun s => s.key.equals (idKey 3))
      (copiedTable.evictIf idHash
        (fun s => s.key.equals (idKey 3))) :=
  (sweeps_filter_where_clean idHash 2 (emptyTable 2)
    copyingOps (fun s => s.key.equals (idKey 3)) 0 0
    rfl).1.mpr
    (Entries.cleanFrom 0 copiedTable_storable)

end SessionTable

end QuicSniRouter
