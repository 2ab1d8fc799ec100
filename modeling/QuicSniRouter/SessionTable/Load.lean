import QuicSniRouter.SessionTable.Eviction

/-
  The load of large tables.  A put into a table under
  pressure evicts first, and where its scan finds nothing to
  evict the whole window it has scanned is vacant.  So the
  table never fills up.

  Main declarations:
    * `SessionTable.Inherits.count_le`
    * `SessionTable.Light`
    * `SessionTable.apply_light`
    * `SessionTable.large_tables_never_full`
-/

------------------------------------------------------------
-- Counts
------------------------------------------------------------

namespace QuicSniRouter

open LinearProbing

namespace SessionTable

variable {hash : Bytes → Nat} {table after : SessionTable}
variable {args : PutArgs}

/- A table that has only old keys is not larger. -/
theorem Inherits.count_le
    (hInherits : Inherits table after)
    (hInv : table.Inv hash)
    (hAfter : after.Inv hash) :
    after.count ≤ table.count := by
  rw [hAfter.count, hInv.count, hInherits.capacity]
  have hDistinct := hAfter.distinct
  have hEntries := hInherits.entries
  rw [hInherits.capacity] at hDistinct hEntries
  apply used_le_of_keys Session.key _ hDistinct
  · intro e hHolds
    rcases hEntries e hHolds with ⟨d, hOld, hRenewed⟩
    exact ⟨d, hOld, hRenewed.key.symm⟩
  · intro d e hKey
    unfold Session.SameKey
    rw [hKey]
    exact SessionKey.equals_refl _

theorem putInternal_count_le
    (hInv : table.Inv hash)
    (hAccepts : table.Accepts args) :
    (putInternal hash 2 table args).2.capacity =
        table.capacity ∧
      (putInternal hash 2 table args).2.count ≤
        (table.makeRoom hash args).count + 1 := by
  have hThin := makeRoom_thinned args hInv
  rcases putInternal_ok hInv hAccepts with
    ⟨after, slot, entry, hPut, hWrote⟩
  rw [hPut]
  refine ⟨hWrote.frame.capacity.trans
    hThin.frame.capacity, ?_⟩
  rw [hWrote.inv.count, hThin.inv.count, hWrote.sessions,
    hWrote.frame.capacity]
  cases hCell : (table.makeRoom hash args).sessions slot with
  | none => rw [used_fill entry hWrote.slot_lt hCell]
  | some old =>
      rw [used_replace entry hCell]
      exact Nat.le_succ _

theorem updateAt_count
    (table : SessionTable)
    (args : PutArgs)
    (i : Nat) :
    (table.updateAt args i).count = table.count := by
  unfold updateAt
  cases table.sessions i with
  | none => rfl
  | some session => rfl

/- An eviction that finds nothing has seen a vacant window. -/
theorem count_of_no_victim
    (hInv : table.Inv hash)
    (hNone : table.evictVictim = none) :
    table.count + table.evictScans ≤ table.capacity := by
  have hScans : table.evictScans ≤ table.capacity := by
    unfold evictScans
    split
    · exact Nat.le_refl _
    · omega
  rw [hInv.count]
  exact used_of_vacant_window hScans (oldest_eq_none.mp hNone)

/- One that finds something makes the table smaller. -/
theorem evictOldest_count_lt
    {victim : Nat}
    (hInv : table.Inv hash)
    (hVictim : table.evictVictim = some victim) :
    (table.evictOldest hash).count < table.count := by
  rcases evictOldest_of_some hInv hVictim with
    ⟨hLt, session, hCell, hEq⟩
  have hThin := evictOldest_thinned hInv
  rw [hThin.inv.count, hInv.count, hThin.frame.capacity, hEq]
  exact tableDeleteAt_used hash
    (scanned_inv hash hInv).placed hLt hCell

/-
  A large table is not full, and if its tenth part is less
  than what an eviction scans, at most one entry exceeds the
  load at which evictions set in.
-/
structure Light
    (table : SessionTable) : Prop where
  vacant : table.count < table.capacity
  loaded :
    table.capacity < 40960 → 1 ≤ table.count →
      100 * (table.count - 1) < 90 * table.capacity

theorem Light.of_le
    (hLight : table.Light)
    (hCapacity : after.capacity = table.capacity)
    (hCount : after.count ≤ table.count) :
    after.Light := by
  have hVacant := hLight.vacant
  have hLoaded := hLight.loaded
  constructor
  · omega
  · rw [hCapacity]
    intro hMedium hSome
    have hBound := hLoaded hMedium (by omega)
    omega

/-
  What a put under pressure leaves: an entry goes first, or
  a whole window is vacant.
-/
theorem evictTwice_count
    (hInv : table.Inv hash)
    (hLarge : pressureEvictMinCapacity ≤ table.capacity)
    (hPressure : table.pressureEvictNeeded = true) :
    ((table.evictOldest hash).evictOldest hash).count <
        table.count ∨
      (40960 ≤ table.capacity ∧
        ((table.evictOldest hash).evictOldest hash).count +
          4096 ≤ table.capacity) := by
  have hOnce := evictOldest_thinned hInv
  have hTwice := evictOldest_thinned hOnce.inv
  have hLe := hTwice.inherits.count_le hOnce.inv hTwice.inv
  have hLe' := hOnce.inherits.count_le hInv hOnce.inv
  cases hVictim : table.evictVictim with
  | some victim =>
      have hLt := evictOldest_count_lt hInv hVictim
      left
      omega
  | none =>
      -- The load leaves less than a tenth of the slots.
      have hWindow := count_of_no_victim hInv hVictim
      have hLoad :
          table.capacity * 90 ≤ table.count * 100 := by
        unfold pressureEvictNeeded at hPressure
        rw [Bool.and_eq_true] at hPressure
        exact of_decide_eq_true hPressure.2
      have hMin : pressureEvictMinCapacity = 1024 := rfl
      have hBudget : evictScanBudget = 4096 := rfl
      right
      unfold evictScans at hWindow
      split at hWindow
      · omega
      · omega

theorem putInternal_light
    (hInv : table.Inv hash)
    (hLarge : pressureEvictMinCapacity ≤ table.capacity)
    (hAllow : args.allowPressureEvict = true)
    (hLight : table.Light) :
    (putInternal hash 2 table args).2.Light := by
  by_cases hAccepts : table.Accepts args
  · rcases putInternal_count_le hInv hAccepts with
      ⟨hCapacity, hCount⟩
    have hVacant := hLight.vacant
    have hMin : pressureEvictMinCapacity = 1024 := rfl
    rcases makeRoom_cases args hInv hAccepts.2.1 with
      ⟨hSome, hRoom⟩ | ⟨_, hFull, _⟩ |
        ⟨hNone, hLess, hPressure, hRoom⟩ |
        ⟨hNone, hLess, hCalm, hRoom⟩
    · rcases Option.isSome_iff_exists.mp hSome with ⟨i, hGet⟩
      apply hLight.of_le hCapacity
      rw [putInternal_of_get hAccepts hGet, updateAt_count]
    · omega
    · rw [hAllow, Bool.true_and] at hPressure
      rw [hRoom] at hCount
      rcases evictTwice_count hInv hLarge hPressure with
        hLt | ⟨hHuge, hWindow⟩
      · exact hLight.of_le hCapacity (by omega)
      · constructor
        · omega
        · omega
    · rw [hAllow, Bool.true_and] at hCalm
      rw [hRoom] at hCount
      have hLoad :
          table.count * 100 < table.capacity * 90 := by
        unfold pressureEvictNeeded at hCalm
        rw [decide_eq_true hLarge, Bool.true_and] at hCalm
        exact Nat.lt_of_not_le (of_decide_eq_false hCalm)
      constructor
      · omega
      · omega
  · rw [putInternal_refused hash hAccepts]
    exact hLight

theorem apply_light
    (op : Op)
    (hInv : table.Inv hash)
    (hLarge : pressureEvictMinCapacity ≤ table.capacity)
    (hLight : table.Light) :
    (table.apply hash op).Light := by
  cases hArgs : op.putArgs with
  | none =>
      have hInherits := apply_inherits hArgs hInv
      exact hLight.of_le hInherits.capacity
        (hInherits.count_le hInv (apply_inv hash op hInv))
  | some args =>
      rcases apply_put hash table hArgs with ⟨hAllow, hPut⟩
      rw [hPut]
      exact putInternal_light hInv hLarge hAllow hLight

theorem apply_capacity
    (op : Op)
    (hInv : table.Inv hash) :
    (table.apply hash op).capacity = table.capacity := by
  cases hArgs : op.putArgs with
  | none => exact (apply_inherits hArgs hInv).capacity
  | some args =>
      rw [(apply_put hash table hArgs).2]
      by_cases hAccepts : table.Accepts args
      · exact (putInternal_count_le hInv hAccepts).1
      · rw [putInternal_refused hash hAccepts]

theorem run_light
    (ops : List Op)
    (hInv : table.Inv hash)
    (hLarge : pressureEvictMinCapacity ≤ table.capacity)
    (hLight : table.Light) :
    (ops.foldl (apply hash) table).capacity = table.capacity ∧
      (ops.foldl (apply hash) table).Light := by
  induction ops generalizing table with
  | nil => exact ⟨rfl, hLight⟩
  | cons op ops ih =>
      have hCapacity := apply_capacity op hInv
      rcases ih (apply_inv hash op hInv)
          (by rw [hCapacity]; exact hLarge)
          (apply_light op hInv hLarge hLight) with
        ⟨hSame, hLater⟩
      exact ⟨hSame.trans hCapacity, hLater⟩

/-
  Whatever is done to a table of 1024 slots or more, a slot
  stays unused, so that every walk ends at its key or at an
  unused slot; and below 40960 slots at most one entry is
  above nine tenths of them.
-/
theorem large_tables_never_full
    (hash : Bytes → Nat)
    (capacity : Nat)
    (start : SessionTable)
    (ops : List Op)
    (hStart : init capacity = .ok start)
    (hLarge : 1024 ≤ capacity) :
    let table := ops.foldl (apply hash) start
    table.capacity = capacity ∧
      (∃ v < capacity, table.sessions v = none) ∧
      (∀ key, table.probe hash key ≠ .exhausted) ∧
      (capacity < 40960 → 1 ≤ table.count →
        100 * (table.count - 1) < 90 * capacity) := by
  intro table
  have hInit := @init_inv hash capacity start hStart
  have hInv : table.Inv hash := run_inv hash ops hInit
  have hSlots := init_capacity hStart
  have hCount : start.count = 0 := by
    rw [(init_eq_ok.mp hStart).2]
    rfl
  rcases run_light ops hInit (by rw [hSlots]; exact hLarge)
      ⟨by omega, by omega⟩ with
    ⟨hCapacity, hLight⟩
  rw [hSlots] at hCapacity
  have hVacant := hLight.vacant
  have hLoaded := hLight.loaded
  rw [hInv.count, hCapacity] at hVacant
  rw [hCapacity] at hLoaded
  rcases exists_vacant hVacant with ⟨v, hv, hNone⟩
  refine ⟨hCapacity, ⟨v, hv, hNone⟩, ?_, hLoaded⟩
  intro key hProbe
  rcases walk_exhausted (hash_lt hash key hInv.pos) hProbe v
      (by rw [hCapacity]; exact hv) with
    ⟨e, hCell, _⟩
  rw [hNone] at hCell
  cases hCell

/- Two thousand keys do not fill 1024 slots. -/
theorem filledTable_not_full :
    ∃ table,
      table =
          (fillOps 2000).foldl (apply idHash)
            (emptyTable 1024) ∧
        (∃ v < 1024, table.sessions v = none) ∧
        (1 ≤ table.count →
          100 * (table.count - 1) < 90 * 1024) := by
  rcases large_tables_never_full idHash 1024
      (emptyTable 1024) (fillOps 2000) rfl (by omega) with
    ⟨_, hVacant, _, hLoaded⟩
  exact ⟨_, rfl, hVacant, hLoaded (by omega)⟩

end SessionTable

end QuicSniRouter
