import QuicSniRouter.SessionTable.Filters

/-
  What a put does to the session map: it writes the entry of
  its key, and the evictions that make room for it take
  other entries away.  A put into a full table evicts the
  oldest entry it scans; a put under pressure runs through
  both evictions of the retry loop.

  Main declarations:
    * `SessionTable.Wrote.entryOf_ne`
    * `SessionTable.Sparing`
    * `SessionTable.evictOldest_losesOne`
    * `SessionTable.EvictsOnce`
    * `SessionTable.put_evicts_one_iff`
-/

------------------------------------------------------------
-- The Map After A Put
------------------------------------------------------------

namespace QuicSniRouter

open LinearProbing SessionKey

namespace SessionTable

variable {hash : Bytes → Nat}
variable {table room after : SessionTable} {args : PutArgs}
variable {slot : Nat} {entry : Session} {key : SessionKey}
variable {s : Session}

theorem Wrote.entryOf_self
    (hWrote : Wrote hash room args after slot entry)
    (hValid : key.valid = true)
    (hSame : key.equals args.key = true) :
    after.entryOf hash key = some entry := by
  apply (entryOf_eq_some hWrote.inv).mpr
  refine ⟨hValid, ⟨slot, ?_, ?_⟩, ?_⟩
  · rw [hWrote.frame.capacity]
    exact hWrote.slot_lt
  · rw [hWrote.sessions, fill_self]
  · exact equals_trans hWrote.key (equals_symm hSame)

/- A slot that is overwritten held the key before. -/
theorem Wrote.overwritten
    (hWrote : Wrote hash room args after slot entry)
    (hInv : room.Inv hash)
    (hSome : room.sessions slot = some s) :
    s.key.equals args.key = true := by
  rcases hWrote.old with hNone | hGet
  · rw [hSome] at hNone
    cases hNone
  · rcases get_used hInv hGet with ⟨_, t, hCell, hKey⟩
    rw [hSome] at hCell
    cases hCell
    exact hKey

theorem Wrote.entryOf_ne
    (hWrote : Wrote hash room args after slot entry)
    (hInv : room.Inv hash)
    (hOther : key.equals args.key = false) :
    after.entryOf hash key = room.entryOf hash key := by
  have hMiss :
      ∀ s : Session, s.key.equals key = true →
        s.key.equals args.key = true → False := by
    intro s hKey hArgs
    have hBoth := equals_trans (equals_symm hKey) hArgs
    rw [hOther] at hBoth
    cases hBoth
  apply Option.ext
  intro s
  rw [entryOf_eq_some hWrote.inv, entryOf_eq_some hInv,
    hWrote.frame.capacity]
  constructor
  · rintro ⟨hValid, ⟨q, hq, hSome⟩, hKey⟩
    rw [hWrote.sessions] at hSome
    rcases fill_eq_some hSome with ⟨_, hEq⟩ | ⟨_, hOld⟩
    · rw [hEq] at hKey
      exact absurd hWrote.key (hMiss entry hKey)
    · exact ⟨hValid, ⟨q, hq, hOld⟩, hKey⟩
  · rintro ⟨hValid, ⟨q, hq, hSome⟩, hKey⟩
    refine ⟨hValid, ⟨q, hq, ?_⟩, hKey⟩
    have hqs : q ≠ slot := by
      intro hEq
      rw [hEq] at hSome
      exact hMiss s hKey (hWrote.overwritten hInv hSome)
    rw [hWrote.sessions, fill_of_ne _ _ hqs, hSome]

theorem Thinned.entryOf
    (hThin : Thinned hash table room)
    (hInv : table.Inv hash)
    (hEntry : room.entryOf hash key = some s) :
    table.entryOf hash key = some s := by
  rcases (entryOf_eq_some hThin.inv).mp hEntry with
    ⟨hValid, hHolds, hKey⟩
  rw [hThin.frame.capacity] at hHolds
  exact (entryOf_eq_some hInv).mpr
    ⟨hValid, hThin.holds s hHolds, hKey⟩

/- What the walk of a key says about the table. -/
theorem probe_meaning
    (hInv : table.Inv hash)
    (hValid : key.valid = true) :
    match table.probe hash key with
    | .hit i => table.get hash key = some i
    | .vacant _ =>
        table.get hash key = none ∧
          table.count < table.capacity
    | .exhausted =>
        table.get hash key = none ∧
          table.count = table.capacity := by
  have hHome := hash_lt hash key hInv.pos
  have hPos := hInv.pos
  have hGuard :
      ¬ (table.capacity = 0 ∨ ¬ key.valid = true) := by
    simp only [hValid, not_true_eq_false, or_false]
    omega
  unfold get
  rw [if_neg hGuard, hInv.count]
  cases hProbe : table.probe hash key with
  | hit i => rfl
  | vacant i =>
      rcases walk_vacant hHome hProbe with ⟨hi, hNone, _⟩
      exact ⟨rfl, used_lt_of_vacant hi hNone⟩
  | exhausted =>
      refine ⟨rfl, ?_⟩
      have hLe := used_le table.capacity table.sessions
      by_contra hNe
      rcases exists_vacant
          (show used table.capacity table.sessions <
            table.capacity by omega) with
        ⟨v, hv, hNone⟩
      rcases walk_exhausted hHome hProbe v hv with
        ⟨e, hCell, _⟩
      rw [hNone] at hCell
      cases hCell

/- The four ways in which a put makes room. -/
theorem makeRoom_cases
    (args : PutArgs)
    (hInv : table.Inv hash)
    (hValid : args.key.valid = true) :
    ((table.get hash args.key).isSome = true ∧
      table.makeRoom hash args = table) ∨
    (table.get hash args.key = none ∧
      table.count = table.capacity ∧
      table.makeRoom hash args = table.evictOldest hash) ∨
    (table.get hash args.key = none ∧
      table.count < table.capacity ∧
      (args.allowPressureEvict &&
        table.pressureEvictNeeded) = true ∧
      table.makeRoom hash args =
        (table.evictOldest hash).evictOldest hash) ∨
    (table.get hash args.key = none ∧
      table.count < table.capacity ∧
      (args.allowPressureEvict &&
        table.pressureEvictNeeded) = false ∧
      table.makeRoom hash args = table) := by
  have hMeaning := probe_meaning hInv hValid
  unfold makeRoom
  cases hProbe : table.probe hash args.key with
  | hit i =>
      rw [hProbe] at hMeaning
      left
      rw [hMeaning]
      exact ⟨rfl, rfl⟩
  | exhausted =>
      rw [hProbe] at hMeaning
      exact Or.inr (Or.inl ⟨hMeaning.1, hMeaning.2, rfl⟩)
  | vacant i =>
      rw [hProbe] at hMeaning
      right
      right
      by_cases hPressure :
          (args.allowPressureEvict &&
            table.pressureEvictNeeded) = true
      · exact Or.inl ⟨hMeaning.1, hMeaning.2, hPressure,
          if_pos hPressure⟩
      · exact Or.inr ⟨hMeaning.1, hMeaning.2,
          Bool.not_eq_true _ ▸ hPressure,
          if_neg hPressure⟩

variable {table : SessionTable} {victim : Nat}

/- An eviction takes nothing but its victim. -/
def Sparing
    (table : SessionTable) : Prop :=
  ∀ victim, table.evictVictim = some victim →
    table.RunStorable victim

theorem Entries.sparing
    (hAll : table.Entries Session.Storable) :
    table.Sparing :=
  fun _ _ j hj _ _ s hSome => hAll s ⟨j, hj, hSome⟩

theorem evictOldest_of_none
    (hNone : table.evictVictim = none) :
    (table.evictOldest hash).sessions = table.sessions := by
  unfold evictOldest evictOldestWith
  by_cases hZero : table.count = 0
  · rw [if_pos hZero]
  · rw [if_neg hZero, hNone]

/- A scan without a victim only moves its cursor. -/
theorem evictOldest_scanned
    (hash : Bytes → Nat)
    (hPos : 0 < table.count)
    (hNone : table.evictVictim = none) :
    table.evictOldest hash = table.scanned := by
  unfold evictOldest evictOldestWith
  rw [if_neg (by omega), hNone]
  rfl

theorem evictOldest_of_some
    (hInv : table.Inv hash)
    (hVictim : table.evictVictim = some victim) :
    victim < table.capacity ∧
      ∃ session, table.sessions victim = some session ∧
        table.evictOldest hash =
          table.scanned.tableDeleteAt hash victim := by
  rcases oldest_used hInv.pos hVictim with
    ⟨hLt, session, hCell⟩
  have hVacate := used_vacate hLt hCell
  have hCount := hInv.count
  refine ⟨hLt, session, hCell, ?_⟩
  unfold evictOldest evictOldestWith
  rw [if_neg (by omega), hVictim]
  rfl

theorem evictScans_small
    (hSmall : table.capacity ≤ evictScanBudget) :
    table.evictScans = table.capacity := by
  unfold evictScans
  split
  · rfl
  · omega

/- A scan of the whole ring finds an entry if there is one. -/
theorem evictVictim_ne_none
    (hInv : table.Inv hash)
    (hSmall : table.capacity ≤ evictScanBudget)
    (hSome : 0 < table.count) :
    table.evictVictim ≠ none := by
  rw [hInv.count] at hSome
  rcases exists_used hSome with ⟨p, hp, hCell⟩
  unfold evictVictim
  rw [evictScans_small hSmall]
  exact oldest_ring_ne_none hp hCell

/- What a sparing eviction leaves. -/
theorem evictOldest_spares
    (hInv : table.Inv hash)
    (hVictim : table.evictVictim = some victim)
    (hSparing : table.RunStorable victim) :
    ∃ session, table.sessions victim = some session ∧
      (∀ s, Holds table.capacity
          (table.evictOldest hash).sessions s ↔
        Holds table.capacity table.sessions s ∧ s ≠ session) ∧
      used table.capacity
          (table.evictOldest hash).sessions + 1 =
        used table.capacity table.sessions := by
  rcases evictOldest_of_some hInv hVictim with
    ⟨hLt, session, hCell, hEq⟩
  have hDeleted :=
    tableDeleteAt_exactly (scanned_inv hash hInv) hLt hCell
      hSparing
  rw [hEq]
  exact ⟨session, hCell, hDeleted.holds, hDeleted.used⟩

/- The victim is gone in any case. -/
theorem evictOldest_victim
    {session : Session}
    (hInv : table.Inv hash)
    (hVictim : table.evictVictim = some victim)
    (hCell : table.sessions victim = some session) :
    ¬ Holds table.capacity
      (table.evictOldest hash).sessions session := by
  rcases evictOldest_of_some hInv hVictim with
    ⟨hLt, _, _, hEq⟩
  rw [hEq]
  intro hHolds
  exact tableDeleteAt_ne (scanned_inv hash hInv).placed hLt
    hCell hHolds rfl

/- At most one entry of the first table is not in the other. -/
def LosesOne
    (n : Nat)
    (before after : SessionTable) : Prop :=
  ∀ s t,
    Holds n before.sessions s → ¬ Holds n after.sessions s →
    Holds n before.sessions t → ¬ Holds n after.sessions t →
      s = t

/- When an eviction loses one entry only. -/
theorem evictOldest_losesOne
    (hInv : table.Inv hash) :
    LosesOne table.capacity table (table.evictOldest hash) ↔
      table.Sparing := by
  constructor
  · intro hOne victim hVictim j hj hjv hRun e hEntry
    by_contra hDrop
    rcases evictOldest_of_some hInv hVictim with
      ⟨hLt, session, hCell, hEq⟩
    have hGone := evictOldest_victim hInv hVictim hCell
    have hLost :=
      tableDeleteAt_loses (scanned_inv hash hInv).placed hLt
        hCell hj hjv.symm hRun hEntry hDrop
    rw [← hEq] at hLost
    have hSame :=
      hOne session e ⟨victim, hLt, hCell⟩ hGone
        ⟨j, hj, hEntry⟩ hLost
    rw [hSame] at hCell
    exact hjv
      (hInv.distinct j hj victim hLt e e hEntry hCell
        (equals_refl _))
  · intro hSparing s t hs hsGone ht htGone
    cases hVictim : table.evictVictim with
    | none =>
        rw [evictOldest_of_none hVictim] at hsGone
        exact absurd hs hsGone
    | some victim =>
        rcases evictOldest_spares hInv hVictim
            (hSparing victim hVictim) with
          ⟨session, _, hHolds, _⟩
        have hVictimOf :
            ∀ u, Holds table.capacity table.sessions u →
              ¬ Holds table.capacity
                (table.evictOldest hash).sessions u →
              u = session := by
          intro u hu hGone
          by_contra hNe
          exact hGone ((hHolds u).mpr ⟨hu, hNe⟩)
        rw [hVictimOf s hs hsGone, hVictimOf t ht htGone]

/- Two evictions in a row lose one entry or none. -/
theorem evictTwice_losesOne
    (hInv : table.Inv hash)
    (hPos : 0 < table.count) :
    LosesOne table.capacity table
        ((table.evictOldest hash).evictOldest hash) ↔
      (table.evictVictim = none ∧ table.scanned.Sparing) ∨
      (table.Sparing ∧
        (table.evictOldest hash).evictVictim = none) := by
  have hOnce := evictOldest_thinned hInv
  have hTwice := evictOldest_thinned hOnce.inv
  have hSecond := evictOldest_losesOne hOnce.inv
  have hLater := hTwice.holds
  rw [hOnce.frame.capacity] at hSecond hLater
  constructor
  · intro hOne
    cases hVictim : table.evictVictim with
    | none =>
        left
        rw [← evictOldest_scanned hash hPos hVictim]
        refine ⟨rfl, hSecond.mp ?_⟩
        unfold LosesOne at hOne ⊢
        rw [evictOldest_of_none hVictim]
        exact hOne
    | some victim =>
        right
        rcases evictOldest_of_some hInv hVictim with
          ⟨hLt, session, hCell, _⟩
        have hGone := evictOldest_victim hInv hVictim hCell
        constructor
        · apply (evictOldest_losesOne hInv).mp
          intro s t hs hsGone ht htGone
          exact hOne s t hs (fun h => hsGone (hLater s h)) ht
            (fun h => htGone (hLater t h))
        · -- A second victim would be a second loss.
          cases hNext :
              (table.evictOldest hash).evictVictim with
          | none => rfl
          | some other =>
              rcases evictOldest_of_some hOnce.inv hNext with
                ⟨hLt', session', hCell', _⟩
              have hGone' :=
                evictOldest_victim hOnce.inv hNext hCell'
              rw [hOnce.frame.capacity] at hLt' hGone'
              have hSame :=
                hOne session session' ⟨victim, hLt, hCell⟩
                  (fun h => hGone (hLater session h))
                  (hOnce.holds session'
                    ⟨other, hLt', hCell'⟩) hGone'
              rw [hSame] at hGone
              exact absurd ⟨other, hLt', hCell'⟩ hGone
  · rintro (⟨hNone, hSparing⟩ | ⟨hSparing, hNone⟩)
    · rw [← evictOldest_scanned hash hPos hNone] at hSparing
      have hOne := hSecond.mpr hSparing
      unfold LosesOne at hOne ⊢
      rw [evictOldest_of_none hNone] at hOne
      exact hOne
    · have hOne := (evictOldest_losesOne hInv).mpr hSparing
      unfold LosesOne at hOne ⊢
      rw [evictOldest_of_none hNone]
      exact hOne

------------------------------------------------------------
-- Lost Keys
------------------------------------------------------------

variable {hash : Bytes → Nat} {table after : SessionTable}
variable {args : PutArgs} {key : SessionKey}

/- A key that was present before and is absent after. -/
def Lost
    (hash : Bytes → Nat)
    (table after : SessionTable)
    (key : SessionKey) : Prop :=
  (table.entryOf hash key).isSome = true ∧
    after.entryOf hash key = none

/- What is lost was there and is gone. -/
theorem Thinned.lost_iff
    (hThin : Thinned hash table after)
    (hInv : table.Inv hash) :
    Lost hash table after key ↔
      ∃ s, table.entryOf hash key = some s ∧
        ¬ Holds table.capacity after.sessions s := by
  unfold Lost
  rw [Option.isSome_iff_exists]
  constructor
  · rintro ⟨⟨s, hEntry⟩, hNone⟩
    refine ⟨s, hEntry, ?_⟩
    intro hHolds
    rcases (entryOf_eq_some hInv).mp hEntry with
      ⟨hValid, _, hKey⟩
    rw [← hThin.frame.capacity] at hHolds
    rw [(entryOf_eq_some hThin.inv).mpr
      ⟨hValid, hHolds, hKey⟩] at hNone
    cases hNone
  · rintro ⟨s, hEntry, hGone⟩
    refine ⟨⟨s, hEntry⟩, ?_⟩
    cases hLater : after.entryOf hash key with
    | none => rfl
    | some t =>
        have hOld := hThin.entryOf hInv hLater
        rw [hEntry] at hOld
        cases hOld
        rcases (entryOf_eq_some hThin.inv).mp hLater with
          ⟨_, hHolds, _⟩
        rw [hThin.frame.capacity] at hHolds
        exact absurd hHolds hGone

theorem Thinned.losesOne_iff
    (hThin : Thinned hash table after)
    (hInv : table.Inv hash) :
    (∀ a b, Lost hash table after a →
      Lost hash table after b → a.equals b = true) ↔
      LosesOne table.capacity table after := by
  constructor
  · intro hOne s t hs hsGone ht htGone
    have hEquals :=
      hOne s.key t.key
        ((hThin.lost_iff hInv).mpr
          ⟨s, entryOf_key hInv hs, hsGone⟩)
        ((hThin.lost_iff hInv).mpr
          ⟨t, entryOf_key hInv ht, htGone⟩)
    exact hInv.distinct.eq_of_same hs ht hEquals
  · intro hOne a b ha hb
    rcases (hThin.lost_iff hInv).mp ha with ⟨s, hs, hsGone⟩
    rcases (hThin.lost_iff hInv).mp hb with ⟨t, ht, htGone⟩
    rcases (entryOf_eq_some hInv).mp hs with
      ⟨_, hsHolds, hsKey⟩
    rcases (entryOf_eq_some hInv).mp ht with
      ⟨_, htHolds, htKey⟩
    have hSame := hOne s t hsHolds hsGone htHolds htGone
    rw [hSame] at hsKey
    exact equals_trans (equals_symm hsKey) htKey

/- A put loses what the evictions lose. -/
theorem putInternal_lost_iff
    (hInv : table.Inv hash)
    (hAccepts : table.Accepts args) :
    Lost hash table (putInternal hash 2 table args).2 key ↔
      Lost hash table (table.makeRoom hash args) key := by
  have hThin := makeRoom_thinned args hInv
  rcases putInternal_ok hInv hAccepts with
    ⟨written, slot, entry, hPut, hWrote⟩
  rw [hPut]
  unfold Lost
  refine and_congr_right ?_
  intro hSome
  rcases Option.isSome_iff_exists.mp hSome with ⟨s, hEntry⟩
  rcases (entryOf_eq_some hInv).mp hEntry with
    ⟨hValid, _, hKey⟩
  by_cases hOther : key.equals args.key = true
  · -- The key of the put is there before and after it.
    have hSelf := hWrote.entryOf_self hValid hOther
    have hArgs : table.entryOf hash args.key = some s :=
      (entryOf_eq_some hInv).mpr
        ⟨hAccepts.2.1, ((entryOf_eq_some hInv).mp hEntry).2.1,
          equals_trans hKey hOther⟩
    rcases Option.bind_eq_some_iff.mp hArgs with ⟨i, hGet, _⟩
    rw [makeRoom_of_get hGet, hSelf, hEntry]
    simp
  · rw [hWrote.entryOf_ne hThin.inv
      (Bool.not_eq_true _ ▸ hOther)]

/- The property of a put under `key`. -/
def EvictsAtMostOne
    (hash : Bytes → Nat)
    (table : SessionTable)
    (key : SessionKey)
    (after : SessionTable) : Prop :=
  (∀ a b, Lost hash table after a →
    Lost hash table after b → a.equals b = true) ∧
  ((table.get hash key).isSome = true ∨
      (table.count ≠ table.capacity ∧
        table.pressureEvictNeeded = false) →
    ∀ other, ¬ Lost hash table after other)

/-
  When a put under `key` evicts one entry at most: into a
  full table the eviction has to be sparing, and under
  pressure one of the two evictions must find no victim.  If
  it is the second, its window is read after the first: the
  entries behind a victim are put back, and which of them
  leave or enter the window is told by the homes of all of
  them, not by the slots in use before.
-/
def EvictsOnce
    (hash : Bytes → Nat)
    (table : SessionTable)
    (key : SessionKey) : Prop :=
  table.get hash key = none →
    (table.count = table.capacity → table.Sparing) ∧
    (table.count < table.capacity →
      table.pressureEvictNeeded = true →
        (table.evictVictim = none ∧ table.scanned.Sparing) ∨
        (table.Sparing ∧
          (table.evictOldest hash).evictVictim = none))

theorem not_lost_self
    (hash : Bytes → Nat)
    (table : SessionTable)
    (key : SessionKey) :
    ¬ Lost hash table table key := by
  rintro ⟨hSome, hNone⟩
  rw [hNone] at hSome
  cases hSome

/- When a put loses one entry at most. -/
theorem putInternal_evicts_iff
    (hInv : table.Inv hash)
    (hAccepts : table.Accepts args)
    (hAllow : args.allowPressureEvict = true) :
    EvictsAtMostOne hash table args.key
        (putInternal hash 2 table args).2 ↔
      table.EvictsOnce hash args.key := by
  have hThin := makeRoom_thinned args hInv
  unfold EvictsAtMostOne
  simp only [putInternal_lost_iff hInv hAccepts]
  rw [hThin.losesOne_iff hInv]
  unfold EvictsOnce
  rcases makeRoom_cases args hInv hAccepts.2.1 with
    ⟨hSome, hRoom⟩ | ⟨hNone, hFull, hRoom⟩ |
      ⟨hNone, hLess, hPressure, hRoom⟩ |
      ⟨hNone, hLess, hCalm, hRoom⟩
  · rw [hRoom]
    constructor
    · intro _ hNone
      rw [hNone] at hSome
      cases hSome
    · intro _
      exact ⟨fun s _ hs hGone => absurd hs hGone,
        fun _ other => not_lost_self hash table other⟩
  · rw [hRoom, evictOldest_losesOne hInv]
    constructor
    · rintro ⟨hSparing, _⟩ _
      exact ⟨fun _ => hSparing, by omega⟩
    · intro hOnce
      refine ⟨(hOnce hNone).1 hFull, ?_⟩
      rintro (hSome | ⟨hNot, _⟩)
      · rw [hNone] at hSome
        cases hSome
      · exact absurd hFull hNot
  · rw [hAllow, Bool.true_and] at hPressure
    have hPos : 0 < table.count := by
      unfold pressureEvictNeeded at hPressure
      simp only [Bool.and_eq_true, decide_eq_true_eq,
        pressureEvictMinCapacity,
        pressureEvictLoadPercent] at hPressure
      omega
    rw [hRoom, evictTwice_losesOne hInv hPos]
    constructor
    · rintro ⟨hOne, _⟩ _
      exact ⟨by omega, fun _ _ => hOne⟩
    · intro hOnce
      refine ⟨(hOnce hNone).2 hLess hPressure, ?_⟩
      rintro (hSome | ⟨_, hCalm⟩)
      · rw [hNone] at hSome
        cases hSome
      · rw [hPressure] at hCalm
        cases hCalm
  · rw [hAllow, Bool.true_and] at hCalm
    rw [hRoom]
    constructor
    · intro _ _
      refine ⟨by omega, ?_⟩
      intro _ hPressure
      rw [hCalm] at hPressure
      cases hPressure
    · intro _
      exact ⟨fun s _ hs hGone => absurd hs hGone,
        fun _ other => not_lost_self hash table other⟩

/-
  On every table that operations build, a put of a valid key
  and backend evicts at most one entry exactly where one of
  its evictions comes to nothing and the other is sparing.
-/
theorem put_evicts_one_iff
    (hash : Bytes → Nat)
    (capacity : Nat)
    (start : SessionTable)
    (ops : List Op)
    (key : SessionKey)
    (backendAddr : BackendRef)
    (backendAddrLen : Nat)
    (now : Int)
    (ownerSlot ownerFlowId : Nat)
    (hStart : init capacity = .ok start)
    (hKey : key.valid = true)
    (hBackend :
      Sockaddr.valid
        { storage :=
            (ops.foldl (apply hash) start).deref backendAddr
          len := backendAddrLen } = true) :
    let table := ops.foldl (apply hash) start
    (EvictsAtMostOne hash table key
        (table.put hash key backendAddr backendAddrLen
          now).2 ↔
      table.EvictsOnce hash key) ∧
    (EvictsAtMostOne hash table key
        (table.putOwned hash key backendAddr backendAddrLen
          now ownerSlot ownerFlowId).2 ↔
      table.EvictsOnce hash key) := by
  intro table
  have hInv : table.Inv hash :=
    run_inv hash ops (init_inv hStart)
  constructor
  · exact @putInternal_evicts_iff hash table
      { key, backendAddr, backendAddrLen, now
        allowPressureEvict := true
        ownerSlot := 0
        ownerFlowId := 0 }
      hInv ⟨hInv.pos, hKey, hBackend⟩ rfl
  · exact @putInternal_evicts_iff hash table
      { key, backendAddr, backendAddrLen, now
        allowPressureEvict := true
        ownerSlot, ownerFlowId }
      hInv ⟨hInv.pos, hKey, hBackend⟩ rfl

------------------------------------------------------------
-- Filling A Table
------------------------------------------------------------

/-
  Under pressure a put takes two entries from a table that
  is scanned as a whole.
-/
theorem not_evictsOnce
    (hInv : table.Inv hash)
    (hAll : table.Entries Session.Storable)
    (hSmall : table.capacity ≤ evictScanBudget)
    (hNone : table.get hash key = none)
    (hLess : table.count < table.capacity)
    (hTwo : 2 ≤ table.count)
    (hPressure : table.pressureEvictNeeded = true) :
    ¬ table.EvictsOnce hash key := by
  have hFirst := evictVictim_ne_none hInv hSmall (by omega)
  rcases Option.ne_none_iff_exists'.mp hFirst with
    ⟨victim, hVictim⟩
  have hOnce := evictOldest_thinned hInv
  rcases evictOldest_spares hInv hVictim
      (hAll.sparing victim hVictim) with
    ⟨_, _, _, hUsed⟩
  have hCount := hInv.count
  have hCount' := hOnce.inv.count
  rw [hOnce.frame.capacity] at hCount'
  have hSecond :=
    evictVictim_ne_none hOnce.inv
      (by rw [hOnce.frame.capacity]; exact hSmall)
      (by omega)
  intro hEvicts
  rcases (hEvicts hNone).2 hLess hPressure with
    ⟨hNot, _⟩ | ⟨_, hNot⟩
  · exact hFirst hNot
  · exact hSecond hNot

/- A new key, a vacant slot, and no pressure. -/
theorem putInternal_count
    (hInv : table.Inv hash)
    (hAccepts : table.Accepts args)
    (hNone : table.get hash args.key = none)
    (hLess : table.count < table.capacity)
    (hCalm : table.pressureEvictNeeded = false) :
    (putInternal hash 2 table args).2.count =
      table.count + 1 := by
  have hMeaning := probe_meaning hInv hAccepts.2.1
  have hUnfold :
      putInternal hash 2 table args =
        putWith hash (evictOldest hash) table args := rfl
  rw [hUnfold, putWith_accepted hash hAccepts]
  cases hProbe : table.probe hash args.key with
  | hit i =>
      rw [hProbe] at hMeaning
      rw [hNone] at hMeaning
      cases hMeaning
  | exhausted =>
      rw [hProbe] at hMeaning
      have hFull := hMeaning.2
      omega
  | vacant i =>
      rw [hCalm, Bool.and_false]
      rfl

/- Ids that tell the numbers up to 2 ^ 16 apart. -/
def numberedCid
    (i : Nat) : Bytes :=
  List.replicate 6 0 ++ [UInt8.ofNat (i / 256), UInt8.ofNat i]

/- The key of a number. -/
def numberedKey
    (i : Nat) : SessionKey :=
  singleCidKey (numberedCid i)

theorem numberedKey_valid
    (i : Nat) :
    (numberedKey i).valid = true := by
  apply singleCidKey_valid_of_length
  · exact Nat.le_refl 8
  · exact (by decide : 8 ≤ maxQuicCidLen)

theorem numberedKey_inj
    {i j : Nat}
    (hi : i < 65536)
    (hj : j < 65536)
    (hEquals :
      (numberedKey i).equals (numberedKey j) = true) :
    i = j := by
  have hCid : numberedCid i = numberedCid j :=
    singleCidKey_inj (numberedKey_valid i)
      (numberedKey_valid j) hEquals
  have hBytes :
      UInt8.ofNat (i / 256) = UInt8.ofNat (j / 256) ∧
        UInt8.ofNat i = UInt8.ofNat j := by
    simpa [numberedCid] using hCid
  have hHigh := congrArg UInt8.toNat hBytes.1
  have hLow := congrArg UInt8.toNat hBytes.2
  simp only [UInt8.toNat_ofNat'] at hHigh hLow
  omega

/- The first `n` keys, each put once. -/
def fillOps
    (n : Nat) : List Op :=
  (List.range n).map
    (fun i => .put (numberedKey i) backendRef 16 i)

/- A table after so many new keys. -/
def filledTable
    (hash : Bytes → Nat)
    (capacity n : Nat) : SessionTable :=
  (fillOps n).foldl (apply hash) (emptyTable capacity)

theorem filledTable_succ
    (hash : Bytes → Nat)
    (capacity n : Nat) :
    filledTable hash capacity (n + 1) =
      ((filledTable hash capacity n).put hash
        (numberedKey n) backendRef 16 n).2 := by
  unfold filledTable fillOps
  rw [List.range_succ, List.map_append, List.foldl_append]
  rfl

/- The first `n` keys are stored, and nothing else. -/
structure Filled
    (hash : Bytes → Nat)
    (capacity n : Nat)
    (table : SessionTable) : Prop where
  inv : table.Inv hash
  capacity : table.capacity = capacity
  count : table.count = n
  keys :
    table.Keys
      (fun key => ∃ i < n, key.equals (numberedKey i) = true)

variable {capacity n : Nat}

theorem Filled.get_none
    (hFilled : Filled hash capacity n table)
    (hn : n < 65536) :
    table.get hash (numberedKey n) = none := by
  apply (get_eq_none hFilled.inv (numberedKey_valid n)).mpr
  intro i hi session hSome
  by_contra hEquals
  rw [Bool.not_eq_false] at hEquals
  rcases hFilled.keys session ⟨i, hi, hSome⟩ with
    ⟨j, hj, hKey⟩
  have hSame :=
    numberedKey_inj (by omega) hn
      (equals_trans (equals_symm hKey) hEquals)
  omega

/- One more key that is new. -/
theorem Filled.put
    (hFilled : Filled hash capacity n table)
    (hn : n < 65536)
    (hRoom : n < capacity)
    (hCalm : n * 100 < capacity * 90) :
    Filled hash capacity (n + 1)
      (table.put hash (numberedKey n) backendRef 16 n).2 := by
  have hInv := hFilled.inv
  have hCalm' : table.pressureEvictNeeded = false := by
    unfold pressureEvictNeeded
    rw [hFilled.capacity, hFilled.count]
    simp only [Bool.and_eq_false_iff, decide_eq_false_iff_not]
    right
    simpa [pressureEvictLoadPercent] using hCalm
  have hAccepts :
      table.Accepts
        { key := numberedKey n
          backendAddr := backendRef
          backendAddrLen := 16
          now := n
          allowPressureEvict := true
          ownerSlot := 0
          ownerFlowId := 0 } :=
    ⟨hInv.pos, numberedKey_valid n, by rfl⟩
  rcases putInternal_ok hInv hAccepts with
    ⟨written, _, _, hPut, hWrote⟩
  have hWritten := congrArg Prod.snd hPut
  constructor
  · exact putInternal_inv hash _ hInv
  · unfold SessionTable.put
    rw [hWritten, hWrote.frame.capacity,
      (makeRoom_thinned _ hInv).frame.capacity]
    exact hFilled.capacity
  · have hCount :=
      putInternal_count hInv hAccepts (hFilled.get_none hn)
        (by rw [hFilled.count, hFilled.capacity]; exact hRoom)
        hCalm'
    rw [hFilled.count] at hCount
    exact hCount
  · refine putInternal_keys _ hInv ?_ ?_
    · intro key hEquals
      exact ⟨n, Nat.lt_succ_self n, hEquals⟩
    · intro s hHolds
      rcases hFilled.keys s hHolds with ⟨i, hi, hKey⟩
      exact ⟨i, Nat.lt_succ_of_lt hi, hKey⟩

/- Keys that are all new fill the table up to the pressure. -/
theorem filledTable_filled
    (hash : Bytes → Nat)
    (hPos : 0 < capacity)
    (hn : n ≤ 65536)
    (hRoom : n ≤ capacity)
    (hCalm : ∀ i < n, i * 100 < capacity * 90) :
    Filled hash capacity n (filledTable hash capacity n) := by
  induction n with
  | zero =>
      refine ⟨init_inv (init_eq_ok.mpr ⟨hPos, rfl⟩), rfl, rfl, ?_⟩
      rintro s ⟨p, _, hSome⟩
      cases hSome
  | succ n ih =>
      rw [filledTable_succ]
      apply Filled.put
      · exact ih (by omega) (by omega)
          (fun i hi => hCalm i (by omega))
      · omega
      · omega
      · exact hCalm n (by omega)

/-
  A table of 1024 slots is under pressure with 922 entries.
  One more key takes two of them.
-/
theorem pressured_put_evicts_two :
    init 1024 = .ok (emptyTable 1024) ∧
      ¬ EvictsAtMostOne idHash (filledTable idHash 1024 922)
        (numberedKey 922)
        ((filledTable idHash 1024 922).put idHash
          (numberedKey 922) backendRef 16 922).2 := by
  have hStart : init 1024 = .ok (emptyTable 1024) := rfl
  have hFilled :
      Filled idHash 1024 922 (filledTable idHash 1024 922) :=
    filledTable_filled idHash (by omega) (by omega)
      (by omega) (by omega)
  generalize hTable : filledTable idHash 1024 922 = table
    at hFilled ⊢
  have hStored : table.Entries Session.Storable := by
    rw [← hTable]
    refine run_storable (fillOps 922) ?_ (init_inv hStart)
      (init_storable hStart)
    intro op hMem
    rcases List.mem_map.mp hMem with ⟨i, _, hOp⟩
    rw [← hOp]
    trivial
  have hPressure : table.pressureEvictNeeded = true := by
    unfold pressureEvictNeeded
    rw [hFilled.capacity, hFilled.count]
    rfl
  have hLess : table.count < table.capacity := by
    rw [hFilled.capacity, hFilled.count]
    omega
  have hTwice :=
    not_evictsOnce hFilled.inv hStored
      (by rw [hFilled.capacity]; decide)
      (hFilled.get_none (by omega)) hLess
      (by rw [hFilled.count]; omega) hPressure
  refine ⟨hStart, fun hOne => hTwice ?_⟩
  exact (putInternal_evicts_iff hFilled.inv
    ⟨hFilled.inv.pos, numberedKey_valid 922, rfl⟩ rfl).mp
    hOne

/- Into a full table of two, a put evicts one entry. -/
theorem full_put_evicts_one :
    EvictsAtMostOne idHash copiedTable (idKey 7)
      (copiedTable.put idHash (idKey 7) backendRef 16 3).2 :=
  (put_evicts_one_iff idHash 2 (emptyTable 2) copyingOps
    (idKey 7) backendRef 16 3 0 0 rfl rfl rfl).1.mpr
    (fun _ =>
      ⟨fun _ => copiedTable_storable.sparing, by
        intro _ hPressure
        cases hPressure⟩)

end SessionTable

end QuicSniRouter
