import QuicSniRouter.SessionTable.Operations

/-
  What the operations do to the entries of a session table.
  A put first makes room and then writes one entry; what it
  stores is read after the evictions.  Everything else only
  removes entries or refreshes their time stamps.

  Main declarations:
    * `SessionTable.makeRoom`
    * `SessionTable.putInternal_accepted`
    * `SessionTable.putInternal_ok`
    * `SessionTable.Wrote.holds`
    * `SessionTable.Inherits`
    * `SessionTable.expireIncremental_keeps`
    * `SessionTable.putInternal_entries`
    * `SessionTable.putInternal_backends`
    * `SessionTable.putInternal_keys`
    * `SessionKey.equals_of_tupleKey`
-/

------------------------------------------------------------
-- Making Room
------------------------------------------------------------

namespace QuicSniRouter

open LinearProbing

namespace SessionTable

variable (hash : Bytes → Nat)
variable {table a b c room after before : SessionTable}
variable {args : PutArgs} {slot i : Nat}
variable {entry s session : Session} {op : Op}
variable {key : SessionKey} {Q R : Session → Prop}

instance
    (table : SessionTable)
    (args : PutArgs) :
    Decidable (table.Accepts args) :=
  inferInstanceAs (Decidable (_ ∧ _ ∧ _))

/- The table after the evictions of a put. -/
def makeRoom
    (table : SessionTable)
    (args : PutArgs) : SessionTable :=
  match table.probe hash args.key with
  | .vacant _ =>
      if args.allowPressureEvict &&
          table.pressureEvictNeeded then
        (table.evictOldest hash).evictOldest hash
      else
        table
  | .hit _ => table
  | .exhausted => table.evictOldest hash

/- An accepted put writes into the room it has made. -/
theorem putInternal_accepted
    (hAccepts : table.Accepts args) :
    putInternal hash 2 table args =
      putRetry hash (table.makeRoom hash args) args := by
  have hUnfold :
      putInternal hash 2 table args =
        putWith hash (evictOldest hash) table args := rfl
  rw [hUnfold, putWith_accepted hash hAccepts]
  unfold makeRoom
  cases hProbe : table.probe hash args.key with
  | vacant i =>
      by_cases hPressure :
          (args.allowPressureEvict &&
            table.pressureEvictNeeded) = true
      · simp only [hPressure, if_true]
      · simp [hPressure, putRetry, hProbe]
  | hit i => simp [putRetry, hProbe]
  | exhausted => rfl

/- A refused put changes nothing. -/
theorem putInternal_refused
    (hAccepts : ¬ table.Accepts args) :
    putInternal hash 2 table args = (.invalid, table) :=
  putWith_refused hash hAccepts

/- The table that a put reads its backend from. -/
def roomFor
    (table : SessionTable)
    (args : PutArgs) : SessionTable :=
  if table.Accepts args then table.makeRoom hash args
  else table

variable {hash}

/- What evictions leave of a table. -/
structure Thinned
    (hash : Bytes → Nat)
    (before after : SessionTable) : Prop where
  inv : after.Inv hash
  frame : SameFrame before after
  holds :
    ∀ s, Holds before.capacity after.sessions s →
      Holds before.capacity before.sessions s
  used_le :
    used before.capacity after.sessions ≤
      used before.capacity before.sessions

theorem Thinned.refl
    (hInv : table.Inv hash) :
    Thinned hash table table :=
  ⟨hInv, SameFrame.refl table, fun _ h => h, Nat.le_refl _⟩

theorem Thinned.trans
    (hab : Thinned hash a b)
    (hbc : Thinned hash b c) :
    Thinned hash a c := by
  have hHolds := hbc.holds
  have hUsed := hbc.used_le
  rw [hab.frame.capacity] at hHolds hUsed
  exact ⟨hbc.inv, hab.frame.trans hbc.frame,
    fun s h => hab.holds s (hHolds s h),
    Nat.le_trans hUsed hab.used_le⟩

/- An eviction does not add entries. -/
theorem evictOldest_used_le
    (hInv : table.Inv hash) :
    used table.capacity (table.evictOldest hash).sessions ≤
      used table.capacity table.sessions := by
  rcases evictOldest_cases hash hInv.pos with
    hEq | hEq | ⟨victim, hLt, session, hCell, hEq⟩
  · rw [hEq]
  · rw [hEq]
    exact Nat.le_refl _
  · rw [hEq]
    exact Nat.le_of_lt
      (tableDeleteAt_used hash
        (scanned_inv hash hInv).placed hLt hCell)

/- An eviction only removes. -/
theorem evictOldest_thinned
    (hInv : table.Inv hash) :
    Thinned hash table (table.evictOldest hash) :=
  ⟨evictOldest_inv hash hInv, evictOldest_frame hash hInv,
    fun _ h => evictOldest_holds hash hInv h,
    evictOldest_used_le hInv⟩

/- Making room only removes. -/
theorem makeRoom_thinned
    (args : PutArgs)
    (hInv : table.Inv hash) :
    Thinned hash table (table.makeRoom hash args) := by
  have hOnce := evictOldest_thinned hInv
  unfold makeRoom
  cases hProbe : table.probe hash args.key with
  | vacant i =>
      simp only
      split
      · exact hOnce.trans (evictOldest_thinned hOnce.inv)
      · exact Thinned.refl hInv
  | hit i => exact Thinned.refl hInv
  | exhausted => exact hOnce

/- An eviction from a full table frees a slot. -/
theorem evictOldest_full
    (hInv : table.Inv hash)
    (hFull : ∀ q < table.capacity, table.sessions q ≠ none) :
    used table.capacity (table.evictOldest hash).sessions <
      table.capacity := by
  have hPos := hInv.pos
  have hScans : 0 < table.evictScans := by
    unfold evictScans evictScanBudget
    split <;> omega
  have hVictim : table.evictVictim ≠ none :=
    oldest_ne_none hScans (hFull _ (Nat.mod_lt _ hPos))
  rcases Option.ne_none_iff_exists'.mp hVictim with
    ⟨victim, hSome⟩
  rcases oldest_used hPos hSome with ⟨hLt, session, hCell⟩
  have hUsed := @used_vacate _ _ _ table.sessions _ hLt hCell
  have hCount := hInv.count
  have hBusy : ¬ table.count = 0 := by omega
  have hEq :
      table.evictOldest hash =
        table.scanned.tableDeleteAt hash victim := by
    unfold evictOldest evictOldestWith
    rw [if_neg hBusy, hSome]
    rfl
  rw [hEq]
  have hLess :=
    tableDeleteAt_used hash
      (scanned_inv hash hInv).placed hLt hCell
  have hLe := used_le table.capacity table.sessions
  exact Nat.lt_of_lt_of_le hLess hLe

/- After making room the walk of the key does not fail. -/
theorem makeRoom_probe
    (args : PutArgs)
    (hInv : table.Inv hash) :
    (table.makeRoom hash args).probe hash args.key ≠
      .exhausted := by
  intro hProbe
  have hThin := makeRoom_thinned args hInv
  have hHome :=
    @hash_lt hash (table.makeRoom hash args) args.key
      hThin.inv.pos
  have hAll := walk_exhausted hHome hProbe
  have hLess :
      used table.capacity
          (table.makeRoom hash args).sessions <
        table.capacity := by
    unfold makeRoom at hProbe hThin ⊢
    cases hFirst : table.probe hash args.key with
    | vacant i =>
        have hHome' := hash_lt hash args.key hInv.pos
        rcases walk_vacant hHome' hFirst with ⟨hi, hNone, _⟩
        have hOld := used_lt_of_vacant hi hNone
        rw [hFirst] at hThin
        exact Nat.lt_of_le_of_lt hThin.used_le hOld
    | hit i =>
        rw [hFirst] at hProbe
        simp only at hProbe
        rw [hFirst] at hProbe
        cases hProbe
    | exhausted =>
        have hHome' := hash_lt hash args.key hInv.pos
        apply evictOldest_full hInv
        intro q hq hNone
        rcases walk_exhausted hHome' hFirst q hq with
          ⟨e, hCell, _⟩
        rw [hNone] at hCell
        cases hCell
  rcases exists_vacant hLess with ⟨v, hv, hNone⟩
  rw [← hThin.frame.capacity] at hv
  rcases hAll v hv with ⟨e, hCell, _⟩
  rw [hNone] at hCell
  cases hCell

variable {hash : Bytes → Nat}

/-
  The outcome of an accepted put: one entry of the key, with
  the backend that the reference names after the evictions,
  in a slot of the room.
-/
structure Wrote
    (hash : Bytes → Nat)
    (room : SessionTable)
    (args : PutArgs)
    (after : SessionTable)
    (slot : Nat)
    (entry : Session) : Prop where
  slot_lt : slot < room.capacity
  sessions :
    after.sessions = fill room.sessions slot entry
  frame : SameFrame room after
  scan : after.evictCursor = room.evictCursor
  inv : after.Inv hash
  key : entry.key.equals args.key = true
  backend : entry.backend = room.backendOf args
  lastSeen : entry.lastSeen = args.now
  others :
    ∀ q < room.capacity, ∀ s, room.sessions q = some s →
      q ≠ slot → s.key.equals args.key = false
  old :
    room.sessions slot = none ∨
      room.get hash args.key = some slot
  written :
    entry = room.newEntry args ∨
      ∃ session, room.sessions slot = some session ∧
        entry = refresh session (room.backendOf args) args

/- With room there is an entry to write. -/
theorem putRetry_wrote
    (hInv : room.Inv hash)
    (hValid : args.key.valid = true)
    (hProbe : room.probe hash args.key ≠ .exhausted) :
    ∃ after slot entry,
      putRetry hash room args = (.ok, after) ∧
        Wrote hash room args after slot entry := by
  have hHome := hash_lt hash args.key hInv.pos
  cases hWalk : room.probe hash args.key with
  | exhausted => exact absurd hWalk hProbe
  | vacant i =>
      rcases walk_vacant hHome hWalk with ⟨hi, hNone, _⟩
      refine ⟨room.insertAt args i, i, room.newEntry args,
        by simp [putRetry, hWalk], ?_⟩
      exact
        { slot_lt := hi
          sessions := rfl
          frame := ⟨rfl, rfl⟩
          scan := rfl
          inv := insertAt_inv hash hInv hValid hWalk
          key := SessionKey.equals_refl _
          backend := rfl
          lastSeen := rfl
          others := by
            intro q hq s hCell _
            by_contra hEquals
            have hSame :
                s.key.equals args.key = true := by
              simpa using hEquals
            have hMiss :=
              not_hit_of_walk_vacant hHome hInv.chain hWalk
                hq hCell
                (SessionKey.hash_eq hash _ hSame)
            rw [hMiss] at hSame
            cases hSame
          old := Or.inl hNone
          written := Or.inl rfl }
  | hit i =>
      rcases walk_hit hHome hWalk with
        ⟨hi, ⟨session, hCell, hHit⟩, _⟩
      refine ⟨room.updateAt args i, i,
        refresh session (room.backendOf args) args,
        by simp [putRetry, hWalk], ?_⟩
      rw [updateAt_sessions hCell]
      exact
        { slot_lt := hi
          sessions := rfl
          frame := ⟨rfl, rfl⟩
          scan := rfl
          inv := replace_inv hash hInv hCell rfl
          key := hHit
          backend := rfl
          lastSeen := rfl
          others := by
            intro q hq s hOther hNe
            by_contra hEquals
            have hSame :
                s.key.equals args.key = true := by
              simpa using hEquals
            exact hNe
              (hInv.distinct q hq i hi s session hOther hCell
                (SessionKey.equals_trans hSame
                  (SessionKey.equals_symm hHit)))
          old :=
            Or.inr ((get_eq_some hInv hValid).mpr
              ⟨hi, session, hCell, hHit⟩)
          written := Or.inr ⟨session, hCell, rfl⟩ }

/- An accepted put succeeds; the table is never full. -/
theorem putInternal_ok
    (hInv : table.Inv hash)
    (hAccepts : table.Accepts args) :
    ∃ after slot entry,
      putInternal hash 2 table args = (.ok, after) ∧
        Wrote hash (table.makeRoom hash args) args after
          slot entry := by
  rw [putInternal_accepted hash hAccepts]
  exact putRetry_wrote (makeRoom_thinned args hInv).inv
    hAccepts.2.1 (makeRoom_probe args hInv)

/- The written entry is found, with its backend. -/
theorem Wrote.get
    (hWrote : Wrote hash room args after slot entry)
    (hValid : args.key.valid = true) :
    after.get hash args.key = some slot ∧
      after.backendAt slot = room.backendOf args := by
  have hCell : after.sessions slot = some entry := by
    rw [hWrote.sessions, fill_self]
  constructor
  · apply (get_eq_some hWrote.inv hValid).mpr
    rw [hWrote.frame.capacity]
    exact ⟨hWrote.slot_lt, entry, hCell, hWrote.key⟩
  · unfold backendAt
    rw [hCell]
    exact hWrote.backend

/- A put with an owner leaves that owner. -/
theorem Wrote.owner
    (hWrote : Wrote hash room args after slot entry)
    (hOwned : args.ownerFlowId ≠ 0) :
    entry.ownerSlot = args.ownerSlot ∧
      entry.ownerFlowId = args.ownerFlowId := by
  rcases hWrote.written with hNew | ⟨session, _, hRefresh⟩
  · rw [hNew]
    exact ⟨rfl, rfl⟩
  · rw [hRefresh]
    simp only [refresh, if_pos hOwned, and_self]

/-
  A put through a reference equals the put of a copy, if the
  reference reads the same before and after the evictions.
-/
theorem putInternal_copied
    {storage : SockaddrStorage}
    (hBefore : table.deref args.backendAddr = storage)
    (hRoom :
      (table.roomFor hash
        { args with
          backendAddr := .addr storage }).deref
          args.backendAddr = storage) :
    putInternal hash 2 table args =
      putInternal hash 2 table
        { args with backendAddr := .addr storage } := by
  have hSame :
      table.Accepts
          { args with backendAddr := .addr storage } ↔
        table.Accepts args := by
    unfold Accepts backendOf
    rw [hBefore]
    rfl
  by_cases hAccepts : table.Accepts args
  · rw [putInternal_accepted hash hAccepts,
      putInternal_accepted hash (hSame.mpr hAccepts)]
    rw [roomFor, if_pos (hSame.mpr hAccepts)] at hRoom
    have hMake :
        table.makeRoom hash
            { args with backendAddr := .addr storage } =
          table.makeRoom hash args := rfl
    rw [hMake] at hRoom ⊢
    have hBackend :
        (table.makeRoom hash args).backendOf args =
          (table.makeRoom hash args).backendOf
            { args with backendAddr := .addr storage } := by
      unfold backendOf
      rw [hRoom]
      rfl
    unfold putRetry insertAt updateAt
    rw [hBackend]
    rfl
  · rw [putInternal_refused hash hAccepts,
      putInternal_refused hash
        (fun h => hAccepts (hSame.mp h))]

/- Slots that a put does not write keep their backend. -/
theorem Wrote.backendAt_of_ne
    (hWrote : Wrote hash room args after slot entry)
    (hNe : i ≠ slot) :
    after.backendAt i = room.backendAt i := by
  unfold backendAt
  rw [hWrote.sessions, fill_of_ne _ _ hNe]

/- An unused slot reads as zeros, which no put takes. -/
theorem used_of_storage
    {table : SessionTable}
    {i : Nat}
    {backend : Sockaddr}
    (hValid : backend.valid = true)
    (hSame : (table.backendAt i).storage = backend.storage) :
    table.sessions i ≠ none := by
  intro hNone
  unfold backendAt at hSame
  rw [hNone] at hSame
  unfold Sockaddr.valid at hValid
  rw [← hSame] at hValid
  simp [Sockaddr.zero, SockaddrStorage.ssFamily,
    SockaddrStorage.zero, byteAt] at hValid

/-
  The entries after an accepted put: the written one, and
  old entries of other keys.
-/
theorem Wrote.holds
    (hThin : Thinned hash table room)
    (hWrote : Wrote hash room args after slot entry)
    (hHolds : Holds table.capacity after.sessions s) :
    s = entry ∨
      (Holds table.capacity table.sessions s ∧
        s.key.equals args.key = false) := by
  rcases hHolds with ⟨p, hp, hCell⟩
  rw [hWrote.sessions] at hCell
  rcases fill_eq_some hCell with ⟨_, hEq⟩ | ⟨hNe, hOld⟩
  · exact Or.inl hEq
  · right
    have hRoom : p < room.capacity := by
      rw [hThin.frame.capacity]
      exact hp
    exact ⟨hThin.holds s ⟨p, hp, hOld⟩,
      hWrote.others p hRoom s hOld hNe⟩

/- Two entries that differ in their time stamp only. -/
structure Renewed
    (old new : Session) : Prop where
  key : new.key = old.key
  backend : new.backend = old.backend
  ownerSlot : new.ownerSlot = old.ownerSlot
  ownerFlowId : new.ownerFlowId = old.ownerFlowId

theorem Renewed.refl
    (session : Session) :
    Renewed session session :=
  ⟨rfl, rfl, rfl, rfl⟩

theorem Renewed.trans
    {a b c : Session}
    (hab : Renewed a b)
    (hbc : Renewed b c) :
    Renewed a c :=
  ⟨hbc.key.trans hab.key, hbc.backend.trans hab.backend,
    hbc.ownerSlot.trans hab.ownerSlot,
    hbc.ownerFlowId.trans hab.ownerFlowId⟩

/-
  Every entry of the later table is one of the earlier, up
  to its time stamp.
-/
structure Inherits
    (before after : SessionTable) : Prop where
  capacity : after.capacity = before.capacity
  entries :
    ∀ s', Holds after.capacity after.sessions s' →
      ∃ s, Holds before.capacity before.sessions s ∧
        Renewed s s'

theorem Inherits.refl
    (table : SessionTable) :
    Inherits table table :=
  ⟨rfl, fun s h => ⟨s, h, Renewed.refl s⟩⟩

theorem Inherits.trans
    (hab : Inherits a b)
    (hbc : Inherits b c) :
    Inherits a c := by
  refine ⟨hbc.capacity.trans hab.capacity, ?_⟩
  intro s'' hHolds
  rcases hbc.entries s'' hHolds with ⟨s', hHolds', hRenewed'⟩
  rcases hab.entries s' hHolds' with ⟨s, hHolds'', hRenewed⟩
  exact ⟨s, hHolds'', hRenewed.trans hRenewed'⟩

/- Removing entries is inheriting the others. -/
theorem Thinned.inherits
    (hThin : Thinned hash before after) :
    Inherits before after := by
  refine ⟨hThin.frame.capacity, ?_⟩
  intro s hHolds
  rw [hThin.frame.capacity] at hHolds
  exact ⟨s, hThin.holds s hHolds, Renewed.refl s⟩

/- A deletion only removes. -/
theorem tableDeleteAt_thinned
    (hInv : table.Inv hash)
    (hi : i < table.capacity)
    (hCell : table.sessions i = some session) :
    Thinned hash table (table.tableDeleteAt hash i) := by
  rcases tableDeleteAt_spec hash hInv.placed hi hCell with
    ⟨hFrame, _, _⟩
  refine ⟨tableDeleteAt_inv hash hInv hi hCell, hFrame, ?_,
    Nat.le_of_lt
      (tableDeleteAt_used hash hInv.placed hi hCell)⟩
  intro s hHolds
  rcases tableDeleteAt_holds hash hInv.placed hi hCell
      hHolds with
    ⟨q, hq, hOld⟩
  exact ⟨q, hq, (vacate_eq_some hOld).2⟩

/- A touch renews an entry. -/
theorem touch_inherits
    (table : SessionTable)
    (i : Nat)
    (now : Int) :
    Inherits table (table.touch i now) := by
  unfold touch
  cases hCell : table.sessions i with
  | none => exact Inherits.refl table
  | some session =>
      refine ⟨rfl, ?_⟩
      rintro s ⟨p, hp, hSome⟩
      rcases fill_eq_some hSome with ⟨hpi, hEq⟩ | ⟨_, hOld⟩
      · subst hpi
        subst hEq
        exact ⟨session, ⟨p, hp, hCell⟩, rfl, rfl, rfl, rfl⟩
      · exact ⟨s, ⟨p, hp, hOld⟩, Renewed.refl s⟩

theorem touch_sessions
    (now : Int)
    (hCell : table.sessions i = some session) :
    (table.touch i now).sessions =
      fill table.sessions i
        { session with lastSeen := now } := by
  unfold touch
  rw [hCell]

theorem touch_backendAt
    (table : SessionTable)
    (i j : Nat)
    (now : Int) :
    (table.touch i now).backendAt j = table.backendAt j := by
  unfold touch
  cases hCell : table.sessions i with
  | none => rfl
  | some session =>
      unfold backendAt
      by_cases hji : j = i
      · subst hji
        simp [hCell]
      · simp [fill_of_ne _ _ hji]

/- A sweep only removes. -/
theorem deleteWhere_thinned
    (pred : Session → Bool)
    (fuel : Nat)
    (i : Nat)
    (hInv : table.Inv hash) :
    Thinned hash table
      (deleteWhere hash pred fuel table i).2 := by
  induction fuel generalizing table i with
  | zero => exact Thinned.refl hInv
  | succ fuel ih =>
      unfold deleteWhere
      by_cases hi : i < table.capacity
      · simp only [hi, if_true]
        cases hCell : table.sessions i with
        | none => exact ih (i + 1) hInv
        | some session =>
            by_cases hPred : pred session = true
            · simp only [hPred, if_true]
              have hThin :=
                tableDeleteAt_thinned hInv hi hCell
              exact hThin.trans (ih i hThin.inv)
            · simp only [hPred]
              exact ih (i + 1) hInv
      · simp only [hi, if_false]
        exact Thinned.refl hInv

theorem advanceCursor_inherits
    (table : SessionTable) :
    Inherits table table.advanceCursor := by
  unfold advanceCursor
  dsimp only
  split
  · exact ⟨rfl, fun s h => ⟨s, h, Renewed.refl s⟩⟩
  · exact ⟨rfl, fun s h => ⟨s, h, Renewed.refl s⟩⟩

variable (now idleTimeoutSeconds : Int)
variable (keep : Session → Bool)

/- A scanned slot is renewed, deleted or kept. -/
theorem expireStep_inherits
    (hInv : table.Inv hash) :
    Inherits table
      (expireStep hash now idleTimeoutSeconds keep
        table).2 := by
  unfold expireStep
  cases hCell : table.sessions table.expireCursor with
  | none => exact advanceCursor_inherits table
  | some session =>
      dsimp only
      split
      · split
        · exact (touch_inherits table _ now).trans
            (advanceCursor_inherits _)
        · exact (tableDeleteAt_thinned hInv hInv.cursor
            hCell).inherits
      · exact advanceCursor_inherits table

/- A loop does that slot by slot. -/
theorem expireLoop_inherits
    (scans : Nat)
    (hInv : table.Inv hash) :
    Inherits table
      (expireLoop hash now idleTimeoutSeconds keep scans
        table).2 := by
  induction scans generalizing table with
  | zero => exact Inherits.refl table
  | succ scans ih =>
      have hFirst :=
        expireStep_inherits now idleTimeoutSeconds keep hInv
      have hInv' :=
        expireStep_inv hash now idleTimeoutSeconds keep hInv
      exact hFirst.trans (ih hInv')

/- An incremental sweep runs the loop. -/
theorem expireIncremental_inherits
    (scanBudget : Nat)
    (keep : Session → Bool)
    (hInv : table.Inv hash) :
    Inherits table
      (table.expireIncremental hash now idleTimeoutSeconds
        scanBudget keep).2 :=
  expireLoop_inherits now idleTimeoutSeconds keep _ hInv

/- What an operation puts, if it is a put. -/
def Op.putArgs :
    Op → Option PutArgs
| .put key backendAddr backendAddrLen now =>
    some
      { key, backendAddr, backendAddrLen, now
        allowPressureEvict := true
        ownerSlot := 0
        ownerFlowId := 0 }
| .putOwned key backendAddr backendAddrLen now ownerSlot
    ownerFlowId =>
    some
      { key, backendAddr, backendAddrLen, now
        allowPressureEvict := true
        ownerSlot, ownerFlowId }
| _ => none

/- The operations that put. -/
theorem apply_put
    (hash : Bytes → Nat)
    (table : SessionTable)
    (hArgs : op.putArgs = some args) :
    args.allowPressureEvict = true ∧
      table.apply hash op =
        (putInternal hash 2 table args).2 := by
  cases op with
  | put key backendAddr backendAddrLen now =>
      cases hArgs
      exact ⟨rfl, rfl⟩
  | putOwned key backendAddr backendAddrLen now ownerSlot
      ownerFlowId =>
      cases hArgs
      exact ⟨rfl, rfl⟩
  | expire now idleTimeoutSeconds => cases hArgs
  | expireIncremental now idleTimeoutSeconds scanBudget
      keep => cases hArgs
  | evictIf pred => cases hArgs

/- The other operations bring no new entries. -/
theorem apply_inherits
    (hArgs : op.putArgs = none)
    (hInv : table.Inv hash) :
    Inherits table (table.apply hash op) := by
  cases op with
  | put key backendAddr backendAddrLen now => cases hArgs
  | putOwned key backendAddr backendAddrLen now ownerSlot
      ownerFlowId => cases hArgs
  | expire now idleTimeoutSeconds =>
      have hSwept :=
        (deleteWhere_thinned (idle now idleTimeoutSeconds)
          table.sweepFuel 0 hInv).inherits
      unfold apply expire
      dsimp only
      split
      · exact ⟨hSwept.capacity, hSwept.entries⟩
      · exact hSwept
  | expireIncremental now idleTimeoutSeconds scanBudget
      keep =>
      exact expireIncremental_inherits now
        idleTimeoutSeconds scanBudget keep hInv
  | evictIf pred =>
      exact (deleteWhere_thinned pred table.sweepFuel 0
        hInv).inherits

------------------------------------------------------------
-- What A Sweep Keeps
------------------------------------------------------------

/- Only valid keys are found. -/
theorem valid_of_get
    (hGet : table.get hash key = some i) :
    key.valid = true := by
  by_contra hNot
  simp [get, hNot] at hGet

/- A lookup that succeeds is a walk that hits. -/
theorem probe_of_get
    (hGet : table.get hash key = some i) :
    table.probe hash key = .hit i := by
  unfold get at hGet
  split at hGet
  · cases hGet
  · cases hProbe : table.probe hash key with
    | hit j =>
        rw [hProbe] at hGet
        cases hGet
        rfl
    | vacant j =>
        rw [hProbe] at hGet
        cases hGet
    | exhausted =>
        rw [hProbe] at hGet
        cases hGet

/- The put of a stored key evicts nothing. -/
theorem makeRoom_of_get
    {table : SessionTable}
    {args : PutArgs}
    {i : Nat}
    (hGet : table.get hash args.key = some i) :
    table.makeRoom hash args = table := by
  unfold makeRoom
  rw [probe_of_get hGet]

/- A key that is found is written in place. -/
theorem putInternal_of_get
    (hAccepts : table.Accepts args)
    (hGet : table.get hash args.key = some i) :
    putInternal hash 2 table args =
      (.ok, table.updateAt args i) := by
  rw [putInternal_accepted hash hAccepts,
    makeRoom_of_get hGet]
  unfold putRetry
  rw [probe_of_get hGet]

theorem Renewed.storable
    {old new : Session}
    (hRenewed : Renewed old new)
    (hStorable : old.Storable) :
    new.Storable := by
  unfold Session.Storable
  rw [hRenewed.key, hRenewed.backend]
  exact hStorable

/- The table has the entry, up to its time stamp. -/
def Keeps
    (table : SessionTable)
    (session : Session) : Prop :=
  ∃ s, Holds table.capacity table.sessions s ∧
    Renewed session s

/- A deletion loses no other entry that can be put again. -/
theorem tableDeleteAt_keeps
    (hInv : table.Inv hash)
    (hi : i < table.capacity)
    (hCell : table.sessions i = some session)
    (hStorable : s.Storable)
    (hNe : s ≠ session)
    (hHolds : Holds table.capacity table.sessions s) :
    Holds table.capacity
      (table.tableDeleteAt hash i).sessions s := by
  rcases tableDeleteAt_spec hash hInv.placed hi hCell with
    ⟨_, _, hGap⟩
  rcases hHolds with ⟨p, hp, hSome⟩
  have hpi : p ≠ i := by
    intro hEq
    subst hEq
    rw [hSome] at hCell
    cases hCell
    exact hNe rfl
  apply hGap.holds_keep (next_lt hInv.pos i) hStorable
  exact ⟨p, hp, by rw [vacate_of_ne _ hpi, hSome]⟩

/- A refreshed entry is found where it was. -/
theorem touch_get
    {p : Nat}
    (i : Nat)
    (now : Int)
    (hInv : table.Inv hash)
    (hGet : table.get hash key = some p) :
    (table.touch i now).get hash key = some p := by
  cases hCell : table.sessions i with
  | none =>
      have hSame : table.touch i now = table := by
        unfold touch
        rw [hCell]
      rw [hSame]
      exact hGet
  | some session =>
      have hTouched := touch_sessions now hCell
      rcases (get_eq_some hInv (valid_of_get hGet)).mp
          hGet with
        ⟨hp, s, hSome, hKey⟩
      apply (get_eq_some (touch_inv hash i now hInv)
        (valid_of_get hGet)).mpr
      rw [(touch_inherits table i now).capacity, hTouched]
      refine ⟨hp, ?_⟩
      by_cases hpi : p = i
      · subst hpi
        rw [hSome] at hCell
        cases hCell
        exact ⟨_, fill_self _ _ _, hKey⟩
      · exact ⟨s, by rw [fill_of_ne _ _ hpi, hSome], hKey⟩

theorem touch_keeps
    (i : Nat)
    (now : Int)
    (hHolds : Holds table.capacity table.sessions s) :
    (table.touch i now).Keeps s := by
  unfold touch
  rcases hHolds with ⟨p, hp, hSome⟩
  cases hCell : table.sessions i with
  | none => exact ⟨s, ⟨p, hp, hSome⟩, Renewed.refl s⟩
  | some session =>
      by_cases hpi : p = i
      · subst hpi
        rw [hSome] at hCell
        cases hCell
        exact ⟨_, ⟨p, hp, fill_self _ _ _⟩, rfl, rfl, rfl,
          rfl⟩
      · exact ⟨s, ⟨p, hp, by
          dsimp only
          rw [fill_of_ne _ _ hpi, hSome]⟩, Renewed.refl s⟩

theorem advanceCursor_keeps
    (hKeeps : table.Keeps s) :
    table.advanceCursor.Keeps s := by
  unfold advanceCursor
  dsimp only
  split
  · exact hKeeps
  · exact hKeeps

/- A scanned slot is only deleted where `keep` says no. -/
theorem expireStep_keeps
    (hInv : table.Inv hash)
    (hStorable : s.Storable)
    (hKeep : keep s = true)
    (hHolds : Holds table.capacity table.sessions s) :
    (expireStep hash now idleTimeoutSeconds keep
      table).2.Keeps s := by
  unfold expireStep
  cases hCell : table.sessions table.expireCursor with
  | none =>
      exact advanceCursor_keeps ⟨s, hHolds, Renewed.refl s⟩
  | some session =>
      dsimp only
      split
      · split
        · exact advanceCursor_keeps
            (touch_keeps table.expireCursor now hHolds)
        · rename_i hDelete
          have hNe : s ≠ session := by
            intro hEq
            rw [hEq] at hKeep
            exact hDelete hKeep
          have hThin :=
            tableDeleteAt_thinned hInv hInv.cursor hCell
          refine ⟨s, ?_, Renewed.refl s⟩
          dsimp only
          rw [hThin.frame.capacity]
          exact tableDeleteAt_keeps hInv hInv.cursor hCell
            hStorable hNe hHolds
      · exact advanceCursor_keeps
          ⟨s, hHolds, Renewed.refl s⟩

/- The loop keeps an entry that its filter keeps. -/
theorem expireLoop_keeps
    (scans : Nat)
    (hInv : table.Inv hash)
    (hStorable : s.Storable)
    (hKeep : ∀ new, Renewed s new → keep new = true)
    (hHolds : Holds table.capacity table.sessions s) :
    (expireLoop hash now idleTimeoutSeconds keep scans
      table).2.Keeps s := by
  induction scans generalizing table s with
  | zero => exact ⟨s, hHolds, Renewed.refl s⟩
  | succ scans ih =>
      rcases expireStep_keeps now idleTimeoutSeconds keep
          hInv hStorable (hKeep s (Renewed.refl s))
          hHolds with
        ⟨first, hFirst, hRenewed⟩
      rcases ih
          (expireStep_inv hash now idleTimeoutSeconds keep
            hInv)
          (hRenewed.storable hStorable)
          (fun new hNew => hKeep new (hRenewed.trans hNew))
          hFirst with
        ⟨last, hLast, hRenewed'⟩
      exact ⟨last, hLast, hRenewed.trans hRenewed'⟩

/- What the callback keeps survives the sweep. -/
theorem expireIncremental_keeps
    (scanBudget : Nat)
    (keep : Session → Bool)
    (hInv : table.Inv hash)
    (hStorable : s.Storable)
    (hKeep : ∀ new, Renewed s new → keep new = true)
    (hHolds : Holds table.capacity table.sessions s) :
    (table.expireIncremental hash now idleTimeoutSeconds
      scanBudget keep).2.Keeps s :=
  expireLoop_keeps now idleTimeoutSeconds keep _ hInv
    hStorable hKeep hHolds

variable {P : Sockaddr → Prop}

/- Every entry has the property. -/
def Entries
    (Q : Session → Prop)
    (table : SessionTable) : Prop :=
  ∀ s, Holds table.capacity table.sessions s → Q s

/- Inherited entries have what renewal keeps. -/
theorem Inherits.every
    (hInherits : Inherits before after)
    (hRenew : ∀ old new, Renewed old new → Q old → Q new)
    (hAll : before.Entries Q) :
    after.Entries Q := by
  intro s hHolds
  rcases hInherits.entries s hHolds with ⟨old, hOld, hRenewed⟩
  exact hRenew old s hRenewed (hAll old hOld)

/- A put writes a new entry or refreshes an old one. -/
theorem putInternal_entries
    (args : PutArgs)
    (hInv : table.Inv hash)
    (hNew :
      table.Accepts args →
        Q ((table.makeRoom hash args).newEntry args))
    (hUpdate :
      ∀ old, table.Accepts args → Q old →
        old.key.equals args.key = true →
          Q (refresh old
            ((table.makeRoom hash args).backendOf args)
            args))
    (hAll : table.Entries Q) :
    (putInternal hash 2 table args).2.Entries Q := by
  by_cases hAccepts : table.Accepts args
  · rcases putInternal_ok hInv hAccepts with
      ⟨after, slot, entry, hPut, hWrote⟩
    have hThin := makeRoom_thinned args hInv
    have hCapacity :=
      hWrote.frame.capacity.trans hThin.frame.capacity
    rw [hPut]
    intro s hHolds
    rw [hCapacity] at hHolds
    rcases hWrote.holds hThin hHolds with
      hEq | ⟨hOld, _⟩
    · rw [hEq]
      have hKey := hWrote.key
      rcases hWrote.written with
        hFresh | ⟨session, hCell, hRefresh⟩
      · rw [hFresh]
        exact hNew hAccepts
      · rw [hRefresh] at hKey ⊢
        have hSlot : slot < table.capacity := by
          rw [← hThin.frame.capacity]
          exact hWrote.slot_lt
        exact hUpdate session hAccepts
          (hAll session
            (hThin.holds session ⟨slot, hSlot, hCell⟩))
          hKey
    · exact hAll s hOld
  · rw [putInternal_refused hash hAccepts]
    exact hAll

/- The entry of a key, if there is one, has the property. -/
def EntryOf
    (key : SessionKey)
    (R : Session → Prop)
    (table : SessionTable) : Prop :=
  table.Entries (fun s => s.key.equals key = true → R s)

/- A put under another key leaves the entry alone. -/
theorem EntryOf.putInternal
    (args : PutArgs)
    (hEntry : table.EntryOf key R)
    (hInv : table.Inv hash)
    (hMiss : args.key.equals key = false) :
    (putInternal hash 2 table args).2.EntryOf key R := by
  refine putInternal_entries args hInv ?_ ?_ hEntry
  · intro _ hEquals
    rw [newEntry, hMiss] at hEquals
    cases hEquals
  · intro old _ _ hKey hEquals
    have hBoth :=
      SessionKey.equals_trans (SessionKey.equals_symm hKey)
        hEquals
    rw [hMiss] at hBoth
    cases hBoth

/- A put under the key leaves what it has written. -/
theorem Wrote.entryOf
    (hWrote : Wrote hash room args after slot entry)
    (hThin : Thinned hash table room)
    (hSame : args.key.equals key = true)
    (hEntry : R entry) :
    after.EntryOf key R := by
  intro s hHolds hEquals
  rw [hWrote.frame.capacity, hThin.frame.capacity]
    at hHolds
  rcases hWrote.holds hThin hHolds with hEq | ⟨_, hMiss⟩
  · rw [hEq]
    exact hEntry
  · have hBoth :=
      SessionKey.equals_trans hEquals
        (SessionKey.equals_symm hSame)
    rw [hMiss] at hBoth
    cases hBoth

/- Every entry's backend has the property. -/
def Backends
    (P : Sockaddr → Prop)
    (table : SessionTable) : Prop :=
  ∀ s, Holds table.capacity table.sessions s → P s.backend

/- Inherited entries have the same backends. -/
theorem Inherits.backends
    (hInherits : Inherits before after)
    (hAll : before.Backends P) :
    after.Backends P := by
  refine hInherits.every ?_ hAll
  intro old new hRenewed hOld
  rw [hRenewed.backend]
  exact hOld

/- Only the backend that is written needs to be looked at. -/
theorem putInternal_backends
    (args : PutArgs)
    (hInv : table.Inv hash)
    (hNew :
      table.Accepts args →
        P ((table.makeRoom hash args).backendOf args))
    (hAll : table.Backends P) :
    (putInternal hash 2 table args).2.Backends P :=
  putInternal_entries args hInv hNew
    (fun _ hAccepts _ _ => hNew hAccepts) hAll

/- Every entry's key has the property. -/
def Keys
    (Q : SessionKey → Prop)
    (table : SessionTable) : Prop :=
  ∀ s, Holds table.capacity table.sessions s → Q s.key

/- Only the key that is put needs to be looked at. -/
theorem putInternal_keys
    {Q : SessionKey → Prop}
    (args : PutArgs)
    (hInv : table.Inv hash)
    (hNew : ∀ key, key.equals args.key = true → Q key)
    (hAll : table.Keys Q) :
    (putInternal hash 2 table args).2.Keys Q :=
  putInternal_entries args hInv
    (fun _ => hNew args.key (SessionKey.equals_refl _))
    (fun old _ _ hEquals => hNew old.key hEquals) hAll

/- A slot that a lookup gives holds an entry of the key. -/
theorem get_used
    (hInv : table.Inv hash)
    (hGet : table.get hash key = some i) :
    i < table.capacity ∧
      ∃ s, table.sessions i = some s ∧
        s.key.equals key = true :=
  (get_eq_some hInv (valid_of_get hGet)).mp hGet

/- What is found has such a backend. -/
theorem Backends.get
    (hAll : table.Backends P)
    (hInv : table.Inv hash)
    (hGet : table.get hash key = some i) :
    P (table.backendAt i) := by
  rcases get_used hInv hGet with ⟨hi, s, hCell, _⟩
  unfold backendAt
  rw [hCell]
  exact hAll s ⟨i, hi, hCell⟩

end SessionTable

namespace Sockaddr

variable {addr : Sockaddr}

theorem length_bytes
    (hLen : addr.len ≤ 128) :
    addr.bytes.length = addr.len := by
  have hSize := addr.storage.size
  unfold bytes
  rw [List.length_take]
  omega

/- Copying the bytes of an address into a zeroed storage. -/
theorem bytes_ofBytes
    (hLen : addr.len ≤ 128) :
    ({ storage := SockaddrStorage.ofBytes addr.bytes
       len := addr.len } : Sockaddr).bytes = addr.bytes := by
  have hBytes := length_bytes hLen
  have hTake :
      (addr.bytes ++ List.replicate 128 0).take addr.len =
        addr.bytes := by
    rw [← hBytes]
    exact List.take_left
  unfold SockaddrStorage.ofBytes
  rw [bytes]
  dsimp only
  rw [List.take_take, Nat.min_eq_left hLen, hTake]

theorem byteAt_ofBytes
    (i : Nat)
    (hi : i < 128) :
    byteAt (SockaddrStorage.ofBytes addr.bytes).bytes i =
      if i < addr.len then byteAt addr.storage.bytes i
      else 0 := by
  have hSize := addr.storage.size
  unfold byteAt SockaddrStorage.ofBytes bytes
  simp only [List.getD_eq_getElem?_getD]
  rw [List.getElem?_take_of_lt hi]
  by_cases hLt : i < addr.len
  · rw [if_pos hLt, List.getElem?_append_left
      (by rw [List.length_take]; omega),
      List.getElem?_take_of_lt hLt]
  · rw [if_neg hLt, List.getElem?_append_right
      (by rw [List.length_take]; omega)]
    rw [List.getElem?_replicate]
    split
    · rfl
    · rfl

/- The copy of a valid address is valid. -/
theorem valid_ofBytes
    (hValid : addr.valid = true) :
    ({ storage := SockaddrStorage.ofBytes addr.bytes
       len := addr.len } : Sockaddr).valid = true := by
  simp only [valid, SockaddrStorage.ssFamily,
    Bool.and_eq_true, Bool.or_eq_true, bne_iff_ne,
    decide_eq_true_eq, beq_iff_eq] at hValid ⊢
  rw [byteAt_ofBytes 0 (by decide),
    byteAt_ofBytes 1 (by decide)]
  have hFirst := (byteAt addr.storage.bytes 0).toNat_lt
  refine ⟨hValid.1, ?_⟩
  rw [if_pos (by omega)]
  split
  · exact hValid.2
  · simp only [afInet, afInet6, UInt8.toNat_zero]
      at hValid ⊢
    omega

end Sockaddr

namespace SessionKey

variable {a b addr : Sockaddr} {dcid scid cid : Bytes}

/- Equal addresses have one key. -/
theorem tupleKey_congr
    (hEquals : a.equals b = true) :
    tupleKey a = tupleKey b := by
  rcases Sockaddr.equals_iff.mp hEquals with ⟨hLen, hBytes⟩
  unfold tupleKey
  rw [hLen, hBytes]

/- A tuple key is without ids. -/
@[simp] theorem tupleKey_hasCids
    (addr : Sockaddr) :
    (tupleKey addr).hasCids = false := by
  unfold tupleKey
  split
  · rfl
  · rfl

theorem len_of_hasTuple
    (hTuple : (tupleKey addr).hasTuple = true) :
    addr.len ≤ 128 := by
  unfold tupleKey at hTuple
  by_contra hLen
  rw [if_neg hLen] at hTuple
  cases hTuple

theorem tupleKey_client
    (hLen : addr.len ≤ 128) :
    (tupleKey addr).client =
      { storage := SockaddrStorage.ofBytes addr.bytes
        len := addr.len } := by
  unfold tupleKey
  rw [if_pos hLen]

/- Tuple keys tell client addresses apart. -/
theorem equals_of_tupleKey
    (hEquals : (tupleKey a).equals (tupleKey b) = true)
    (hTuple : (tupleKey a).hasTuple = true) :
    a.equals b = true := by
  rw [equals_iff] at hEquals
  rcases hEquals with ⟨hSame, _, hLen, _, _, hBytes, _⟩
  have hA := len_of_hasTuple hTuple
  have hB := len_of_hasTuple (hSame.symm.trans hTuple)
  have hBytes := hBytes hTuple
  rw [tupleKey_client hA, tupleKey_client hB] at hLen hBytes
  rw [Sockaddr.bytes_ofBytes hA,
    Sockaddr.bytes_ofBytes hB] at hBytes
  exact Sockaddr.equals_iff.mpr ⟨hLen, hBytes⟩

theorem tupleKey_hasTuple_of_valid
    (hValid : (tupleKey addr).valid = true) :
    (tupleKey addr).hasTuple = true := by
  cases hTuple : (tupleKey addr).hasTuple with
  | true => rfl
  | false => simp [valid, hTuple] at hValid

/- The key of a valid address is valid. -/
theorem tupleKey_valid
    (hValid : addr.valid = true) :
    (tupleKey addr).valid = true := by
  have hLen : addr.len ≤ 128 := by
    simp only [Sockaddr.valid, Bool.and_eq_true,
      decide_eq_true_eq] at hValid
    exact hValid.1.2
  have hCopy := Sockaddr.valid_ofBytes hValid
  unfold tupleKey
  rw [if_pos hLen]
  simp [valid, zero, hCopy]

/- A key with ids has the ids it was made of. -/
theorem cidKey_dcid
    (hCids : (cidKey dcid scid).hasCids = true) :
    (cidKey dcid scid).dcid = dcid ∧
      (cidKey dcid scid).scid = scid := by
  unfold cidKey at hCids ⊢
  split at hCids
  · rename_i hFits
    rw [if_pos hFits]
    exact ⟨rfl, rfl⟩
  · cases hCids

/- A stored single id is the pair with an empty one. -/
theorem singleCidKey_valid
    (hValid : (singleCidKey cid).valid = true) :
    singleCidKey cid = cidKey cid [] ∧
      (cidKey cid []).hasCids = true := by
  unfold singleCidKey at hValid ⊢
  split at hValid
  · cases hValid
  · rename_i hLong
    refine ⟨if_neg hLong, ?_⟩
    unfold cidKey at hValid ⊢
    split at hValid
    · rename_i hFits
      rw [if_pos hFits]
    · cases hValid

theorem hasCids_of_equals_single
    {key : SessionKey}
    {cid : Bytes}
    (hValid : (singleCidKey cid).valid = true)
    (hEquals : key.equals (singleCidKey cid) = true) :
    key.hasCids = true := by
  rcases singleCidKey_valid hValid with ⟨hSingle, hHasCids⟩
  rw [(equals_iff.mp hEquals).2.1, hSingle]
  exact hHasCids

/- Keys that equal the key of a stored single id. -/
theorem cidKey_equals_single
    (hValid : (singleCidKey cid).valid = true)
    (hEquals :
      (cidKey dcid scid).equals (singleCidKey cid) = true) :
    dcid = cid ∧ scid = [] := by
  rcases singleCidKey_valid hValid with ⟨hSingle, hHasCids⟩
  have hPair := hasCids_of_equals_single hValid hEquals
  rw [hSingle] at hEquals
  rcases equals_iff.mp hEquals with ⟨_, _, _, _, _, _, hIds⟩
  rcases hIds hPair with ⟨hDcid, hScid⟩
  rw [(cidKey_dcid hPair).1,
    (cidKey_dcid hHasCids).1] at hDcid
  rw [(cidKey_dcid hPair).2,
    (cidKey_dcid hHasCids).2] at hScid
  exact ⟨hDcid, hScid⟩

/- A single-id key tells its id. -/
theorem singleCidKey_inj
    {a b : Bytes}
    (hA : (singleCidKey a).valid = true)
    (hB : (singleCidKey b).valid = true)
    (hEquals :
      (singleCidKey a).equals (singleCidKey b) = true) :
    a = b := by
  rw [(singleCidKey_valid hA).1] at hEquals
  exact (cidKey_equals_single hB hEquals).1

/- Ids of the lengths that are learned give valid keys. -/
theorem singleCidKey_valid_of_length
    (hMin : minLearnedCidLen ≤ cid.length)
    (hMax : cid.length ≤ maxQuicCidLen) :
    (singleCidKey cid).valid = true := by
  have hPos : 0 < cid.length :=
    Nat.lt_of_lt_of_le (by decide) hMin
  unfold singleCidKey cidKey
  rw [if_neg (by omega),
    if_pos ⟨hMax, Nat.zero_le _, Or.inl hPos⟩]
  simp [valid, zero, hMax, hPos]

end SessionKey

end QuicSniRouter
