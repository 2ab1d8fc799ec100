import QuicSniRouter.SessionTable.LengthMask
import QuicSniRouter.SessionTable.Load

/-
  Stale bits of the length mask are retired.  The run is
  taken slot by slot: a cycle of the incremental sweep ends
  in the middle of a call.  A length that no entry has from
  the end of one cycle to the end of the next has left the
  pending mask with the first and leaves the mask with the
  second.

  Main declarations:
    * `SessionTable.Tick`
    * `SessionTable.run_ticks`
    * `SessionTable.Retiring`
    * `SessionTable.stale_length_retired`
-/

------------------------------------------------------------
-- Runs Slot By Slot
------------------------------------------------------------

namespace QuicSniRouter

open LinearProbing

namespace SessionTable

/- An operation, or one slot of an incremental sweep. -/
inductive Tick
  | whole
      (op : Op)
  | scan
      (now idleTimeoutSeconds : Int)
      (keep : Session → Bool)

/- One tick. -/
def tick
    (hash : Bytes → Nat)
    (table : SessionTable) :
    Tick → SessionTable
| .whole op => table.apply hash op
| .scan now idleTimeoutSeconds keep =>
    (expireStep hash now idleTimeoutSeconds keep table).2

/- An operation as the ticks that it takes. -/
def Op.ticks
    (capacity : Nat) :
    Op → List Tick
| .expireIncremental now idleTimeoutSeconds scanBudget keep =>
    List.replicate (min scanBudget capacity)
      (.scan now idleTimeoutSeconds keep)
| op => [.whole op]

/- The scan that moves the cursor on, and on to slot 0. -/
def Tick.Wraps
    (hash : Bytes → Nat)
    (table : SessionTable) :
    Tick → Prop
| .whole _ => False
| .scan now idleTimeoutSeconds keep =>
    (expireStep hash now idleTimeoutSeconds keep
        table).1 = 0 ∧
      next table.capacity table.expireCursor = 0

/- The tables that a run goes through, both ends included. -/
def trace
    (hash : Bytes → Nat) :
    SessionTable → List Tick → List SessionTable
| table, [] => [table]
| table, t :: rest =>
    table :: trace hash (table.tick hash t) rest

/- An entry with an id of the length. -/
def Live
    (len : Nat)
    (table : SessionTable) : Prop :=
  ∃ s, Holds table.capacity table.sessions s ∧
    s.key.hasCids = true ∧ s.key.dcid.length = len

variable {hash : Bytes → Nat} {table : SessionTable}

theorem mem_trace_self
    (hash : Bytes → Nat)
    (table : SessionTable)
    (ticks : List Tick) :
    table ∈ trace hash table ticks := by
  cases ticks with
  | nil => exact List.mem_cons_self
  | cons t rest => exact List.mem_cons_self

theorem expireLoop_ticks
    (now idleTimeoutSeconds : Int)
    (keep : Session → Bool)
    (scans : Nat)
    (table : SessionTable) :
    (List.replicate scans
        (Tick.scan now idleTimeoutSeconds keep)).foldl
        (tick hash) table =
      (expireLoop hash now idleTimeoutSeconds keep scans
        table).2 := by
  induction scans generalizing table with
  | zero => rfl
  | succ scans ih =>
      rw [List.replicate_succ, List.foldl_cons, ih]
      rfl

/- An operation is the ticks that it takes. -/
theorem apply_ticks
    (op : Op)
    (table : SessionTable) :
    (op.ticks table.capacity).foldl (tick hash) table =
      table.apply hash op := by
  cases op with
  | put key backendAddr backendAddrLen now => rfl
  | putOwned key backendAddr backendAddrLen now ownerSlot
      ownerFlowId => rfl
  | expire now idleTimeoutSeconds => rfl
  | evictIf pred => rfl
  | expireIncremental now idleTimeoutSeconds scanBudget
      keep =>
      exact expireLoop_ticks now idleTimeoutSeconds keep _
        table

/- Taken slot by slot, a run ends in the same table. -/
theorem run_ticks
    (ops : List Op)
    (hInv : table.Inv hash) :
    (ops.flatMap (Op.ticks table.capacity)).foldl
        (tick hash) table =
      ops.foldl (apply hash) table := by
  induction ops generalizing table with
  | nil => rfl
  | cons op ops ih =>
      have hRest := ih (apply_inv hash op hInv)
      rw [apply_capacity op hInv] at hRest
      rw [List.flatMap_cons, List.foldl_append, apply_ticks,
        hRest]
      rfl

theorem tick_inv
    (t : Tick)
    (hInv : table.Inv hash) :
    (table.tick hash t).Inv hash := by
  cases t with
  | whole op => exact apply_inv hash op hInv
  | scan now idleTimeoutSeconds keep =>
      exact expireStep_inv hash now idleTimeoutSeconds keep
        hInv

theorem ticks_inv
    (ticks : List Tick)
    (hInv : table.Inv hash) :
    (ticks.foldl (tick hash) table).Inv hash := by
  induction ticks generalizing table with
  | nil => exact hInv
  | cons t rest ih => exact ih (tick_inv t hInv)

end SessionTable

theorem SessionKey.cidLenBit_testBit
    {key : SessionKey}
    {len : Nat}
    (hBit : key.cidLenBit.testBit len = true) :
    key.hasCids = true ∧ key.dcid.length = len := by
  unfold SessionKey.cidLenBit at hBit
  split at hBit
  · rename_i hLearned
    refine ⟨hLearned.1, ?_⟩
    rw [Nat.one_shiftLeft, Nat.testBit_two_pow] at hBit
    exact of_decide_eq_true hBit
  · rw [Nat.zero_testBit] at hBit
    cases hBit

namespace SessionTable

variable {i : Nat} {retired' : Prop} {t : Tick}

/-
  No entry has an id of the length and the pending mask does
  not know it; nor does the mask, once it is retired.
-/
structure Retiring
    (n len : Nat)
    (retired : Prop)
    (table : SessionTable) : Prop where
  capacity : table.capacity = n
  entries :
    ∀ i < n, ∀ s, table.sessions i = some s →
      s.key.cidLenBit.testBit len = false
  pending : table.cidLenMaskPending.testBit len = false
  mask : retired → table.cidLenMask.testBit len = false

variable {hash : Bytes → Nat} {table : SessionTable}
variable {n len : Nat} {retired : Prop}

theorem entries_of_not_live
    (hNone : ¬ table.Live len) :
    ∀ i < table.capacity, ∀ s, table.sessions i = some s →
      s.key.cidLenBit.testBit len = false := by
  intro i hi s hSome
  by_contra hBit
  rw [Bool.not_eq_false] at hBit
  rcases SessionKey.cidLenBit_testBit hBit with
    ⟨hCids, hLength⟩
  exact hNone ⟨s, ⟨i, hi, hSome⟩, hCids, hLength⟩

/- A new version of an entry under the same key. -/
theorem Retiring.replace
    {session new : Session}
    (hRetiring : Retiring n len retired table)
    (hCell : table.sessions i = some session)
    (hKey : new.key = session.key) :
    Retiring n len retired
      { table with
        sessions := fill table.sessions i new } := by
  refine ⟨hRetiring.capacity, ?_, hRetiring.pending,
    hRetiring.mask⟩
  intro j hj s hSome
  rcases fill_eq_some hSome with ⟨hji, hEq⟩ | ⟨_, hOld⟩
  · subst hji
    rw [hEq, hKey]
    exact hRetiring.entries j hj session hCell
  · exact hRetiring.entries j hj s hOld

theorem Retiring.insertAt
    {args : PutArgs}
    (i : Nat)
    (hRetiring : Retiring n len retired table)
    (hKey : args.key.cidLenBit.testBit len = false) :
    Retiring n len retired (table.insertAt args i) := by
  constructor
  · exact hRetiring.capacity
  · intro j hj s hSome
    rw [insertAt_sessions] at hSome
    rcases fill_eq_some hSome with ⟨_, hEq⟩ | ⟨_, hOld⟩
    · rw [hEq]
      exact hKey
    · exact hRetiring.entries j hj s hOld
  · unfold SessionTable.insertAt
    rw [Nat.testBit_or, hRetiring.pending, hKey]
    rfl
  · intro hRetired
    unfold SessionTable.insertAt
    rw [Nat.testBit_or, hRetiring.mask hRetired, hKey]
    rfl

theorem Retiring.updateAt
    (args : PutArgs)
    (i : Nat)
    (hRetiring : Retiring n len retired table) :
    Retiring n len retired (table.updateAt args i) := by
  cases hCell : table.sessions i with
  | none =>
      have hEq : table.updateAt args i = table := by
        simp [SessionTable.updateAt, hCell]
      rw [hEq]
      exact hRetiring
  | some session =>
      rw [updateAt_sessions hCell]
      exact hRetiring.replace hCell rfl

/- Deletions put back what is stored, and no other length. -/
theorem writesOf_retiring
    (hPos : 0 < n) :
    WritesOf (fun i => i < n)
      (fun key => key.cidLenBit.testBit len = false)
      (Retiring n len retired) where
  next := by
    intro table i hRetiring _
    rw [hRetiring.capacity]
    exact next_lt hPos i
  victim := by
    intro table i hRetiring hVictim
    rw [← hRetiring.capacity] at hPos ⊢
    exact (oldest_used hPos hVictim).1
  stored := fun _ i session hRetiring hi hCell =>
    hRetiring.entries i hi session hCell
  clear := by
    intro table i hRetiring
    refine ⟨hRetiring.capacity, ?_, hRetiring.pending,
      hRetiring.mask⟩
    intro j hj s hSome
    exact hRetiring.entries j hj s (vacate_eq_some hSome).2
  insert := fun _ _ i hKey hRetiring =>
    hRetiring.insertAt i hKey
  update := fun _ args i hRetiring =>
    hRetiring.updateAt args i
  scan := fun _ hRetiring =>
    ⟨hRetiring.capacity, hRetiring.entries,
      hRetiring.pending, hRetiring.mask⟩

theorem Retiring.touch
    (i : Nat)
    (now : Int)
    (hRetiring : Retiring n len retired table) :
    Retiring n len retired (table.touch i now) := by
  unfold SessionTable.touch
  cases hCell : table.sessions i with
  | none => exact hRetiring
  | some session => exact hRetiring.replace hCell rfl

theorem Retiring.slot
    (hRetiring : Retiring n len retired table)
    (hi : i < n) :
    (table.slotCidLenBit i).testBit len = false := by
  unfold slotCidLenBit
  cases hCell : table.sessions i with
  | none => exact Nat.zero_testBit len
  | some session =>
      exact hRetiring.entries i hi session hCell

/- The end of a cycle is where the mask loses the length. -/
theorem Retiring.advanceCursor
    (hRetiring : Retiring n len retired table)
    (hCursor : table.expireCursor < n)
    (hRetired :
      retired' →
        retired ∨
          next table.capacity table.expireCursor = 0) :
    Retiring n len retired' table.advanceCursor := by
  have hPending :
      (table.cidLenMaskPending |||
        table.slotCidLenBit table.expireCursor).testBit
          len = false := by
    rw [Nat.testBit_or, hRetiring.pending,
      hRetiring.slot hCursor]
    rfl
  unfold SessionTable.advanceCursor
  dsimp only
  by_cases hWrap :
      next table.capacity table.expireCursor = 0
  · rw [if_pos hWrap]
    exact ⟨hRetiring.capacity, hRetiring.entries,
      Nat.zero_testBit len, fun _ => hPending⟩
  · rw [if_neg hWrap]
    refine ⟨hRetiring.capacity, hRetiring.entries, hPending,
      ?_⟩
    intro hLater
    rcases hRetired hLater with hNow | hNot
    · exact hRetiring.mask hNow
    · exact absurd hNot hWrap

theorem foldl_mask_clear
    (bit : Nat → Nat)
    (slots : List Nat)
    {mask : Nat}
    (hMask : mask.testBit len = false)
    (hBits : ∀ i ∈ slots, (bit i).testBit len = false) :
    (slots.foldl (fun mask i => mask ||| bit i)
      mask).testBit len = false := by
  induction slots generalizing mask with
  | nil => exact hMask
  | cons slot slots ih =>
      apply ih
      · rw [Nat.testBit_or, hMask,
          hBits slot List.mem_cons_self]
        rfl
      · intro i hMem
        exact hBits i (List.mem_cons_of_mem slot hMem)

theorem Retiring.rebuildCidLenMask
    (hRetiring : Retiring n len retired table) :
    Retiring n len retired table.rebuildCidLenMask := by
  have hClear :
      ((List.range table.capacity).foldl
        (fun mask i => mask ||| table.slotCidLenBit i)
          0).testBit len = false := by
    apply foldl_mask_clear _ _ (Nat.zero_testBit len)
    intro i hMem
    apply hRetiring.slot
    rw [← hRetiring.capacity]
    exact List.mem_range.mp hMem
  exact ⟨hRetiring.capacity, hRetiring.entries, hClear,
    fun _ => hClear⟩

------------------------------------------------------------
-- From Wrap To Wrap
------------------------------------------------------------

/- A scan that does not delete moves the cursor. -/
theorem expireStep_advances
    (hash : Bytes → Nat)
    (now idleTimeoutSeconds : Int)
    (keep : Session → Bool)
    (table : SessionTable) :
    (∃ session,
      table.sessions table.expireCursor = some session ∧
      expireStep hash now idleTimeoutSeconds keep table =
        (1, table.tableDeleteAt hash table.expireCursor)) ∨
    expireStep hash now idleTimeoutSeconds keep table =
      (0, (table.touch table.expireCursor
        now).advanceCursor) ∨
    expireStep hash now idleTimeoutSeconds keep table =
      (0, table.advanceCursor) := by
  unfold expireStep
  cases hCell : table.sessions table.expireCursor with
  | none => exact Or.inr (Or.inr rfl)
  | some session =>
      dsimp only
      split
      · split
        · exact Or.inr (Or.inl rfl)
        · exact Or.inl ⟨session, rfl, rfl⟩
      · exact Or.inr (Or.inr rfl)

theorem touch_cursor
    (table : SessionTable)
    (i : Nat)
    (now : Int) :
    (table.touch i now).capacity = table.capacity ∧
      (table.touch i now).expireCursor =
        table.expireCursor := by
  unfold touch
  cases table.sessions i with
  | none => exact ⟨rfl, rfl⟩
  | some session => exact ⟨rfl, rfl⟩

variable (now idleTimeoutSeconds : Int)
variable (keep : Session → Bool)

theorem expireStep_retiring
    (hInv : table.Inv hash)
    (hRetiring : Retiring n len retired table)
    (hRetired :
      retired' →
        retired ∨
          (expireStep hash now idleTimeoutSeconds keep
              table).1 = 0 ∧
            next table.capacity table.expireCursor = 0) :
    Retiring n len retired'
      (expireStep hash now idleTimeoutSeconds keep
        table).2 := by
  have hPos := hInv.pos
  have hCursor := hInv.cursor
  rw [hRetiring.capacity] at hPos hCursor
  rcases expireStep_advances hash now idleTimeoutSeconds
      keep table with
    ⟨session, _, hStep⟩ | hStep | hStep
  · rw [hStep] at hRetired ⊢
    have hDeleted :
        Retiring n len retired
          (table.tableDeleteAt hash table.expireCursor) :=
      (writesOf_retiring hPos).tableDeleteAt hCursor hRetiring
    refine ⟨hDeleted.capacity, hDeleted.entries,
      hDeleted.pending, ?_⟩
    intro hLater
    rcases hRetired hLater with hNow | ⟨hNot, _⟩
    · exact hDeleted.mask hNow
    · cases hNot
  · rcases touch_cursor table table.expireCursor now with
      ⟨hCapacity, hSame⟩
    rw [hStep] at hRetired ⊢
    apply (hRetiring.touch table.expireCursor
      now).advanceCursor
    · rw [hSame]
      exact hCursor
    · rw [hCapacity, hSame]
      exact fun hLater =>
        (hRetired hLater).imp id And.right
  · rw [hStep] at hRetired ⊢
    exact hRetiring.advanceCursor hCursor
      (fun hLater => (hRetired hLater).imp id And.right)

theorem expireLoop_retiring
    (scans : Nat)
    (hInv : table.Inv hash)
    (hRetiring : Retiring n len retired table) :
    Retiring n len retired
      (expireLoop hash now idleTimeoutSeconds keep scans
        table).2 := by
  induction scans generalizing table with
  | zero => exact hRetiring
  | succ scans ih =>
      exact ih
        (expireStep_inv hash now idleTimeoutSeconds keep hInv)
        (expireStep_retiring now idleTimeoutSeconds keep
          hInv hRetiring Or.inl)

/- A put of the length would leave an entry of it. -/
theorem putInternal_retiring
    (args : PutArgs)
    (hInv : table.Inv hash)
    (hRetiring : Retiring n len retired table)
    (hAfter : ¬ (putInternal hash 2 table args).2.Live len) :
    Retiring n len retired
      (putInternal hash 2 table args).2 := by
  have hPos := hInv.pos
  rw [hRetiring.capacity] at hPos
  by_cases hAccepts : table.Accepts args
  · apply (writesOf_retiring hPos).putInternal 2 _ hRetiring
    by_contra hBit
    rw [Bool.not_eq_false] at hBit
    rcases SessionKey.cidLenBit_testBit hBit with
      ⟨hCids, hLength⟩
    rcases putInternal_ok hInv hAccepts with
      ⟨after, slot, entry, hPut, hWrote⟩
    rcases SessionKey.equals_iff.mp hWrote.key with
      ⟨_, hSameCids, _, hSameLength, _⟩
    apply hAfter
    rw [hPut]
    refine ⟨entry, ⟨slot, ?_, ?_⟩, hSameCids.trans hCids,
      hSameLength.trans hLength⟩
    · rw [hWrote.frame.capacity]
      exact hWrote.slot_lt
    · rw [hWrote.sessions, fill_self]
  · rw [putInternal_refused hash hAccepts]
    exact hRetiring

/- A tick keeps the length retired. -/
theorem tick_retiring
    (t : Tick)
    (hInv : table.Inv hash)
    (hRetiring : Retiring n len retired table)
    (hAfter : ¬ (table.tick hash t).Live len) :
    Retiring n len retired (table.tick hash t) := by
  have hPos := hInv.pos
  rw [hRetiring.capacity] at hPos
  have hSwept :
      ∀ pred,
        Retiring n len retired
          (deleteWhere hash pred table.sweepFuel table
            0).2 := by
    intro pred
    apply (writesOf_retiring hPos).deleteWhere pred _ _ 0
      hRetiring
    intro t i hOld hi
    rw [hOld.capacity] at hi
    exact hi
  cases t with
  | scan now idleTimeoutSeconds keep =>
      exact expireStep_retiring now idleTimeoutSeconds keep
        hInv hRetiring Or.inl
  | whole op =>
      cases op with
      | put key backendAddr backendAddrLen now =>
          exact putInternal_retiring _ hInv hRetiring hAfter
      | putOwned key backendAddr backendAddrLen now
          ownerSlot ownerFlowId =>
          exact putInternal_retiring _ hInv hRetiring hAfter
      | expire now idleTimeoutSeconds =>
          unfold tick apply expire
          dsimp only
          split
          · exact (hSwept _).rebuildCidLenMask
          · exact hSwept _
      | expireIncremental now idleTimeoutSeconds scanBudget
          keep =>
          exact expireLoop_retiring now idleTimeoutSeconds
            keep _ hInv hRetiring
      | evictIf pred => exact hSwept pred

/- Ticks in sequence keep it retired. -/
theorem ticks_retiring
    (ticks : List Tick)
    (hInv : table.Inv hash)
    (hRetiring : Retiring n len retired table)
    (hNone : ∀ t ∈ trace hash table ticks, ¬ t.Live len) :
    Retiring n len retired
      (ticks.foldl (tick hash) table) := by
  induction ticks generalizing table with
  | nil => exact hRetiring
  | cons t rest ih =>
      have hRest :
          ∀ u ∈ trace hash (table.tick hash t) rest,
            ¬ u.Live len :=
        fun u hMem =>
          hNone u (List.mem_cons_of_mem table hMem)
      have hNext : ¬ (table.tick hash t).Live len :=
        hRest _ (mem_trace_self hash _ rest)
      exact ih (tick_inv t hInv)
        (tick_retiring t hInv hRetiring hNext) hRest

/- The first wrap empties the pending mask. -/
theorem wraps_pending
    (hWraps : t.Wraps hash table) :
    (table.tick hash t).cidLenMaskPending = 0 := by
  cases t with
  | whole op => exact absurd hWraps id
  | scan now idleTimeoutSeconds keep =>
      rcases hWraps with ⟨hAdvances, hWrap⟩
      have hTick :
          table.tick hash
              (.scan now idleTimeoutSeconds keep) =
            (expireStep hash now idleTimeoutSeconds keep
              table).2 := rfl
      rw [hTick]
      rcases expireStep_advances hash now
          idleTimeoutSeconds keep table with
        ⟨session, _, hStep⟩ | hStep | hStep
      · rw [hStep] at hAdvances
        cases hAdvances
      · rcases touch_cursor table table.expireCursor now
          with ⟨hCapacity, hSame⟩
        rw [hStep]
        unfold SessionTable.advanceCursor
        dsimp only
        rw [hCapacity, hSame, if_pos hWrap]
      · rw [hStep]
        unfold SessionTable.advanceCursor
        dsimp only
        rw [if_pos hWrap]

/- The second one takes the length out of the mask. -/
theorem wraps_retires
    (hInv : table.Inv hash)
    (hRetiring : Retiring n len False table)
    (hWraps : t.Wraps hash table) :
    Retiring n len True (table.tick hash t) := by
  cases t with
  | whole op => exact absurd hWraps id
  | scan now idleTimeoutSeconds keep =>
      exact expireStep_retiring now idleTimeoutSeconds keep
        hInv hRetiring (fun _ => Or.inr hWraps)

/-
  Take any run of operations slot by slot, a wrap of the
  sweep cursor in it and a later one.  If no table between
  them has an entry with an id of the length, its bit is
  clear behind the second wrap, and as long as no table
  after it has such an entry.
-/
theorem stale_length_retired
    (hash : Bytes → Nat)
    (capacity len : Nat)
    (start : SessionTable)
    (ops : List Op)
    (before between after : List Tick)
    (first second : Tick)
    (hStart : init capacity = .ok start)
    (hRun :
      ops.flatMap (Op.ticks capacity) =
        before ++ first :: (between ++ second :: after)) :
    let reached := before.foldl (tick hash) start
    let opened := reached.tick hash first
    let closing := between.foldl (tick hash) opened
    let closed := closing.tick hash second
    after.foldl (tick hash) closed =
        ops.foldl (apply hash) start ∧
      (first.Wraps hash reached → second.Wraps hash closing →
        (∀ t ∈ trace hash opened between, ¬ t.Live len) →
          closed.cidLenMask.testBit len = false ∧
            ∀ later, later <+: after →
              (∀ t ∈ trace hash closed later, ¬ t.Live len) →
                (later.foldl (tick hash)
                  closed).cidLenMask.testBit len =
                    false) := by
  intro reached opened closing closed
  have hInit := @init_inv hash capacity start hStart
  have hReached : reached.Inv hash := ticks_inv before hInit
  have hOpened : opened.Inv hash := tick_inv first hReached
  have hClosing : closing.Inv hash :=
    ticks_inv between hOpened
  have hClosed : closed.Inv hash := tick_inv second hClosing
  constructor
  · have hTicks := run_ticks ops hInit
    rw [init_capacity hStart, hRun, List.foldl_append,
      List.foldl_cons, List.foldl_append,
      List.foldl_cons] at hTicks
    exact hTicks
  · intro hFirst hSecond hNone
    have hEmpty : ¬ opened.Live len :=
      hNone opened (mem_trace_self hash opened between)
    have hOpen :
        Retiring opened.capacity len False opened :=
      ⟨rfl, entries_of_not_live hEmpty, by
        rw [wraps_pending hFirst]
        exact Nat.zero_testBit len, False.elim⟩
    have hRetired :=
      wraps_retires hClosing
        (ticks_retiring between hOpened hOpen hNone) hSecond
    refine ⟨hRetired.mask trivial, ?_⟩
    intro later _ hLater
    exact (ticks_retiring later hClosed hRetired
      hLater).mask trivial

/-
  An entry with an eight-byte id that has expired when the
  sweep comes by.  Its bit outlives it for one cycle: it was
  in the pending mask when the first one ended.
-/
def staleOps : List Op :=
  [.put (idKey 2) backendRef 16 0,
    .expireIncremental 20 10 2 (fun _ => false),
    .expireIncremental 20 10 2 (fun _ => false),
    .expireIncremental 20 10 2 (fun _ => false)]

/- A scan after the entries have become idle. -/
def staleScan : Tick :=
  .scan 20 10 (fun _ => false)

/- The table after the put and some scans. -/
def staleTable
    (scans : Nat) : SessionTable :=
  (List.replicate scans staleScan).foldl (tick idHash)
    ((emptyTable 2).tick idHash
      (.whole (.put (idKey 2) backendRef 16 0)))

/- Three scans leave the bit, five clear it. -/
theorem stale_bit_cleared :
    (staleTable 3).cidLenMask.testBit 8 = true ∧
      (staleTable 5).cidLenMask.testBit 8 = false := by
  have hSteps :
      (staleTable 3).cidLenMask.testBit 8 = true ∧
        (expireStep idHash 20 10 (fun _ => false)
          (staleTable 2)).1 = 0 ∧
        next (staleTable 2).capacity
          (staleTable 2).expireCursor = 0 ∧
        (expireStep idHash 20 10 (fun _ => false)
          (staleTable 4)).1 = 0 ∧
        next (staleTable 4).capacity
          (staleTable 4).expireCursor = 0 ∧
        ∀ t ∈ [staleTable 3, staleTable 4],
          t.capacity = 2 ∧ t.sessions 0 = none ∧
            t.sessions 1 = none := by
    decide +kernel
  rcases hSteps with
    ⟨hSet, hScan, hWrap, hScan', hWrap', hVacant⟩
  refine ⟨hSet, ?_⟩
  refine ((stale_length_retired idHash 2 8 (emptyTable 2)
    staleOps
    [.whole (.put (idKey 2) backendRef 16 0), staleScan,
      staleScan]
    [staleScan] [staleScan] staleScan staleScan rfl rfl).2
    ⟨hScan, hWrap⟩ ⟨hScan', hWrap'⟩ ?_).1
  rintro t hMem ⟨s, ⟨p, hp, hSome⟩, _⟩
  rcases hVacant t hMem with ⟨hCapacity, hZero, hOne⟩
  have hSlot : p = 0 ∨ p = 1 := by
    omega
  rcases hSlot with hp | hp
  · rw [hp, hZero] at hSome
    cases hSome
  · rw [hp, hOne] at hSome
    cases hSome

end SessionTable

end QuicSniRouter
