import QuicSniRouter.SessionTable.Contents

/-
  The masks of id lengths.  What the single writes of a put
  or a deletion keep is kept by the whole, so that every
  stored length is in the mask at any time.

  Main declarations:
    * `SessionTable.WritesOf`
    * `SessionTable.Writes`
    * `SessionTable.Masked`
    * `SessionTable.run_masked`
-/

------------------------------------------------------------
-- What Every Write Keeps
------------------------------------------------------------

namespace QuicSniRouter

open LinearProbing

variable {bits : Nat}

namespace SessionTable

variable {table : SessionTable} {args : PutArgs}
variable {put : SessionTable → PutArgs → SessionTable}
variable {i : Nat}

/-
  What the single writes of a put or a deletion keep, if
  only keys that are allowed are put.  The entries in the
  slots that a deletion goes through can be put back.
-/
structure WritesOf
    (slots : Nat → Prop)
    (allowed : SessionKey → Prop)
    (fact : SessionTable → Prop) : Prop where
  next :
    ∀ table i, fact table → slots i →
      slots (next table.capacity i)
  victim :
    ∀ table i, fact table →
      table.evictVictim = some i → slots i
  stored :
    ∀ table i session, fact table → slots i →
      table.sessions i = some session → allowed session.key
  clear :
    ∀ table i, fact table → fact (table.clear i)
  insert :
    ∀ table args i, allowed args.key → fact table →
      fact (table.insertAt args i)
  update :
    ∀ table args i, fact table → fact (table.updateAt args i)
  scan :
    ∀ table, fact table → fact table.scanned

variable {slots : Nat → Prop} {allowed : SessionKey → Prop}
variable {fact : SessionTable → Prop} {hash : Bytes → Nat}

/- A retry keeps what its writes keep. -/
theorem WritesOf.putRetry
    (hWrites : WritesOf slots allowed fact)
    (hKey : allowed args.key)
    (hFact : fact table) :
    fact (putRetry hash table args).2 := by
  unfold SessionTable.putRetry
  cases table.probe hash args.key with
  | vacant i => exact hWrites.insert table args i hKey hFact
  | hit i => exact hWrites.update table args i hFact
  | exhausted => exact hFact

/- A put keeps what its writes keep. -/
theorem WritesOf.putWith
    {evict : SessionTable → SessionTable}
    (hWrites : WritesOf slots allowed fact)
    (hEvict : ∀ t, fact t → fact (evict t))
    (hKey : allowed args.key)
    (hFact : fact table) :
    fact (putWith hash evict table args).2 := by
  unfold SessionTable.putWith
  split
  · exact hFact
  · cases table.probe hash args.key with
    | vacant i =>
        dsimp only
        split
        · exact hWrites.putRetry hKey
            (hEvict _ (hEvict _ hFact))
        · exact hWrites.insert table args i hKey hFact
    | hit i => exact hWrites.update table args i hFact
    | exhausted =>
        exact hWrites.putRetry hKey (hEvict _ hFact)

/- Closing a gap keeps it. -/
theorem WritesOf.closeGapWith
    (hWrites : WritesOf slots allowed fact)
    (hPut :
      ∀ t args, allowed args.key → fact t → fact (put t args))
    (fuel : Nat)
    {cursor : Nat}
    (hCursor : slots cursor)
    (hFact : fact table) :
    fact (closeGapWith put fuel table cursor) := by
  induction fuel generalizing table cursor with
  | zero => exact hFact
  | succ fuel ih =>
      unfold SessionTable.closeGapWith
      cases hCell : table.sessions cursor with
      | none => exact hFact
      | some saved =>
          apply ih
          · exact hWrites.next table cursor hFact hCursor
          · apply hPut
            · exact hWrites.stored table cursor saved hFact
                hCursor hCell
            · exact hWrites.clear table cursor hFact

/- A deletion keeps it. -/
theorem WritesOf.tableDeleteAtWith
    (hWrites : WritesOf slots allowed fact)
    (hPut :
      ∀ t args, allowed args.key → fact t → fact (put t args))
    (hi : slots i)
    (hFact : fact table) :
    fact (tableDeleteAtWith put table i) :=
  hWrites.closeGapWith hPut _ (hWrites.next table i hFact hi)
    (hWrites.clear table i hFact)

/- An eviction keeps it. -/
theorem WritesOf.evictOldestWith
    (hWrites : WritesOf slots allowed fact)
    (hPut :
      ∀ t args, allowed args.key → fact t → fact (put t args))
    (hFact : fact table) :
    fact (evictOldestWith put table) := by
  unfold SessionTable.evictOldestWith
  split
  · exact hFact
  · have hScanned := hWrites.scan table hFact
    cases hVictim : table.evictVictim with
    | none => exact hScanned
    | some victim =>
        exact hWrites.tableDeleteAtWith hPut
          (hWrites.victim table victim hFact hVictim)
          hScanned

/- The recursion of a put is unfolded to any depth. -/
theorem WritesOf.putInternal
    (hWrites : WritesOf slots allowed fact)
    (depth : Nat)
    (hKey : allowed args.key)
    (hFact : fact table) :
    fact (putInternal hash depth table args).2 := by
  induction depth generalizing table args with
  | zero => exact hFact
  | succ depth ih =>
      apply hWrites.putWith _ hKey hFact
      intro t hOld
      apply hWrites.evictOldestWith _ hOld
      intro u saved hSaved hBefore
      exact ih hSaved hBefore

theorem WritesOf.tableDeleteAt
    (hWrites : WritesOf slots allowed fact)
    (hi : slots i)
    (hFact : fact table) :
    fact (table.tableDeleteAt hash i) := by
  apply hWrites.tableDeleteAtWith _ hi hFact
  intro t args hKey hOld
  exact hWrites.putInternal 1 hKey hOld

/- A sweep keeps it. -/
theorem WritesOf.deleteWhere
    (hWrites : WritesOf slots allowed fact)
    (pred : Session → Bool)
    (hSlots :
      ∀ table i, fact table → i < table.capacity → slots i)
    (fuel : Nat)
    (i : Nat)
    (hFact : fact table) :
    fact (deleteWhere hash pred fuel table i).2 := by
  induction fuel generalizing table i with
  | zero => exact hFact
  | succ fuel ih =>
      unfold SessionTable.deleteWhere
      split
      · rename_i hi
        cases table.sessions i with
        | none => exact ih (i + 1) hFact
        | some session =>
            dsimp only
            split
            · exact ih i
                (hWrites.tableDeleteAt
                  (hSlots table i hFact hi) hFact)
            · exact ih (i + 1) hFact
      · exact hFact

/- What the single writes keep, whatever is put. -/
structure Writes
    (fact : SessionTable → Prop) : Prop where
  clear :
    ∀ table i, fact table → fact (table.clear i)
  insert :
    ∀ table args i, fact table → fact (table.insertAt args i)
  update :
    ∀ table args i, fact table → fact (table.updateAt args i)
  scan :
    ∀ table, fact table → fact table.scanned

theorem Writes.writesOf
    (hWrites : Writes fact) :
    WritesOf (fun _ => True) (fun _ => True) fact where
  next := fun _ _ _ _ => trivial
  victim := fun _ _ _ _ => trivial
  stored := fun _ _ _ _ _ _ => trivial
  clear := hWrites.clear
  insert := fun table args i _ hFact =>
    hWrites.insert table args i hFact
  update := hWrites.update
  scan := hWrites.scan

theorem Writes.putInternal
    (hWrites : Writes fact)
    (depth : Nat)
    (args : PutArgs)
    (hFact : fact table) :
    fact (putInternal hash depth table args).2 :=
  hWrites.writesOf.putInternal depth trivial hFact

theorem Writes.tableDeleteAt
    (hWrites : Writes fact)
    (i : Nat)
    (hFact : fact table) :
    fact (table.tableDeleteAt hash i) :=
  hWrites.writesOf.tableDeleteAt trivial hFact

theorem Writes.deleteWhere
    (hWrites : Writes fact)
    (pred : Session → Bool)
    (fuel : Nat)
    (i : Nat)
    (hFact : fact table) :
    fact (deleteWhere hash pred fuel table i).2 :=
  hWrites.writesOf.deleteWhere pred
    (fun _ _ _ _ => trivial) fuel i hFact

end SessionTable

------------------------------------------------------------
-- The Length Masks
------------------------------------------------------------

/- Every bit of the first mask is set in the second. -/
def MaskIn
    (bits mask : Nat) : Prop :=
  ∀ len, bits.testBit len = true → mask.testBit len = true

theorem MaskIn.self
    (mask : Nat) :
    MaskIn mask mask :=
  fun _ hBit => hBit

theorem MaskIn.or_left
    {mask : Nat}
    (other : Nat)
    (hIn : MaskIn bits mask) :
    MaskIn bits (mask ||| other) := by
  intro len hBit
  simp [hIn len hBit]

theorem MaskIn.or_right
    {other : Nat}
    (mask : Nat)
    (hIn : MaskIn bits other) :
    MaskIn bits (mask ||| other) := by
  intro len hBit
  simp [hIn len hBit]

namespace SessionTable

/-
  Every stored length is in the mask, and it is in the
  pending mask as well unless the cursor is yet to come by.
-/
def Masked
    (table : SessionTable) : Prop :=
  ∀ i < table.capacity, ∀ session,
    table.sessions i = some session →
      MaskIn session.key.cidLenBit table.cidLenMask ∧
        (MaskIn session.key.cidLenBit
            table.cidLenMaskPending ∨
          table.expireCursor ≤ i)

variable {hash : Bytes → Nat} {table : SessionTable}

theorem Masked.replace
    {i : Nat}
    {session new : Session}
    (hMasked : table.Masked)
    (hCell : table.sessions i = some session)
    (hKey : new.key = session.key) :
    Masked
      { table with
        sessions := fill table.sessions i new } := by
  intro j hj other hOther
  rcases fill_eq_some hOther with ⟨hji, hEq⟩ | ⟨_, hOld⟩
  · subst hji
    rw [hEq, hKey]
    exact hMasked j hj session hCell
  · exact hMasked j hj other hOld

theorem Masked.insertAt
    (args : PutArgs)
    (i : Nat)
    (hMasked : table.Masked) :
    (table.insertAt args i).Masked := by
  intro j hj session hSession
  rw [insertAt_sessions] at hSession
  have hSelf := MaskIn.self args.key.cidLenBit
  rcases fill_eq_some hSession with ⟨_, hNew⟩ | ⟨_, hOld⟩
  · rw [hNew]
    exact ⟨hSelf.or_right _, Or.inl (hSelf.or_right _)⟩
  · rcases hMasked j hj session hOld with
      ⟨hMask, hPending | hAhead⟩
    · exact ⟨hMask.or_left _, Or.inl (hPending.or_left _)⟩
    · exact ⟨hMask.or_left _, Or.inr hAhead⟩

theorem Masked.updateAt
    (args : PutArgs)
    (i : Nat)
    (hMasked : table.Masked) :
    (table.updateAt args i).Masked := by
  cases hCell : table.sessions i with
  | none =>
      have hEq : table.updateAt args i = table := by
        simp [SessionTable.updateAt, hCell]
      rw [hEq]
      exact hMasked
  | some session =>
      rw [updateAt_sessions hCell]
      exact hMasked.replace hCell rfl

/- The mask covers all that is written. -/
theorem writes_masked :
    Writes Masked where
  clear := by
    intro table i hMasked j hj session hSession
    exact hMasked j hj session (vacate_eq_some hSession).2
  insert := fun _ args i hMasked => hMasked.insertAt args i
  update := fun _ args i hMasked => hMasked.updateAt args i
  scan := fun _ hMasked => hMasked

theorem Masked.touch
    (i : Nat)
    (now : Int)
    (hMasked : table.Masked) :
    (table.touch i now).Masked := by
  unfold SessionTable.touch
  cases hCell : table.sessions i with
  | none => exact hMasked
  | some session => exact hMasked.replace hCell rfl

/- At the end of a cycle every slot has been accounted for. -/
theorem Masked.advanceCursor
    (hCursor : table.expireCursor < table.capacity)
    (hMasked : table.Masked) :
    table.advanceCursor.Masked := by
  have hSeen :
      ∀ i < table.capacity, ∀ session,
        table.sessions i = some session →
          MaskIn session.key.cidLenBit
              (table.cidLenMaskPending |||
                table.slotCidLenBit table.expireCursor) ∨
            table.expireCursor < i := by
    intro i hi session hCell
    rcases hMasked i hi session hCell with
      ⟨_, hPending | hAhead⟩
    · exact Or.inl (hPending.or_left _)
    · by_cases hHere : i = table.expireCursor
      · left
        apply MaskIn.or_right
        unfold slotCidLenBit
        rw [← hHere, hCell]
        exact MaskIn.self _
      · right
        omega
  unfold SessionTable.advanceCursor
  dsimp only
  by_cases hWrap :
      next table.capacity table.expireCursor = 0
  · rw [if_pos hWrap]
    intro i hi session hCell
    refine ⟨?_, Or.inr ?_⟩
    · rcases hSeen i hi session hCell with hIn | hAhead
      · exact hIn
      · -- Nothing lies behind the last slot.
        exfalso
        have hLast := next_eq hCursor
        rw [hWrap] at hLast
        split at hLast
        · rename_i hEnd
          have hi' : i < table.capacity := hi
          omega
        · omega
    · dsimp only
      omega
  · rw [if_neg hWrap]
    have hNext := next_eq hCursor
    intro i hi session hCell
    refine ⟨(hMasked i hi session hCell).1, ?_⟩
    rcases hSeen i hi session hCell with hIn | hAhead
    · exact Or.inl hIn
    · right
      dsimp only
      rw [hNext]
      split
      · omega
      · omega

/- A fold collects all bits. -/
theorem mask_foldl
    (bit : Nat → Nat)
    (slots : List Nat)
    (mask : Nat) :
    MaskIn mask
        (slots.foldl (fun mask i => mask ||| bit i) mask) ∧
      ∀ i ∈ slots,
        MaskIn (bit i)
          (slots.foldl (fun mask i => mask ||| bit i)
            mask) := by
  induction slots generalizing mask with
  | nil => exact ⟨MaskIn.self mask, by simp⟩
  | cons slot slots ih =>
      rcases ih (mask ||| bit slot) with ⟨hOld, hRest⟩
      constructor
      · intro len hBit
        exact hOld len ((MaskIn.self mask).or_left _ len hBit)
      · intro i hi
        rcases List.mem_cons.mp hi with hEq | hMem
        · subst hEq
          intro len hBit
          exact hOld len
            ((MaskIn.self (bit i)).or_right mask len hBit)
        · exact hRest i hMem

/- A rebuilt mask covers all entries. -/
theorem rebuildCidLenMask_masked
    (table : SessionTable) :
    table.rebuildCidLenMask.Masked := by
  intro i hi session hCell
  have hCell' : table.sessions i = some session := hCell
  have hIn :=
    (mask_foldl table.slotCidLenBit
      (List.range table.capacity) 0).2 i
      (List.mem_range.mpr hi)
  have hBit :
      table.slotCidLenBit i = session.key.cidLenBit := by
    unfold slotCidLenBit
    rw [hCell']
  rw [hBit] at hIn
  exact ⟨hIn, Or.inl hIn⟩

variable (now idleTimeoutSeconds : Int)

theorem expireStep_masked
    (keep : Session → Bool)
    (hInv : table.Inv hash)
    (hMasked : table.Masked) :
    (expireStep hash now idleTimeoutSeconds keep
      table).2.Masked := by
  unfold expireStep
  cases hCell : table.sessions table.expireCursor with
  | none => exact hMasked.advanceCursor hInv.cursor
  | some session =>
      dsimp only
      split
      · split
        · have hTouched :=
            touch_inv hash table.expireCursor now hInv
          exact (hMasked.touch _ now).advanceCursor
            hTouched.cursor
        · exact writes_masked.tableDeleteAt _ hMasked
      · exact hMasked.advanceCursor hInv.cursor

/- The loop keeps the mask large enough. -/
theorem expireLoop_masked
    (keep : Session → Bool)
    (scans : Nat)
    (hInv : table.Inv hash)
    (hMasked : table.Masked) :
    (expireLoop hash now idleTimeoutSeconds keep scans
      table).2.Masked := by
  induction scans generalizing table with
  | zero => exact hMasked
  | succ scans ih =>
      exact ih
        (expireStep_inv hash now idleTimeoutSeconds keep hInv)
        (expireStep_masked now idleTimeoutSeconds keep hInv
          hMasked)

theorem expire_masked
    (hMasked : table.Masked) :
    (table.expire hash now idleTimeoutSeconds).2.Masked := by
  unfold expire
  dsimp only
  split
  · exact rebuildCidLenMask_masked _
  · exact writes_masked.deleteWhere _ _ 0 hMasked

/- Each operation keeps it large enough. -/
theorem apply_masked
    (op : Op)
    (hInv : table.Inv hash)
    (hMasked : table.Masked) :
    (table.apply hash op).Masked := by
  cases op with
  | put key backendAddr backendAddrLen now =>
      exact writes_masked.putInternal 2 _ hMasked
  | putOwned key backendAddr backendAddrLen now ownerSlot
      ownerFlowId =>
      exact writes_masked.putInternal 2 _ hMasked
  | expire now idleTimeoutSeconds =>
      exact expire_masked now idleTimeoutSeconds hMasked
  | expireIncremental now idleTimeoutSeconds scanBudget
      keep =>
      exact expireLoop_masked now idleTimeoutSeconds keep _
        hInv hMasked
  | evictIf pred =>
      exact writes_masked.deleteWhere pred _ 0 hMasked

/- The masks cover a table whatever has been done to it. -/
theorem run_masked
    (ops : List Op)
    (hInv : table.Inv hash)
    (hMasked : table.Masked) :
    (ops.foldl (apply hash) table).Masked := by
  induction ops generalizing table with
  | nil => exact hMasked
  | cons op ops ih =>
      exact ih (apply_inv hash op hInv)
        (apply_masked op hInv hMasked)

theorem init_masked
    {capacity : Nat}
    (hInit : init capacity = .ok table) :
    table.Masked := by
  unfold init at hInit
  split at hInit
  · cases hInit
  · cases hInit
    intro i _ session hCell
    cases hCell

end SessionTable

end QuicSniRouter
