import QuicSniRouter.FlowTable.Operations

/-
  How the idle sweep moves through the slots.  Only the
  sweep moves its cursor, and each slot it looks at brings
  it one step closer to every flow ahead of it.

  Main declarations:
    * `FlowTable.put_expireCursor`
    * `FlowTable.evictIf_expireCursor`
    * `FlowTable.expireLoop_nears`
-/

namespace QuicSniRouter

open LinearProbing

namespace FlowTable

variable {hash : Bytes → Nat}
variable (table : FlowTable)

@[simp] theorem indexStore_expireCursor
    (slot : Nat)
    (pos : Option Nat) :
    (table.indexStore slot pos).expireCursor =
      table.expireCursor := by
  cases pos with
  | none => rfl
  | some pos => rfl

@[simp] theorem indexCloseGap_expireCursor
    (fuel : Nat)
    (table : FlowTable)
    (cursor : Nat) :
    (indexCloseGap hash fuel table cursor).expireCursor =
      table.expireCursor := by
  induction fuel generalizing table cursor with
  | zero => rfl
  | succ fuel ih =>
      unfold indexCloseGap
      cases table.index cursor with
      | none => rfl
      | some slot =>
          dsimp only
          rw [ih, indexStore_expireCursor]

@[simp] theorem indexDelete_expireCursor
    (client : Sockaddr) :
    (table.indexDelete hash client).expireCursor =
      table.expireCursor := by
  unfold indexDelete
  split
  · split
    · exact indexCloseGap_expireCursor _ _ _
    · rfl
  · rfl

@[simp] theorem removeSlot_expireCursor
    (slot : Nat)
    (reason : FlowCloseReason) :
    (table.removeSlot hash slot reason).1.expireCursor =
      table.expireCursor := by
  unfold removeSlot
  split
  · rfl
  · exact indexDelete_expireCursor _ _

theorem remove_expireCursor
    (slot : Nat) :
    (table.remove hash slot).1.expireCursor =
      table.expireCursor := by
  unfold remove
  split
  · exact removeSlot_expireCursor _ _ _
  · rfl

theorem evictOldest_expireCursor
    (table : FlowTable) :
    (table.evictOldest hash).2.1.expireCursor =
      table.expireCursor := by
  unfold evictOldest
  split
  · rfl
  · split
    · rfl
    · exact removeSlot_expireCursor _ _ _

theorem insertFlow_expireCursor
    (client backend : Sockaddr)
    (fd now : Int)
    (pos : Option Nat) :
    (table.insertFlow client backend fd now
      pos).2.expireCursor = table.expireCursor := by
  unfold insertFlow
  split
  · rfl
  · rfl

theorem put_expireCursor
    (client backend : Sockaddr)
    (fd now : Int) :
    (table.put hash client backend fd
      now).2.1.expireCursor = table.expireCursor := by
  have hEvicted := @evictOldest_expireCursor hash table
  unfold put
  split
  · rfl
  · dsimp only
    split
    · unfold updateSlot
      split
      · rfl
      · rfl
    · split
      · split
        · exact hEvicted
        · exact (insertFlow_expireCursor _ _ _ _ _ _).trans
            hEvicted
      · exact insertFlow_expireCursor _ _ _ _ _ _

theorem sweepSlot_expireCursor
    (pred : Flow → Bool)
    (reason : FlowCloseReason)
    (table : FlowTable)
    (slot : Nat) :
    (sweepSlot hash pred reason table
      slot).2.1.expireCursor = table.expireCursor := by
  unfold sweepSlot
  split
  · split
    · exact removeSlot_expireCursor _ _ _
    · rfl
  · rfl

theorem evictIf_expireCursor
    (pred : Flow → Bool)
    (table : FlowTable) :
    (table.evictIf hash pred).2.1.expireCursor =
      table.expireCursor := by
  unfold evictIf
  generalize List.range table.capacity = slots
  induction slots generalizing table with
  | nil => rfl
  | cons slot slots ih =>
      exact (ih _).trans (sweepSlot_expireCursor _ _ _ _)

/- An idle flow is removed, or the cursor comes closer. -/
theorem expireLoop_nears
    {table : FlowTable}
    {now idleTimeoutSeconds : Int}
    {s : Nat}
    {flow : Flow}
    (scans : Nat)
    (hInv : table.Inv hash)
    (hs : s < table.capacity)
    (hFlow : table.flows s = some flow)
    (hIdle : idle now idleTimeoutSeconds flow = true) :
    let after :=
      (expireLoop hash now idleTimeoutSeconds scans table).2.1
    after.flows s = none ∨
      dist table.capacity after.expireCursor s + scans =
        dist table.capacity table.expireCursor s := by
  induction scans generalizing table with
  | zero => exact Or.inr rfl
  | succ scans ih =>
      rcases sweepSlot_spec (idle now idleTimeoutSeconds)
          .idle hInv hInv.cursor with
        ⟨_, hShrinks, hOther, hSelf, _⟩
      let swept :=
        sweepSlot hash (idle now idleTimeoutSeconds) .idle
          table table.expireCursor
      let middle : FlowTable :=
        { swept.2.1 with
          expireCursor :=
            next table.capacity table.expireCursor }
      have hNext : middle.Inv hash :=
        expireSlot_inv now idleTimeoutSeconds hInv
      have hCapacity : middle.capacity = table.capacity :=
        hShrinks.capacity
      by_cases hAt : s = table.expireCursor
      · left
        have hGone : middle.flows s = none := by
          change swept.2.1.flows s = none
          rw [hAt, hSelf, ← hAt, hFlow]
          simp [Option.filter_some, hIdle]
        exact (expireLoop_spec now idleTimeoutSeconds scans
          hNext).2.none hGone
      · have hKept : middle.flows s = some flow :=
          (hOther s hAt).trans hFlow
        have hCloser :=
          dist_next_left hInv.cursor hs (Ne.symm hAt)
        rcases @ih middle hNext (hCapacity ▸ hs) hKept with
          hGone | hDist
        · exact Or.inl hGone
        · right
          rw [hCapacity] at hDist
          rw [← hCloser, ← Nat.add_assoc]
          exact congrArg (· + 1) hDist

end FlowTable

end QuicSniRouter
