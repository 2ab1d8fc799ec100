import QuicSniRouter.LinearProbing.Probe

/-
  Deletion by reinsertion: after one cell is emptied, the
  entries that follow it are taken out and put back one by
  one, until the cursor meets a vacant cell.  An entry that
  `keep` refuses is lost on the way.

  Main declarations:
    * `Reinsert` and `CloseGap`
    * `Pending`
    * `CloseGap.chain`
    * `CloseGap.holds` and `CloseGap.holds_keep`
    * `gapRank` and `gapRank_step`
-/

namespace LinearProbing

variable {E : Type} {f c p v : Nat}

/-
  Put an entry back at the first vacant cell on its way, or
  drop it.
-/
inductive Reinsert
    (n : Nat)
    (home : E → Nat)
    (keep : E → Prop)
    (cells : Nat → Option E)
    (e : E) :
    (Nat → Option E) → Prop
  | drop
      (hKeep : ¬ keep e) :
      Reinsert n home keep cells e cells
  | place
      (f : Nat)
      (hKeep : keep e)
      (hf : f < n)
      (hNone : cells f = none)
      (hWay :
        ∀ q < n, dist n (home e) q < dist n (home e) f →
          cells q ≠ none) :
      Reinsert n home keep cells e (fill cells f e)

/- The walk of a cursor up to the first vacant cell. -/
inductive CloseGap
    (n : Nat)
    (home : E → Nat)
    (keep : E → Prop) :
    (Nat → Option E) → Nat → (Nat → Option E) → Prop
  | stop
      {cells : Nat → Option E}
      {c : Nat}
      (hNone : cells c = none) :
      CloseGap n home keep cells c cells
  | step
      {cells mid final : Nat → Option E}
      {c : Nat}
      {e : E}
      (hCell : cells c = some e)
      (hPut : Reinsert n home keep (vacate cells c) e mid)
      (hRest : CloseGap n home keep mid (next n c) final) :
      CloseGap n home keep cells c final

/-
  With the cursor's cell emptied, the first vacant cell on
  the way from `h` is that cell or lies before it.
-/
theorem dist_lt_of_first
    {n h : Nat}
    {cells : Nat → Option E}
    (hh : h < n)
    (hf : f < n)
    (hc : c < n)
    (hNe : f ≠ c)
    (hWay :
      ∀ q < n, dist n h q < dist n h f →
        vacate cells c q ≠ none) :
    dist n h f < dist n h c := by
  rcases Nat.lt_trichotomy (dist n h f) (dist n h c) with
    hLt | hEq | hGt
  · exact hLt
  · exact absurd (dist_inj hh hf hc hEq) hNe
  · exact absurd (vacate_self cells c) (hWay c hc hGt)

/-
  A vacant cell on an entry's way lies ahead of the entry as
  the cursor sees it: the cursor meets the entry first.
-/
def Pending
    (n : Nat)
    (home : E → Nat)
    (cells : Nat → Option E)
    (c : Nat) : Prop :=
  ∀ p < n, ∀ e, cells p = some e →
    ∀ q < n, dist n (home e) q < dist n (home e) p →
      cells q = none → dist n c p < dist n c q

variable {n : Nat} {home : E → Nat} {keep : E → Prop}

/- Emptying a cell of a chained table starts a run. -/
theorem pending_vacate
    {cells : Nat → Option E}
    {i : Nat}
    (hChain : Chain n home cells)
    (hi : i < n) :
    Pending n home (vacate cells i) (next n i) := by
  intro p hp e hCell q hq hLt hNone
  rcases vacate_eq_some hCell with ⟨hpi, hOld⟩
  by_cases hqi : q = i
  · subst hqi
    exact dist_next_lt_self hi hp (Ne.symm hpi)
  · rw [vacate_of_ne cells hqi] at hNone
    exact absurd hNone (hChain p hp e hOld q hq hLt)

/- Taking out the cursor's entry moves the run on by one. -/
theorem Pending.vacate
    {cells : Nat → Option E}
    (hPending : Pending n home cells c)
    (hc : c < n) :
    Pending n home (vacate cells c) (next n c) := by
  intro p hp e hCell q hq hLt hNone
  rcases vacate_eq_some hCell with ⟨hpc, hOld⟩
  by_cases hqc : q = c
  · subst hqc
    exact dist_next_lt_self hc hp (Ne.symm hpc)
  · rw [vacate_of_ne cells hqc] at hNone
    have hOrder := hPending p hp e hOld q hq hLt hNone
    have hpStep := dist_next_left hc hp (Ne.symm hpc)
    have hqStep := dist_next_left hc hq (Ne.symm hqc)
    omega

variable {cells mid : Nat → Option E} {e x : E}

theorem Pending.reinsert
    {e : E}
    (hPending : Pending n home cells c)
    (hPut : Reinsert n home keep cells e mid) :
    Pending n home mid c := by
  cases hPut with
  | drop _ => exact hPending
  | place f _ hf hNone hWay =>
      intro p hp e' hCell q hq hLt hqNone
      have hqf : q ≠ f := by
        intro hEq
        subst hEq
        rw [fill_self] at hqNone
        cases hqNone
      rw [fill_of_ne cells e hqf] at hqNone
      rcases fill_eq_some hCell with ⟨hpf, hee⟩ | ⟨_, hOld⟩
      · subst hpf
        subst hee
        exact absurd hqNone (hWay q hq hLt)
      · exact hPending p hp e' hOld q hq hLt hqNone

/- At a vacant cursor no entry is pending any more. -/
theorem Pending.chain
    {cells : Nat → Option E}
    (hHomed : Homed n home)
    (hPending : Pending n home cells c)
    (hc : c < n)
    (hNone : cells c = none) :
    Chain n home cells := by
  intro p hp e hCell q hq hLt hqNone
  have hOrder := hPending p hp e hCell q hq hLt hqNone
  have hcp : c ≠ p := by
    intro hEq
    subst hEq
    rw [hNone] at hCell
    cases hCell
  -- The cursor stands between the vacant cell and the entry.
  have hcWay :=
    dist_lt_of_crossing (hHomed e) hq hp hc hLt hOrder hcp
  have hAbsurd := hPending p hp e hCell c hc hcWay hNone
  rw [dist_self] at hAbsurd
  omega

theorem CloseGap.chain
    {cells final : Nat → Option E}
    (hHomed : Homed n home)
    (hRun : CloseGap n home keep cells c final)
    (hc : c < n)
    (hPending : Pending n home cells c) :
    Chain n home final := by
  induction hRun with
  | stop hNone =>
      exact hPending.chain hHomed hc hNone
  | step hCell hPut _ ih =>
      apply ih (next_lt (by omega) _)
      exact (hPending.vacate hc).reinsert hPut

/- An entry after the reinsertion is an old one or `e`. -/
theorem Reinsert.cell
    (hPut : Reinsert n home keep cells e mid)
    (hCell : mid p = some x) :
    cells p = some x ∨ (x = e ∧ keep e) := by
  cases hPut with
  | drop _ => exact Or.inl hCell
  | place f hKeep hf _ _ =>
      rcases fill_eq_some hCell with ⟨_, hxe⟩ | ⟨_, hOld⟩
      · exact Or.inr ⟨hxe, hKeep⟩
      · exact Or.inl hOld

/- Reinsertion never overwrites another entry. -/
theorem Reinsert.cell_of
    (hPut : Reinsert n home keep cells e mid)
    (hCell : cells p = some x) :
    mid p = some x := by
  cases hPut with
  | drop _ => exact hCell
  | place f _ hf hNone _ =>
      have hpf : p ≠ f := by
        intro hEq
        rw [hEq, hNone] at hCell
        cases hCell
      rw [fill_of_ne cells e hpf, hCell]

theorem Reinsert.holds
    (hPut : Reinsert n home keep cells e mid)
    (hHolds : Holds n mid x) :
    Holds n cells x ∨ (x = e ∧ keep e) := by
  rcases hHolds with ⟨p, hp, hCell⟩
  rcases hPut.cell hCell with hOld | hNew
  · exact Or.inl ⟨p, hp, hOld⟩
  · exact Or.inr hNew

theorem Reinsert.holds_old
    (hPut : Reinsert n home keep cells e mid)
    (hHolds : Holds n cells x) :
    Holds n mid x := by
  rcases hHolds with ⟨p, hp, hCell⟩
  exact ⟨p, hp, hPut.cell_of hCell⟩

theorem Reinsert.holds_new
    {e : E}
    (hPut : Reinsert n home keep cells e mid)
    (hKeep : keep e) :
    Holds n mid e := by
  cases hPut with
  | drop hDrop => exact absurd hKeep hDrop
  | place f _ hf _ _ =>
      exact ⟨f, hf, fill_self cells f e⟩

/- A run invents no entry. -/
theorem CloseGap.holds
    {cells final : Nat → Option E}
    {x : E}
    (hRun : CloseGap n home keep cells c final)
    (hc : c < n)
    (hHolds : Holds n final x) :
    Holds n cells x := by
  induction hRun with
  | stop _ => exact hHolds
  | step hCell hPut _ ih =>
      have hMid := ih (next_lt (by omega) _) hHolds
      rcases hPut.holds hMid with hOld | ⟨hxe, _⟩
      · rcases hOld with ⟨p, hp, hSome⟩
        exact ⟨p, hp, (vacate_eq_some hSome).2⟩
      · subst hxe
        exact ⟨_, hc, hCell⟩

/- A run loses no entry that is kept. -/
theorem CloseGap.holds_keep
    {cells final : Nat → Option E}
    {x : E}
    (hRun : CloseGap n home keep cells c final)
    (hc : c < n)
    (hKeep : keep x)
    (hHolds : Holds n cells x) :
    Holds n final x := by
  induction hRun with
  | stop _ => exact hHolds
  | @step cells mid final c e hCell hPut _ ih =>
      apply ih (next_lt (by omega) _)
      rcases hHolds with ⟨p, hp, hSome⟩
      by_cases hpc : p = c
      · subst hpc
        rw [hCell] at hSome
        cases hSome
        exact hPut.holds_new hKeep
      · apply hPut.holds_old
        exact ⟨p, hp, by rw [vacate_of_ne cells hpc, hSome]⟩

/- Taking an entry out and putting it back keeps keys apart. -/
theorem Reinsert.distinct
    {same : E → E → Prop}
    {cells mid : Nat → Option E}
    {e : E}
    (hSymm : ∀ a b, same a b → same b a)
    (hc : c < n)
    (hCell : cells c = some e)
    (hPut : Reinsert n home keep (vacate cells c) e mid)
    (hDistinct : Distinct n same cells) :
    Distinct n same mid := by
  cases hPut with
  | drop _ => exact distinct_vacate hDistinct
  | place f _ _ _ _ =>
      apply distinct_fill hSymm (distinct_vacate hDistinct)
      intro q hq e' hSome hSame
      rcases vacate_eq_some hSome with ⟨hqc, hOld⟩
      exact hqc
        (hDistinct c hc q hq e e' hCell hOld hSame).symm

theorem CloseGap.distinct
    {same : E → E → Prop}
    {cells final : Nat → Option E}
    (hSymm : ∀ a b, same a b → same b a)
    (hRun : CloseGap n home keep cells c final)
    (hc : c < n)
    (hDistinct : Distinct n same cells) :
    Distinct n same final := by
  induction hRun with
  | stop _ => exact hDistinct
  | step hCell hPut _ ih =>
      apply ih (next_lt (by omega) _)
      exact hPut.distinct hSymm hc hCell hDistinct

/- What one cell contributes to the potential. -/
def weight
    (n : Nat)
    (home : E → Nat)
    (cells : Nat → Option E)
    (p : Nat) : Nat :=
  match cells p with
  | none => 0
  | some e => dist n (home e) p + 1

/-
  The total displacement of the entries, each entry counting
  one more than its own displacement.
-/
def potential
    (n : Nat)
    (home : E → Nat)
    (cells : Nat → Option E) : Nat :=
  ∑ p ∈ Finset.range n, weight n home cells p

theorem potential_fill
    {cells : Nat → Option E}
    (e : E)
    (hf : f < n)
    (hNone : cells f = none) :
    potential n home (fill cells f e) =
      potential n home cells + (dist n (home e) f + 1) := by
  unfold potential
  have hMem : f ∈ Finset.range n := Finset.mem_range.mpr hf
  rw [← Finset.add_sum_erase _ _ hMem,
    ← Finset.add_sum_erase _ (weight n home cells) hMem]
  have hRest :
      ∑ p ∈ (Finset.range n).erase f,
          weight n home (fill cells f e) p =
        ∑ p ∈ (Finset.range n).erase f,
          weight n home cells p := by
    apply Finset.sum_congr rfl
    intro p hp
    unfold weight
    rw [fill_of_ne cells e (Finset.ne_of_mem_erase hp)]
  have hOld : weight n home cells f = 0 := by
    simp [weight, hNone]
  have hNew :
      weight n home (fill cells f e) f =
        dist n (home e) f + 1 := by
    simp [weight]
  rw [hRest, hOld, hNew]
  omega

theorem potential_vacate
    {cells : Nat → Option E}
    {e : E}
    (hc : c < n)
    (hCell : cells c = some e) :
    potential n home (vacate cells c) +
        (dist n (home e) c + 1) =
      potential n home cells := by
  have hFill :
      potential n home (fill (vacate cells c) c e) =
        potential n home (vacate cells c) +
          (dist n (home e) c + 1) :=
    potential_fill e hc (vacate_self cells c)
  rw [fill_vacate hCell] at hFill
  exact hFill.symm

theorem potential_le
    (hHomed : Homed n home)
    (cells : Nat → Option E) :
    potential n home cells ≤ n * n := by
  unfold potential
  have hCell :
      ∀ p ∈ Finset.range n, weight n home cells p ≤ n := by
    intro p hp
    unfold weight
    cases hSome : cells p with
    | none => exact Nat.zero_le n
    | some e =>
        have hDist :=
          dist_lt (hHomed e) (Finset.mem_range.mp hp)
        exact hDist
  have hSum := Finset.sum_le_card_nsmul _ _ n hCell
  simpa using hSum

/-
  The rank of a run with cursor `c` whose nearest known
  vacant cell is `v`.
-/
def gapRank
    (n : Nat)
    (home : E → Nat)
    (cells : Nat → Option E)
    (c v : Nat) : Nat :=
  potential n home cells * n + dist n c v

theorem gapRank_lt
    (hHomed : Homed n home)
    (cells : Nat → Option E)
    (hc : c < n)
    (hv : v < n) :
    gapRank n home cells c v < n * n * n + n := by
  unfold gapRank
  have hPot := potential_le hHomed cells
  have hMul := Nat.mul_le_mul_right n hPot
  have hDist := dist_lt hc hv
  omega

/-
  Each reinsertion lowers the rank: the entry goes back where
  it was and the cursor comes nearer to the vacant cell, or
  the total displacement shrinks and the cursor's own cell
  is the new vacant one.
-/
theorem gapRank_step
    {e : E}
    (hc : c < n)
    (hv : v < n)
    (hvNone : cells v = none)
    (hCell : cells c = some e)
    (hHomed : Homed n home)
    (hPut : Reinsert n home keep (vacate cells c) e mid) :
    ∃ v' < n, mid v' = none ∧
      gapRank n home mid (next n c) v' <
        gapRank n home cells c v := by
  have hVacate :
      potential n home (vacate cells c) +
          (dist n (home e) c + 1) =
        potential n home cells :=
    potential_vacate hc hCell
  have hSelf := dist_next_self hc
  cases hPut with
  | drop _ =>
      refine ⟨c, hc, vacate_self cells c, ?_⟩
      unfold gapRank
      have hLe :
          potential n home (vacate cells c) + 1 ≤
            potential n home cells := by
        omega
      have hMul := Nat.mul_le_mul_right n hLe
      rw [Nat.add_mul] at hMul
      omega
  | place f _ hf hNone hWay =>
      have hFill :
          potential n home (fill (vacate cells c) f e) =
            potential n home (vacate cells c) +
              (dist n (home e) f + 1) :=
        potential_fill e hf hNone
      by_cases hfc : f = c
      · subst hfc
        rw [fill_vacate hCell]
        have hfv : f ≠ v := by
          intro hEq
          subst hEq
          rw [hCell] at hvNone
          cases hvNone
        refine ⟨v, hv, hvNone, ?_⟩
        unfold gapRank
        have hStep := dist_next_left hc hv hfv
        omega
      · have hLt :=
          dist_lt_of_first (hHomed e) hf hc hfc hWay
        refine ⟨c, hc, ?_, ?_⟩
        · rw [fill_of_ne _ e (Ne.symm hfc), vacate_self]
        · unfold gapRank
          have hLe :
              potential n home (fill (vacate cells c) f e) +
                  1 ≤
                potential n home cells := by
            omega
          have hMul := Nat.mul_le_mul_right n hLe
          rw [Nat.add_mul] at hMul
          omega

end LinearProbing
