import QuicSniRouter.LinearProbing.Delete

/-
  Where the entries go when a gap is closed.  A cut is a
  position that no entry has stepped over on its way; with a
  cut the ring reads as a line, entries only move toward the
  front of that line, and never past the deleted cell.  A
  run is a stretch of used cells: the entries that a
  deletion reinserts are those of the run behind it.

  Main declarations:
    * `Cut` and `cut_fill`
    * `Drift` and `CloseGap.drift`
    * `Run`
    * `CloseGap.keepAll`
    * `CloseGap.not_holds`
-/

------------------------------------------------------------
-- Cuts
------------------------------------------------------------

namespace LinearProbing

variable {E : Type} {n : Nat} {home : E → Nat}
variable {keep : E → Prop} {z i c j a : Nat}

/- No entry has stepped over `z` on its way. -/
def Cut
    (n : Nat)
    (home : E → Nat)
    (cells : Nat → Option E)
    (z : Nat) : Prop :=
  ∀ p < n, ∀ e, cells p = some e →
    ¬ dist n (home e) z < dist n (home e) p

variable {cells : Nat → Option E}

theorem cut_of_vacant
    (hChain : Chain n home cells)
    (hz : z < n)
    (hNone : cells z = none) :
    Cut n home cells z := by
  intro p hp e hCell hLt
  exact hChain p hp e hCell z hz hLt hNone

/- The cell that was filled last is a cut. -/
theorem cut_fill
    {f : Nat}
    (e : E)
    (hChain : Chain n home cells)
    (hf : f < n)
    (hNone : cells f = none) :
    Cut n home (fill cells f e) f := by
  intro p hp e' hCell hLt
  rcases fill_eq_some hCell with ⟨hpf, _⟩ | ⟨_, hOld⟩
  · subst hpf
    omega
  · exact cut_of_vacant hChain hf hNone p hp e' hOld hLt

theorem Cut.replace
    {e e' : E}
    (hCut : Cut n home cells z)
    (hCell : cells i = some e)
    (hHome : home e' = home e) :
    Cut n home (fill cells i e') z := by
  intro p hp a hSome
  rcases fill_eq_some hSome with ⟨hpi, hae⟩ | ⟨_, hOld⟩
  · subst hpi
    subst hae
    rw [hHome]
    exact hCut p hp e hCell
  · exact hCut p hp a hOld

theorem Cut.vacate
    (hCut : Cut n home cells z) :
    Cut n home (vacate cells i) z := by
  intro p hp e hCell
  exact hCut p hp e (vacate_eq_some hCell).2

/- A run never uses more cells than it started with. -/
theorem CloseGap.used_le
    {cells final : Nat → Option E}
    (hRun : CloseGap n home keep cells c final)
    (hc : c < n) :
    used n final ≤ used n cells := by
  induction hRun with
  | stop _ => exact Nat.le_refl _
  | @step cells mid final c e hCell hPut _ ih =>
      have hRest := ih (next_lt (by omega) _)
      have hVacate := used_vacate hc hCell
      cases hPut with
      | drop _ => omega
      | place f _ hf hNone _ =>
          have hFill := used_fill e hf hNone
          omega

/- A run that keeps every entry uses as many as before. -/
theorem CloseGap.used_eq
    {cells final : Nat → Option E}
    (hRun : CloseGap n home (fun _ => True) cells c final)
    (hc : c < n) :
    used n final = used n cells := by
  induction hRun with
  | stop _ => rfl
  | @step cells mid final c e hCell hPut _ ih =>
      have hRest := ih (next_lt (by omega) _)
      have hVacate := used_vacate hc hCell
      cases hPut with
      | drop hDrop => exact absurd trivial hDrop
      | place f _ hf hNone _ =>
          have hFill := used_fill e hf hNone
          omega

/-
  How far a run that closes the gap at `i` has moved the
  entries of `start`, on the line that begins behind the cut
  `z`: an entry either stands where it stood or has come
  nearer to the front without passing `i`.
-/
structure Drift
    (n : Nat)
    (home : E → Nat)
    (start : Nat → Option E)
    (z i : Nat)
    (cells : Nat → Option E) : Prop where
  cut : Cut n home cells z
  late :
    ∀ p < n, ∀ e, cells p = some e →
      ∀ q < n, dist n (home e) q < dist n (home e) p →
        cells q = none →
          dist n (next n z) i ≤ dist n (next n z) q
  origin :
    ∀ p < n, ∀ e, cells p = some e →
      ∃ p₀ < n, start p₀ = some e ∧
        (p = p₀ ∨
          (dist n (next n z) i ≤ dist n (next n z) p ∧
            dist n (next n z) p < dist n (next n z) p₀))

theorem drift_vacate
    (hChain : Chain n home cells)
    (hCut : Cut n home cells z) :
    Drift n home cells z i (vacate cells i) where
  cut := hCut.vacate
  late := by
    intro p hp e hCell q hq hLt hNone
    by_cases hqi : q = i
    · rw [hqi]
    · rw [vacate_of_ne cells hqi] at hNone
      exact absurd hNone
        (hChain p hp e (vacate_eq_some hCell).2 q hq hLt)
  origin := by
    intro p hp e hCell
    exact ⟨p, hp, (vacate_eq_some hCell).2, Or.inl rfl⟩

theorem Drift.step
    {start cells mid : Nat → Option E}
    {z i c : Nat}
    {e : E}
    (hHomed : Homed n home)
    (hDrift : Drift n home start z i cells)
    (hz : z < n)
    (hc : c < n)
    (hCell : cells c = some e)
    (hKeep : keep e)
    (hPut : Reinsert n home keep (vacate cells c) e mid) :
    Drift n home start z i mid := by
  cases hPut with
  | drop hDrop => exact absurd hKeep hDrop
  | place f _ hf hNone hWay =>
      by_cases hfc : f = c
      · subst hfc
        rw [fill_vacate hCell]
        exact hDrift
      · have hfNone : cells f = none := by
          rw [vacate_of_ne cells hfc] at hNone
          exact hNone
        have hfWay :=
          dist_lt_of_first (hHomed e) hf hc hfc hWay
        have hfLate :=
          hDrift.late c hc e hCell f hf hfWay hfNone
        have hfc' :=
          dist_lt_of_cut (hHomed e) hf hz
            (hDrift.cut c hc e hCell) hfWay
        constructor
        · intro p hp e' hSome hLt
          rcases fill_eq_some hSome with
            ⟨hpf, hee⟩ | ⟨_, hOld⟩
          · subst hpf
            subst hee
            exact hDrift.cut c hc _ hCell (by omega)
          · exact hDrift.cut p hp e'
              (vacate_eq_some hOld).2 hLt
        · intro p hp e' hSome q hq hLt hqNone
          have hqf : q ≠ f := by
            intro hEq
            subst hEq
            rw [fill_self] at hqNone
            cases hqNone
          rw [fill_of_ne _ e hqf] at hqNone
          rcases fill_eq_some hSome with
            ⟨hpf, hee⟩ | ⟨_, hOld⟩
          · subst hpf
            subst hee
            exact absurd hqNone (hWay q hq hLt)
          · by_cases hqc : q = c
            · subst hqc
              omega
            · rw [vacate_of_ne cells hqc] at hqNone
              exact hDrift.late p hp e'
                (vacate_eq_some hOld).2 q hq hLt hqNone
        · intro p hp e' hSome
          rcases fill_eq_some hSome with
            ⟨hpf, hee⟩ | ⟨_, hOld⟩
          · subst hpf
            subst hee
            rcases hDrift.origin c hc _ hCell with
              ⟨p₀, hp₀, hStart, hEq | ⟨_, hLt⟩⟩
            · subst hEq
              exact ⟨c, hp₀, hStart, Or.inr ⟨hfLate, hfc'⟩⟩
            · exact ⟨p₀, hp₀, hStart,
                Or.inr ⟨hfLate, by omega⟩⟩
          · exact hDrift.origin p hp e'
              (vacate_eq_some hOld).2

/- A run that keeps every entry only drifts. -/
theorem CloseGap.drift
    {start cells final : Nat → Option E}
    (hHomed : Homed n home)
    (hRun : CloseGap n home (fun _ => True) cells c final)
    (hz : z < n)
    (hc : c < n)
    (hDrift : Drift n home start z i cells) :
    Drift n home start z i final := by
  induction hRun with
  | stop _ => exact hDrift
  | step hCell hPut _ ih =>
      apply ih (next_lt (by omega) _)
      exact hDrift.step hHomed hz hc hCell trivial hPut

/-
  Whoever walks the ring from `c` to the deleted position
  finds, after the run, only entries on the way that stood
  on the way before.
-/
theorem Drift.behind
    {start cells : Nat → Option E}
    {p : Nat}
    {e : E}
    (hDrift : Drift n home start z i cells)
    (hi : i < n)
    (hc : c < n)
    (hp : p < n)
    (hBefore : dist n c p < dist n c i)
    (hCell : cells p = some e) :
    ∃ p₀ < n,
      dist n c p₀ < dist n c i ∧ start p₀ = some e := by
  rcases hDrift.origin p hp e hCell with
    ⟨p₀, hp₀, hStart, hEq | ⟨hLate, hLt⟩⟩
  · rw [hEq] at hBefore
    exact ⟨p₀, hp₀, hBefore, hStart⟩
  · have hLine := next_lt (show 0 < n by omega) z
    exact ⟨p₀, hp₀,
      dist_lt_of_line hc hLine hi hp hp₀ hLate hLt hBefore,
      hStart⟩

------------------------------------------------------------
-- Runs Of Used Cells
------------------------------------------------------------

/- All cells from `i` up to and including `j` are used. -/
def Run
    (n : Nat)
    (cells : Nat → Option E)
    (i j : Nat) : Prop :=
  ∀ x < n, dist n i x ≤ dist n i j → cells x ≠ none

/- Without its first cell, a run begins one cell later. -/
theorem Run.vacate_next
    (hRun : Run n cells c j)
    (hc : c < n)
    (hj : j < n)
    (hcj : c ≠ j) :
    Run n (vacate cells c) (next n c) j := by
  intro x hx hLe
  have hjStep := dist_next_left hc hj hcj
  have hcx : c ≠ x := by
    intro hEq
    subst hEq
    have hSelf := dist_next_lt_self hc hj hcj
    omega
  have hxStep := dist_next_left hc hx hcx
  rw [vacate_of_ne cells (Ne.symm hcx)]
  exact hRun x hx (by omega)

theorem Run.reinsert
    {cells mid : Nat → Option E}
    {e : E}
    (hRun : Run n cells c j)
    (hPut : Reinsert n home keep cells e mid) :
    Run n mid c j := by
  intro x hx hLe
  rcases Option.ne_none_iff_exists'.mp (hRun x hx hLe) with
    ⟨a, hCell⟩
  rw [hPut.cell_of hCell]
  exact Option.some_ne_none a

/- An entry of the run that is refused is lost. -/
theorem CloseGap.not_holds
    {cells final : Nat → Option E}
    {e : E}
    (hRun : CloseGap n home keep cells c final)
    (hc : c < n)
    (hj : j < n)
    (hUsed : Run n cells c j)
    (hCell : cells j = some e)
    (hOnly : ∀ q < n, cells q = some e → q = j)
    (hDrop : ¬ keep e) :
    ¬ Holds n final e := by
  induction hRun with
  | stop hNone =>
      exact absurd hNone (hUsed _ hc (by simp))
  | @step cells mid final c a hCursor hPut hRest ih =>
      by_cases hcj : c = j
      · subst hcj
        rw [hCursor] at hCell
        cases hCell
        cases hPut with
        | place _ hKeep _ _ _ => exact absurd hKeep hDrop
        | drop _ =>
            intro hHolds
            have hMid :=
              hRest.holds (next_lt (by omega) _) hHolds
            rcases hMid with ⟨q, hq, hSome⟩
            rcases vacate_eq_some hSome with ⟨hqc, hOld⟩
            exact hqc (hOnly q hq hOld)
      · have hae : a ≠ e := by
          intro hEq
          subst hEq
          exact hcj (hOnly c hc hCursor)
        have hjVac : vacate cells c j = some e := by
          rw [vacate_of_ne cells (Ne.symm hcj), hCell]
        apply ih (next_lt (by omega) _)
        · exact (hUsed.vacate_next hc hj hcj).reinsert hPut
        · exact hPut.cell_of hjVac
        · intro q hq hSome
          rcases hPut.cell hSome with hOld | ⟨hEq, _⟩
          · exact hOnly q hq (vacate_eq_some hOld).2
          · exact absurd hEq.symm hae

/-
  What a run that closes the gap at `i` leaves alone: it
  uses no new cell, changes nothing outside the run of used
  cells behind `i`, and the vacant cells on the entries'
  ways belong to that run.
-/
structure Inside
    (n : Nat)
    (home : E → Nat)
    (start : Nat → Option E)
    (i : Nat)
    (cells : Nat → Option E) : Prop where
  used : ∀ x < n, cells x ≠ none → start x ≠ none
  outside :
    ∀ x < n, ¬ Run n start i x → cells x = start x
  gaps :
    ∀ p < n, ∀ e, cells p = some e →
      ∀ q < n, dist n (home e) q < dist n (home e) p →
        cells q = none → Run n start i q

theorem run_self
    (hi : i < n)
    (hUsed : cells i ≠ none) :
    Run n cells i i := by
  intro x hx hLe
  rw [dist_self] at hLe
  have hEq : dist n i i = dist n i x := by
    rw [dist_self]
    omega
  rw [← dist_inj hi hi hx hEq]
  exact hUsed

/- Emptying a cell of the run changes nothing outside it. -/
theorem Inside.vacate
    {start cells : Nat → Option E}
    (hInside : Inside n home start i cells)
    (hRunC : Run n start i c) :
    Inside n home start i (vacate cells c) := by
  constructor
  · intro x hx hNe
    apply hInside.used x hx
    intro hNone
    apply hNe
    by_cases hxc : x = c
    · rw [hxc, vacate_self]
    · rw [vacate_of_ne cells hxc, hNone]
  · intro x hx hOut
    have hxc : x ≠ c := by
      intro hEq
      subst hEq
      exact hOut hRunC
    rw [vacate_of_ne cells hxc]
    exact hInside.outside x hx hOut
  · intro p hp e hCell q hq hLt hNone
    by_cases hqc : q = c
    · rw [hqc]
      exact hRunC
    · rw [vacate_of_ne cells hqc] at hNone
      exact hInside.gaps p hp e (vacate_eq_some hCell).2 q
        hq hLt hNone

theorem inside_vacate
    (hChain : Chain n home cells)
    (hi : i < n)
    (hUsed : cells i ≠ none) :
    Inside n home cells i (vacate cells i) := by
  have hSame : Inside n home cells i cells := by
    refine ⟨fun _ _ h => h, fun _ _ _ => rfl, ?_⟩
    intro p hp e hCell q hq hLt hNone
    exact absurd hNone (hChain p hp e hCell q hq hLt)
  exact hSame.vacate (run_self hi hUsed)

theorem Inside.step
    {start cells mid : Nat → Option E}
    {i c : Nat}
    {e : E}
    (hHomed : Homed n home)
    (hInside : Inside n home start i cells)
    (hc : c < n)
    (hCell : cells c = some e)
    (hRunC : Run n start i c)
    (hPut : Reinsert n home keep (LinearProbing.vacate cells c)
      e mid) :
    Inside n home start i mid := by
  have hVacated := hInside.vacate hRunC
  cases hPut with
  | drop _ => exact hVacated
  | place f _ hf hNone hWay =>
      have hRunF : Run n start i f := by
        by_cases hfc : f = c
        · rw [hfc]
          exact hRunC
        · rw [vacate_of_ne cells hfc] at hNone
          exact hInside.gaps c hc e hCell f hf
            (dist_lt_of_first (hHomed e) hf hc hfc hWay)
            hNone
      constructor
      · intro x hx hNe
        by_cases hxf : x = f
        · subst hxf
          exact hRunF x hx (Nat.le_refl _)
        · rw [fill_of_ne _ e hxf] at hNe
          exact hVacated.used x hx hNe
      · intro x hx hOut
        have hxf : x ≠ f := by
          intro hEq
          subst hEq
          exact hOut hRunF
        rw [fill_of_ne _ e hxf]
        exact hVacated.outside x hx hOut
      · intro p hp e' hSome q hq hLt hqNone
        have hqf : q ≠ f := by
          intro hEq
          subst hEq
          rw [fill_self] at hqNone
          cases hqNone
        rw [fill_of_ne _ e hqf] at hqNone
        rcases fill_eq_some hSome with ⟨hpf, hee⟩ | ⟨_, hOld⟩
        · subst hpf
          subst hee
          exact absurd hqNone (hWay q hq hLt)
        · exact hVacated.gaps p hp e' hOld q hq hLt hqNone

/- The cells between `i` and the cursor were used. -/
def Reached
    (n : Nat)
    (start : Nat → Option E)
    (i c : Nat) : Prop :=
  ∀ x < n, dist n i x < dist n i c → start x ≠ none

theorem Reached.run
    {start : Nat → Option E}
    (hReached : Reached n start i c)
    (hi : i < n)
    (hc : c < n)
    (hUsed : start c ≠ none) :
    Run n start i c := by
  intro x hx hLe
  by_cases hxc : x = c
  · rw [hxc]
    exact hUsed
  · apply hReached x hx
    have hNe : dist n i x ≠ dist n i c := fun hEq =>
      hxc (dist_inj hi hx hc hEq)
    omega

theorem Run.reached
    {start : Nat → Option E}
    (hRunC : Run n start i c)
    (hi : i < n)
    (hc : c < n) :
    Reached n start i (next n c) := by
  intro x hx hLt
  apply hRunC x hx
  by_cases hWrap : next n c = i
  · rw [hWrap, dist_self] at hLt
    omega
  · rw [next_eq hc] at hLt hWrap
    unfold dist at hLt ⊢
    split_ifs at hLt hWrap ⊢ <;> omega

/- Closing the gap at `i` stays inside the run behind it. -/
theorem CloseGap.inside
    {start cells final : Nat → Option E}
    (hHomed : Homed n home)
    (hRun : CloseGap n home keep cells c final)
    (hi : i < n)
    (hc : c < n)
    (hInside : Inside n home start i cells)
    (hReached : Reached n start i c) :
    Inside n home start i final := by
  induction hRun with
  | stop _ => exact hInside
  | @step cells mid final c e hCell hPut _ ih =>
      have hUsed :=
        hInside.used c hc
          (by rw [hCell]; exact Option.some_ne_none e)
      have hRunC := hReached.run hi hc hUsed
      exact ih (next_lt (by omega) c)
        (hInside.step hHomed hc hCell hRunC hPut)
        (hRunC.reached hi hc)

/-
  If every entry of the run behind `i` is kept, then nothing
  is dropped, and what is in those cells later is kept too.
-/
theorem CloseGap.keepAll
    {start cells final : Nat → Option E}
    (hHomed : Homed n home)
    (hRun : CloseGap n home keep cells c final)
    (hi : i < n)
    (hc : c < n)
    (hInside : Inside n home start i cells)
    (hReached : Reached n start i c)
    (hKept :
      ∀ x < n, Run n start i x →
        ∀ e, cells x = some e → keep e) :
    CloseGap n home (fun _ => True) cells c final ∧
      ∀ x < n, Run n start i x →
        ∀ e, final x = some e → keep e := by
  induction hRun with
  | stop hNone => exact ⟨CloseGap.stop hNone, hKept⟩
  | @step cells mid final c e hCell hPut _ ih =>
      have hUsed :=
        hInside.used c hc
          (by rw [hCell]; exact Option.some_ne_none e)
      have hRunC := hReached.run hi hc hUsed
      have hKeep := hKept c hc hRunC e hCell
      have hNext := hInside.step hHomed hc hCell hRunC hPut
      cases hPut with
      | drop hDrop => exact absurd hKeep hDrop
      | place f _ hf hNone hWay =>
          have hKept' :
              ∀ x < n, Run n start i x →
                ∀ a, fill (vacate cells c) f e x = some a →
                  keep a := by
            intro x hx hRunX a hSome
            rcases fill_eq_some hSome with
              ⟨_, hae⟩ | ⟨_, hOld⟩
            · rw [hae]
              exact hKeep
            · exact hKept x hx hRunX a (vacate_eq_some hOld).2
          rcases ih (next_lt (by omega) c) hNext
              (hRunC.reached hi hc) hKept' with
            ⟨hRest, hFinal⟩
          exact ⟨CloseGap.step hCell
            (Reinsert.place f trivial hf hNone hWay) hRest,
            hFinal⟩

/-
  Every entry in the run behind a selected entry is kept, so
  that deleting selected entries loses no other entry.
-/
def RunsKept
    (n : Nat)
    (keep sel : E → Prop)
    (cells : Nat → Option E) : Prop :=
  ∀ i < n, ∀ a, cells i = some a → sel a →
    ∀ j < n, Run n cells i j → ∀ e, cells j = some e → keep e

/- Two runs that meet reach as far as either of them. -/
theorem Run.append
    {start cells : Nat → Option E}
    (hi : i < n)
    (ha : a < n)
    (hUsed : ∀ x < n, cells x ≠ none → start x ≠ none)
    (hFirst : Run n start i a)
    (hSecond : Run n cells a j) :
    Run n start i j := by
  intro x hx hLe
  by_cases hxa : dist n i x ≤ dist n i a
  · exact hFirst x hx hxa
  · apply hUsed x hx
    apply hSecond x hx
    unfold dist at *
    split_ifs at * <;> omega

/- A run that another one does not reach is left as it is. -/
theorem Inside.run_outside
    {start cells : Nat → Option E}
    (hi : i < n)
    (ha : a < n)
    (hj : j < n)
    (hInside : Inside n home start i cells)
    (hRun : Run n start a j)
    (hOut : ¬ Run n start i j) :
    cells a = start a ∧ cells j = start j ∧
      Run n cells a j := by
  have hBetween :
      ∀ x < n, dist n a x ≤ dist n a j →
        cells x = start x := by
    intro x hx hLe
    apply hInside.outside x hx
    intro hRunX
    apply hOut
    apply hRunX.append hi hx (fun _ _ h => h)
    intro y hy hDist
    apply hRun y hy
    unfold dist at *
    split_ifs at * <;> omega
  refine ⟨hBetween a ha (by rw [dist_self]; omega),
    hBetween j hj (Nat.le_refl _), ?_⟩
  intro x hx hLe
  rw [hBetween x hx hLe]
  exact hRun x hx hLe

end LinearProbing
