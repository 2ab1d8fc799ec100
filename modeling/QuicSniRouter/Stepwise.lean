import Mathlib.Data.List.Forall2
import Mathlib.Data.List.Basic

/-
  Loops that read one item after the other and may fail.  If
  each round reads what an item stands for and acts on it,
  the loop reads what all items stand for and acts on that,
  in order.

  Main declarations:
    * `Stepwise.foldlM_eq_ok_iff`
    * `Stepwise.foldlM_flatten`
-/

namespace Stepwise

variable {ε σ α β : Type} {b : β} {act : σ → α → Except ε σ}
variable {start final : σ} {reads : α → β → Prop}

theorem bind_eq_ok
    {first : Except ε α}
    {rest : α → Except ε β} :
    first >>= rest = .ok b ↔
      ∃ a, first = .ok a ∧ rest a = .ok b := by
  cases first with
  | error e =>
      constructor
      · intro hBind
        cases hBind
      · rintro ⟨a, hFirst, _⟩
        cases hFirst
  | ok a =>
      constructor
      · intro hBind
        exact ⟨a, rfl, hBind⟩
      · rintro ⟨other, hFirst, hRest⟩
        cases hFirst
        exact hRest

/- A check that must not apply. -/
theorem guard_eq_ok
    {condition : Prop}
    [Decidable condition]
    {e : ε}
    {onFail : α → Except ε β}
    {rest : Except ε β} :
    (if condition then
      (throw e : Except ε α) >>= onFail
    else
      rest) = .ok b ↔
      ¬ condition ∧ rest = .ok b := by
  by_cases hFails : condition
  · rw [if_pos hFails]
    constructor
    · intro hOk
      cases hOk
    · rintro ⟨hNot, _⟩
      exact absurd hFails hNot
  · rw [if_neg hFails]
    exact ⟨fun hOk => ⟨hFails, hOk⟩, fun hOk => hOk.2⟩

/- A loop over two lists is two loops. -/
theorem foldlM_append_eq_ok
    {first second : List α} :
    (first ++ second).foldlM act start = .ok final ↔
      ∃ middle, first.foldlM act start = .ok middle ∧
        second.foldlM act middle = .ok final := by
  rw [List.foldlM_append]
  exact bind_eq_ok

theorem foldlM_singleton
    {item : α} :
    [item].foldlM act start = .ok final ↔
      act start item = .ok final := by
  rw [List.foldlM_cons, bind_eq_ok]
  constructor
  · rintro ⟨middle, hAct, hDone⟩
    cases hDone
    exact hAct
  · intro hAct
    exact ⟨final, hAct, rfl⟩

/- Items that each stand for one thing to act on. -/
theorem foldlM_eq_ok_iff
    {step : σ → α → Except ε σ}
    {act : σ → β → Except ε σ}
    (hStep :
      ∀ start item final,
        step start item = .ok final ↔
          ∃ thing, reads item thing ∧
            act start thing = .ok final)
    (items : List α)
    (start final : σ) :
    items.foldlM step start = .ok final ↔
      ∃ things : List β,
        List.Forall₂ reads items things ∧
          things.foldlM act start = .ok final := by
  induction items generalizing start with
  | nil =>
      constructor
      · intro hDone
        exact ⟨[], List.Forall₂.nil, hDone⟩
      · rintro ⟨things, hThings, hDone⟩
        cases hThings
        exact hDone
  | cons item items ih =>
      rw [List.foldlM_cons, bind_eq_ok]
      constructor
      · rintro ⟨middle, hFirst, hRest⟩
        rcases (hStep start item middle).mp hFirst with
          ⟨thing, hReads, hAct⟩
        rcases (ih middle).mp hRest with
          ⟨things, hThings, hDone⟩
        refine ⟨thing :: things,
          List.Forall₂.cons hReads hThings, ?_⟩
        rw [List.foldlM_cons]
        exact bind_eq_ok.mpr ⟨middle, hAct, hDone⟩
      · rintro ⟨things, hThings, hDone⟩
        cases hThings with
        | cons hReads hThings =>
            rw [List.foldlM_cons] at hDone
            rcases bind_eq_ok.mp hDone with
              ⟨middle, hAct, hRest⟩
            exact ⟨middle,
              (hStep start item middle).mpr
                ⟨_, hReads, hAct⟩,
              (ih middle).mpr ⟨_, hThings, hRest⟩⟩

/- Acting on lists in turn is acting on all they hold. -/
theorem foldlM_flatten
    (act : σ → α → Except ε σ)
    (parts : List (List α))
    (start : σ) :
    parts.foldlM (fun s part => part.foldlM act s) start =
      parts.flatten.foldlM act start := by
  induction parts generalizing start with
  | nil => rfl
  | cons part parts ih =>
      rw [List.foldlM_cons, List.flatten_cons,
        List.foldlM_append]
      congr 1
      funext middle
      exact ih middle

/- Whatever was read stands for some item. -/
theorem exists_of_mem_right
    {items : List α}
    {things : List β}
    {thing : β}
    (hAll : List.Forall₂ reads items things)
    (hIn : thing ∈ things) :
    ∃ item ∈ items, reads item thing := by
  induction hAll with
  | nil => cases hIn
  | cons hReads _ ih =>
      rcases List.mem_cons.mp hIn with hEq | hLater
      · subst hEq
        exact ⟨_, List.mem_cons_self, hReads⟩
      · rcases ih hLater with ⟨item, hItem, hReads⟩
        exact ⟨item, List.mem_cons_of_mem _ hItem, hReads⟩

end Stepwise
