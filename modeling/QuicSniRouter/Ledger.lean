import Mathlib.Data.Set.Insert
import Mathlib.Data.List.Count

/-
  A ledger of resources whose names are used again: a name
  is acquired while it is not held and released while it is
  held.  Read name by name, the ledger alternates.

  Main declarations:
    * `Use`
    * `Settles`
    * `Settles.append`
    * `Matched`
    * `Settles.matched`
-/

namespace Ledger

/- A resource comes in use or leaves it. -/
inductive Use
    (α : Type)
  | acquire (a : α)
  | release (a : α)
deriving DecidableEq

variable {α : Type}

/- A ledger leads from one set of held names to another. -/
inductive Settles :
    Set α → List (Use α) → Set α → Prop
  | nil
      (held : Set α) :
      Settles held [] held
  | acquire
      {held final : Set α}
      {rest : List (Use α)}
      (a : α)
      (hFree : a ∉ held)
      (hRest : Settles (insert a held) rest final) :
      Settles held (.acquire a :: rest) final
  | release
      {held final : Set α}
      {rest : List (Use α)}
      (a : α)
      (hHeld : a ∈ held)
      (hRest : Settles (held \ {a}) rest final) :
      Settles held (.release a :: rest) final

theorem Settles.append
    {held mid final : Set α}
    {uses uses' : List (Use α)}
    (hFirst : Settles held uses mid)
    (hSecond : Settles mid uses' final) :
    Settles held (uses ++ uses') final := by
  induction hFirst with
  | nil _ => exact hSecond
  | acquire a hFree _ ih =>
      exact Settles.acquire a hFree (ih hSecond)
  | release a hHeld _ ih =>
      exact Settles.release a hHeld (ih hSecond)

/- Every part of a ledger leads somewhere. -/
theorem Settles.initial
    {held final : Set α}
    {uses' : List (Use α)}
    (uses : List (Use α))
    (hSettles : Settles held (uses ++ uses') final) :
    ∃ mid, Settles held uses mid := by
  induction uses generalizing held with
  | nil => exact ⟨held, Settles.nil held⟩
  | cons use uses ih =>
      cases hSettles with
      | acquire a hFree hRest =>
          rcases ih hRest with ⟨mid, hMid⟩
          exact ⟨mid, Settles.acquire a hFree hMid⟩
      | release a hHeld hRest =>
          rcases ih hRest with ⟨mid, hMid⟩
          exact ⟨mid, Settles.release a hHeld hMid⟩

variable [DecidableEq α]

/-
  Each acquisition of a name is followed by exactly one
  release of it, before the name is acquired again; nothing
  else is released.
-/
def Matched
    (uses : List (Use α)) : Prop :=
  ∀ a, uses.count (.acquire a) = uses.count (.release a) ∧
    ∀ part, part <+: uses →
      part.count (.release a) ≤ part.count (.acquire a) ∧
      part.count (.acquire a) ≤ part.count (.release a) + 1

open Classical in
/- Acquisitions and releases of one name. -/
theorem Settles.balance
    {held final : Set α}
    {uses : List (Use α)}
    (hSettles : Settles held uses final)
    (a : α) :
    uses.count (.acquire a) + (if a ∈ held then 1 else 0) =
      uses.count (.release a) +
        (if a ∈ final then 1 else 0) := by
  induction hSettles with
  | nil _ => simp
  | acquire b hFree _ ih =>
      by_cases hEq : b = a
      · subst hEq
        simp [hFree] at ih ⊢
        omega
      · simp [hEq, Ne.symm hEq] at ih ⊢
        exact ih
  | release b hHeld _ ih =>
      by_cases hEq : b = a
      · subst hEq
        simp [hHeld] at ih ⊢
        omega
      · simp [hEq, Ne.symm hEq] at ih ⊢
        exact ih

/- A ledger that starts and ends with nothing held. -/
theorem Settles.matched
    {uses : List (Use α)}
    (hSettles : Settles ∅ uses ∅) :
    Matched uses := by
  intro a
  refine ⟨?_, ?_⟩
  · simpa using hSettles.balance a
  · rintro part ⟨rest, hSplit⟩
    rw [← hSplit] at hSettles
    rcases Settles.initial part hSettles with ⟨mid, hMid⟩
    have hBalance := hMid.balance a
    simp only [Set.mem_empty_iff_false, if_false,
      Nat.add_zero] at hBalance
    split at hBalance <;> omega

end Ledger
