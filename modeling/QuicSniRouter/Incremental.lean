import Mathlib.Tactic.Common

/-
  Parsers on inputs that are cut off.  A parser is given as
  the function from an input to what it leaves unread.  It
  is incremental if on a part of an input it either runs out
  of bytes or takes the same decisions as on the whole.

  Main declarations:
    * `Incremental.Cuts`
    * `Incremental.Cuts.read`
    * `Incremental.Cuts.bind`
-/

namespace Incremental

variable {α β ε : Type}

/-
  On the part `p` of an input the parser fails with `short`,
  if it wants more than `p`, or it leaves less unread by the
  missing part.
-/
def Cuts
    (short : ε)
    (parse : List α → Except ε (List α)) : Prop :=
  ∀ p q rest, parse (p ++ q) = .ok rest →
    rest.length ≤ (p ++ q).length ∧
      ((parse p = .error short ∧ rest.length < q.length) ∨
        ∃ left, parse p = .ok left ∧ rest = left ++ q)

namespace Cuts

variable {short : ε} {next : List α → Except ε (List α)}

theorem done :
    Cuts short (fun input : List α => .ok input) := by
  intro p q rest hParse
  cases hParse
  exact ⟨Nat.le_refl _, Or.inr ⟨p, rfl, rfl⟩⟩

/- A check of what was read before passes for both. -/
theorem guard
    {condition : Prop}
    [Decidable condition]
    {failure : ε}
    (hNext : Cuts short next) :
    Cuts short (fun input =>
      if condition then .error failure else next input) := by
  intro p q rest hParse
  dsimp only at hParse ⊢
  by_cases hFails : condition
  · rw [if_pos hFails] at hParse
    cases hParse
  · rw [if_neg hFails] at hParse
    rw [if_neg hFails]
    exact hNext p q rest hParse

/- A value is read from `n` bytes, and decides what follows. -/
theorem read
    (n : Nat)
    (value : List α → β)
    {next : β → List α → Except ε (List α)}
    (hNext : ∀ b, Cuts short (next b)) :
    Cuts short (fun input =>
      if n ≤ input.length then
        next (value (input.take n)) (input.drop n)
      else
        .error short) := by
  intro p q rest hParse
  dsimp only at hParse ⊢
  by_cases hWhole : n ≤ (p ++ q).length
  · rw [if_pos hWhole] at hParse
    by_cases hPart : n ≤ p.length
    · rw [List.take_append_of_le_length hPart,
        List.drop_append_of_le_length hPart] at hParse
      rw [if_pos hPart]
      rcases hNext _ _ _ _ hParse with ⟨hLe, hCut⟩
      refine ⟨?_, hCut⟩
      rw [List.length_append, List.length_drop] at hLe
      rw [List.length_append]
      omega
    · rw [if_neg hPart]
      have hAll :=
        hNext _ ((p ++ q).drop n) [] rest
          (by rw [List.append_nil]; exact hParse)
      rw [List.append_nil, List.length_drop,
        List.length_append] at hAll
      rw [List.length_append] at hWhole ⊢
      exact ⟨by omega, Or.inl ⟨rfl, by omega⟩⟩
  · rw [if_neg hWhole] at hParse
    cases hParse

theorem bind
    {first : List α → Except ε (List α)}
    (hFirst : Cuts short first)
    (hNext : Cuts short next) :
    Cuts short (fun input => first input >>= next) := by
  intro p q rest hParse
  dsimp only at hParse ⊢
  cases hRun : first (p ++ q) with
  | error failure =>
      rw [hRun] at hParse
      cases hParse
  | ok middle =>
      rw [hRun] at hParse
      have hRest : next middle = .ok rest := hParse
      have hLeft :
          rest.length ≤ middle.length := by
        have hAll :=
          hNext middle [] rest
            (by rw [List.append_nil]; exact hRest)
        rw [List.append_nil] at hAll
        exact hAll.1
      rcases hFirst p q middle hRun with ⟨hLe, hCut⟩
      refine ⟨Nat.le_trans hLeft hLe, ?_⟩
      rcases hCut with ⟨hShort, hLt⟩ | ⟨left, hOk, hEq⟩
      · rw [hShort]
        exact Or.inl ⟨rfl, Nat.lt_of_le_of_lt hLeft hLt⟩
      · rw [hEq] at hRest
        rw [hOk]
        exact (hNext left q rest hRest).2

end Cuts

end Incremental
