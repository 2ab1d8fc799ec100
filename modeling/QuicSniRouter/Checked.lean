import Mathlib.Tactic.Common

/-
  Programs on a buffer with their accesses checked.  A
  checked run stops at a read outside of a window, at a
  subtraction below zero and at a store that does not fit.
  It also tells an input that the program refuses from a
  call that fails.

  Main declarations:
    * `Checked.Run`
    * `Checked.Matches`
    * `Checked.Safe`
-/

namespace Checked

/- Why a checked run stops. -/
inductive Fault (σ : Type)
  | outside
  | refused (status : σ)
  | failed (status : σ)
deriving DecidableEq, Repr

/- A run, unless it stops at a fault. -/
abbrev Run (σ α : Type) := Except (Fault σ) α

variable {σ α β : Type}

/- `n` items of a buffer of which `window` may be read. -/
def read
    (window : Nat)
    (data : List β)
    (offset n : Nat) : Run σ (List β) :=
  if offset + n ≤ window then
    .ok ((data.drop offset).take n)
  else
    .error .outside

/- A subtraction that must not go below zero. -/
def subtract
    (a b : Nat) : Run σ Nat :=
  if b ≤ a then .ok (a - b) else .error .outside

/- `n` items are written to a buffer of a size. -/
def store
    (size n : Nat) : Run σ Unit :=
  if n ≤ size then .ok () else .error .outside

/- Answer with a status where the code returns it. -/
def refuse
    (condition : Prop)
    [Decidable condition]
    (status : σ) : Run σ Unit :=
  if condition then .error (.refused status) else .ok ()

/- An input that a function may refuse. -/
def ensure :
    Except σ α → Run σ α
| .ok a => .ok a
| .error status => .error (.refused status)

/- A call that may fail. -/
def call :
    Except σ α → Run σ α
| .ok a => .ok a
| .error status => .error (.failed status)

/- A run that stays inside has the result. -/
def Matches
    (run : Run σ α)
    (result : Except σ α) : Prop :=
  match run with
  | .ok a => result = .ok a
  | .error .outside => True
  | .error (.refused status) => result = .error status
  | .error (.failed status) => result = .error status

namespace Matches

variable {run : Run σ α} {result : Except σ α}
variable {f : α → Run σ β} {g : α → Except σ β}
variable {next : Run σ β} {rest : Except σ β} {n : Nat}

theorem bind
    (hFirst : Matches run result)
    (hRest : ∀ a, result = .ok a → Matches (f a) (g a)) :
    Matches (run >>= f) (result >>= g) := by
  cases run with
  | ok a =>
      have hResult : result = .ok a := hFirst
      rw [hResult]
      exact hRest a hResult
  | error fault =>
      cases fault with
      | outside => trivial
      | refused status =>
          have hResult : result = .error status := hFirst
          rw [hResult]
          rfl
      | failed status =>
          have hResult : result = .error status := hFirst
          rw [hResult]
          rfl

theorem ensure
    (result : Except σ α) :
    Matches (Checked.ensure result) result := by
  cases result with
  | ok a => rfl
  | error status => rfl

theorem call
    (result : Except σ α) :
    Matches (Checked.call result) result := by
  cases result with
  | ok a => rfl
  | error status => rfl

theorem refuse
    {condition : Prop}
    [Decidable condition]
    {status : σ}
    {refusal : Except σ β}
    (hRefusal : refusal = .error status)
    (hRest : ¬ condition → Matches next rest) :
    Matches
      (Checked.refuse condition status >>= fun _ => next)
      (if condition then refusal else rest) := by
  unfold Checked.refuse
  by_cases hFails : condition
  · rw [if_pos hFails, if_pos hFails]
    exact hRefusal
  · rw [if_neg hFails, if_neg hFails]
    exact hRest hFails

theorem read
    {window offset : Nat}
    {data : List α}
    {next : List α → Run σ β}
    (hRest : Matches (next ((data.drop offset).take n)) rest) :
    Matches (Checked.read window data offset n >>= next)
      rest := by
  unfold Checked.read
  by_cases hInside : offset + n ≤ window
  · rw [if_pos hInside]
    exact hRest
  · rw [if_neg hInside]
    trivial

theorem subtract
    {a b : Nat}
    {next : Nat → Run σ β}
    (hRest : Matches (next (a - b)) rest) :
    Matches (Checked.subtract a b >>= next) rest := by
  unfold Checked.subtract
  by_cases hLe : b ≤ a
  · rw [if_pos hLe]
    exact hRest
  · rw [if_neg hLe]
    trivial

theorem store
    {size : Nat}
    (hRest : Matches next rest) :
    Matches (Checked.store size n >>= fun _ => next)
      rest := by
  unfold Checked.store
  by_cases hFits : n ≤ size
  · rw [if_pos hFits]
    exact hRest
  · rw [if_neg hFits]
    trivial

end Matches

/- A run that only a failed call can stop. -/
def Safe
    (run : Run σ α) : Prop :=
  ∀ fault, run = .error fault →
    ∃ status, fault = .failed status

namespace Safe

variable {run : Run σ α} {next : α → Run σ β} {n : Nat}

theorem done
    (a : α) :
    Safe (pure a : Run σ α) := by
  intro fault hFault
  cases hFault

theorem call
    (result : Except σ α) :
    Safe (Checked.call result) := by
  intro fault hFault
  cases result with
  | ok a => cases hFault
  | error status =>
      cases hFault
      exact ⟨status, rfl⟩

theorem bind
    (hFirst : Safe run)
    (hRest : ∀ a, Safe (next a)) :
    Safe (run >>= next) := by
  cases run with
  | ok a => exact hRest a
  | error failure =>
      intro fault hFault
      cases hFault
      exact hFirst failure rfl

theorem ensure
    {result : Except σ α}
    {a : α}
    (hOk : result = .ok a)
    (hRest : Safe (next a)) :
    Safe (Checked.ensure result >>= next) := by
  rw [hOk]
  exact hRest

theorem refuse
    {condition : Prop}
    [Decidable condition]
    {status : σ}
    {next : Run σ β}
    (hNot : ¬ condition)
    (hRest : Safe next) :
    Safe (Checked.refuse condition status >>= fun _ => next) := by
  unfold Checked.refuse
  rw [if_neg hNot]
  exact hRest

theorem read
    {window offset : Nat}
    {data : List α}
    {next : List α → Run σ β}
    (hInside : offset + n ≤ window)
    (hRest : Safe (next ((data.drop offset).take n))) :
    Safe (Checked.read window data offset n >>= next) := by
  unfold Checked.read
  rw [if_pos hInside]
  exact hRest

theorem subtract
    {a b : Nat}
    {next : Nat → Run σ β}
    (hLe : b ≤ a)
    (hRest : Safe (next (a - b))) :
    Safe (Checked.subtract a b >>= next) := by
  unfold Checked.subtract
  rw [if_pos hLe]
  exact hRest

theorem store
    {size : Nat}
    {next : Run σ β}
    (hFits : n ≤ size)
    (hRest : Safe next) :
    Safe (Checked.store size n >>= fun _ => next) := by
  unfold Checked.store
  rw [if_pos hFits]
  exact hRest

end Safe

/- A safe run has the result of what it matches. -/
theorem Matches.of_safe
    {run : Run σ α}
    {result : Except σ α}
    (hMatches : Matches run result)
    (hSafe : Safe run) :
    (∃ a, run = .ok a ∧ result = .ok a) ∨
      ∃ status,
        run = .error (.failed status) ∧
          result = .error status := by
  cases run with
  | ok a => exact Or.inl ⟨a, rfl, hMatches⟩
  | error fault =>
      rcases hSafe fault rfl with ⟨status, rfl⟩
      exact Or.inr ⟨status, rfl, hMatches⟩

end Checked
