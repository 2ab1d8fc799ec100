import Mathlib.Tactic.Common

/-
  Programs that take answers from their environment, one
  after the other.  A program that has used up the answers
  it is given has no result yet.

  Main declarations:
    * `Oracle.Asks`
    * `Oracle.Asks.Ensures`
    * `Oracle.Asks.Stable`
    * `Oracle.Asks.Finishes`
-/

namespace Oracle

/- A result with the answers left over, or `none` for now. -/
def Asks
    (A α : Type) : Type :=
  List A → Option (α × List A)

namespace Asks

variable {A α β : Type}

/- No question at all. -/
def pure
    (a : α) : Asks A α :=
  fun answers => some (a, answers)

/- The second program goes on with what is left. -/
def bind
    (x : Asks A α)
    (f : α → Asks A β) : Asks A β :=
  fun answers =>
    match x answers with
    | none => none
    | some (a, left) => f a left

/- Programs in sequence. -/
instance : Monad (Asks A) where
  pure := pure
  bind := bind

theorem bind_of_some
    {x : Asks A α}
    {answers left : List A}
    {a : α}
    (f : α → Asks A β)
    (hFirst : x answers = some (a, left)) :
    (x >>= f) answers = f a left := by
  show bind x f answers = f a left
  unfold bind
  rw [hFirst]

/- A finished sequence consists of two finished programs. -/
theorem bind_eq_some
    {x : Asks A α}
    {f : α → Asks A β}
    {answers left : List A}
    {b : β}
    (hRun : (x >>= f) answers = some (b, left)) :
    ∃ a mid, x answers = some (a, mid) ∧
      f a mid = some (b, left) := by
  cases hFirst : x answers with
  | none =>
      have hNone : (x >>= f) answers = none := by
        show bind x f answers = none
        unfold bind
        rw [hFirst]
      rw [hNone] at hRun
      cases hRun
  | some first =>
      rcases first with ⟨a, mid⟩
      rw [bind_of_some f hFirst] at hRun
      exact ⟨a, mid, rfl, hRun⟩

/-
  Whenever the program finishes, the postcondition holds of
  the answers that it used and of its result.
-/
def Ensures
    (x : Asks A α)
    (post : List A → α → Prop) : Prop :=
  ∀ answers a left, x answers = some (a, left) →
    ∃ used, answers = used ++ left ∧ post used a

namespace Ensures

variable {x : Asks A α} {f : α → Asks A β} {a : α}

theorem pure
    {post : List A → α → Prop}
    (hPost : post [] a) :
    Ensures (Pure.pure a) post := by
  intro answers b left hRun
  cases hRun
  exact ⟨[], rfl, hPost⟩

theorem bind
    {mid : List A → α → Prop}
    {post : List A → β → Prop}
    (hFirst : Ensures x mid)
    (hRest :
      ∀ used a, mid used a →
        Ensures (f a) (fun more b => post (used ++ more) b)) :
    Ensures (x >>= f) post := by
  intro answers b left hRun
  rcases bind_eq_some hRun with ⟨a, rest, hRunX, hRunF⟩
  rcases hFirst answers a rest hRunX with ⟨used, hSplit, hMid⟩
  rcases hRest used a hMid rest b left hRunF with
    ⟨more, hSplit', hPost⟩
  refine ⟨used ++ more, ?_, hPost⟩
  rw [hSplit, hSplit', List.append_assoc]

theorem mono
    {post post' : List A → α → Prop}
    (hEnsures : Ensures x post)
    (hImplies : ∀ used a, post used a → post' used a) :
    Ensures x post' := by
  intro answers a left hRun
  rcases hEnsures answers a left hRun with
    ⟨used, hSplit, hPost⟩
  exact ⟨used, hSplit, hImplies used a hPost⟩

theorem and
    {post post' : List A → α → Prop}
    (hFirst : Ensures x post)
    (hSecond : Ensures x post') :
    Ensures x (fun used a => post used a ∧ post' used a) := by
  intro answers a left hRun
  rcases hFirst answers a left hRun with ⟨used, hSplit, hPost⟩
  rcases hSecond answers a left hRun with
    ⟨used', hSplit', hPost'⟩
  have hSame : used = used' :=
    List.append_cancel_right (hSplit.symm.trans hSplit')
  rw [← hSame] at hPost'
  exact ⟨used, hSplit, hPost, hPost'⟩

/- A run that uses up its answers satisfies it for them. -/
theorem of_run
    {post : List A → α → Prop}
    {answers : List A}
    (hEnsures : Ensures x post)
    (hRun : x answers = some (a, [])) :
    post answers a := by
  rcases hEnsures answers a [] hRun with ⟨used, hSplit, hPost⟩
  rw [List.append_nil] at hSplit
  rw [hSplit]
  exact hPost

end Ensures

end Asks

/- The next `n` answers of a stream from `k` on. -/
def segment
    {A : Type}
    (stream : Nat → A)
    (k n : Nat) : List A :=
  (List.range' k n).map stream

section Segments

variable {A : Type} (stream : Nat → A)

theorem segment_succ
    (k n : Nat) :
    segment stream k (n + 1) =
      stream k :: segment stream (k + 1) n := by
  unfold segment
  rw [List.range'_succ, List.map_cons]

theorem segment_append
    (k n m : Nat) :
    segment stream k n ++ segment stream (k + n) m =
      segment stream k (n + m) := by
  unfold segment
  rw [← List.map_append, List.range'_append_1]

theorem segment_all
    {stream : Nat → A}
    {p : A → Prop}
    {k : Nat}
    (hAll : ∀ i ≥ k, p (stream i))
    {n : Nat} :
    ∀ a ∈ segment stream k n, p a := by
  intro a hMem
  unfold segment at hMem
  rcases List.mem_map.mp hMem with ⟨i, hRange, hEq⟩
  rw [List.mem_range'_1] at hRange
  rw [← hEq]
  exact hAll i hRange.1

end Segments

namespace Asks

variable {A α β : Type}

/- More answers than it needs do not disturb a program. -/
def Stable
    (x : Asks A α) : Prop :=
  ∀ answers a left more, x answers = some (a, left) →
    x (answers ++ more) = some (a, left ++ more)

/- From any point of the stream on, the program finishes. -/
def Finishes
    (stream : Nat → A)
    (x : Asks A α) : Prop :=
  ∀ k, ∃ n a, x (segment stream k n) = some (a, [])

variable {x : Asks A α} {f : α → Asks A β} {stream : Nat → A}

theorem stable_pure
    (a : α) :
    Stable (Pure.pure a : Asks A α) := by
  intro answers b left more hRun
  cases hRun
  rfl

theorem Stable.bind
    (hFirst : Stable x)
    (hRest : ∀ a, Stable (f a)) :
    Stable (x >>= f) := by
  intro answers b left more hRun
  rcases bind_eq_some hRun with ⟨a, mid, hRunX, hRunF⟩
  rw [bind_of_some f (hFirst answers a mid more hRunX)]
  exact hRest a mid b left more hRunF

theorem finishes_pure
    (a : α) :
    Finishes stream (Pure.pure a) :=
  fun _ => ⟨0, a, rfl⟩

theorem Finishes.bind
    (hFirst : Finishes stream x)
    (hStable : Stable x)
    (hRest : ∀ a, Finishes stream (f a)) :
    Finishes stream (x >>= f) := by
  intro k
  rcases hFirst k with ⟨n, a, hRunX⟩
  rcases hRest a (k + n) with ⟨m, b, hRunF⟩
  refine ⟨n + m, b, ?_⟩
  rw [← segment_append]
  have hMore :=
    hStable _ a [] (segment stream (k + n) m) hRunX
  rw [bind_of_some f hMore]
  exact hRunF

end Asks

end Oracle
