import Mathlib.Logic.Relation

/-! # Runs of a step function that can fail

A machine whose step can fail (a panic, an error code) runs a list of inputs one after the
other and stops at the first failure (`run`).  What one step may do from a state is an
`Outcome`: a failure of a given kind, or a state in an invariant reached by a move of a
relation.  The invariant rule lifts it to runs (`run_outcome`): if every step from the
invariant has such an outcome, every run has one, whose move is a chain of moves.

For states that are functions (a value at every page, every slot), a relation is
`Confined` to a set of values when a move changes a point only from a value in the set to
a value in it; along a chain of such moves a point outside the set never changes
(`Confined.eq_of_not_left`).
-/

namespace StepRun

open Relation

variable {α σ ε : Type*}

/-- The inputs one after the other from `s`, up to the first failure. -/
def run (step : α → σ → Except ε σ) : List α → σ → Except ε σ
  | [], s => .ok s
  | x :: xs, s => do run step xs (← step x s)

@[simp] theorem run_nil (step : α → σ → Except ε σ) (s : σ) : run step [] s = .ok s := rfl

@[simp] theorem run_cons (step : α → σ → Except ε σ) (x : α) (xs : List α) (s : σ) :
    run step (x :: xs) s = (step x s >>= run step xs) := rfl

/-- What a step from `s` may give: a failure in `E`, or a state in `I` reached by a move
of `r`. -/
def Outcome (I : σ → Prop) (E : ε → Prop) (r : σ → σ → Prop) (s : σ) : Except ε σ → Prop
  | .ok s' => I s' ∧ r s s'
  | .error e => E e

variable {I : σ → Prop} {E : ε → Prop} {r : σ → σ → Prop} {s s' : σ}

@[simp] theorem outcome_ok : Outcome I E r s (.ok s') ↔ I s' ∧ r s s' := Iff.rfl

@[simp] theorem outcome_error {e : ε} : Outcome I E r s (.error e) ↔ E e := Iff.rfl

/-- An outcome from `s₁` is one from `s` when each move from `s₁` reads as one from `s`. -/
theorem Outcome.of_moves {r' : σ → σ → Prop} {s₁ : σ} (h : ∀ s₂, r s₁ s₂ → r' s s₂) :
    ∀ {x : Except ε σ}, Outcome I E r s₁ x → Outcome I E r' s x
  | .ok _, ⟨hI, hr⟩ => ⟨hI, h _ hr⟩
  | .error _, hE => hE

/-- **The invariant rule for runs**: when every step of an input that `V` allows, from a
state in `I`, fails in `E` or reaches `I` by a move of `r`, then every run of such inputs
from `I` fails in `E` or reaches `I` by a chain of moves. -/
theorem run_outcome {step : α → σ → Except ε σ} (V : α → Prop)
    (hstep : ∀ x s, V x → I s → Outcome I E r s (step x s)) :
    ∀ (xs : List α) (s : σ), (∀ x ∈ xs, V x) → I s → Outcome I E (ReflTransGen r) s (run step xs s)
  | [], s, _, hs => ⟨hs, .refl⟩
  | x :: xs, s, hv, hs => by
    have h₁ := hstep x s (hv x (List.mem_cons_self ..)) hs
    rw [run_cons]
    cases hx : step x s with
    | error e =>
      rw [hx] at h₁
      exact h₁
    | ok s₁ =>
      rw [hx] at h₁
      obtain ⟨hs₁, hr₁⟩ := h₁
      have ih := run_outcome V hstep xs s₁ (fun x' hx' => hv x' (List.mem_cons_of_mem _ hx')) hs₁
      exact Outcome.of_moves (fun _ h => ReflTransGen.head hr₁ h) ih

/-! ## Moves confined to a set of values -/

section Confined

variable {ι β : Type*}

/-- Every move of `r` changes a point only from a value in `P` to a value in `P`. -/
def Confined (P : β → Prop) (r : (ι → β) → (ι → β) → Prop) : Prop :=
  ∀ f g, r f g → ∀ i, g i ≠ f i → P (f i) ∧ P (g i)

variable {P : β → Prop} {r : (ι → β) → (ι → β) → Prop} {f g : ι → β} {i : ι}

/-- Along a chain of confined moves, a point whose first value is outside `P` keeps it. -/
theorem Confined.eq_of_not_left (hc : Confined P r) (hr : ReflTransGen r f g) (hi : ¬ P (f i)) :
    g i = f i := by
  induction hr with
  | refl => rfl
  | @tail g' g'' _ hstep ih =>
    -- the point still has its first value, outside `P`, so the last move leaves it
    rw [← ih]
    refine Classical.byContradiction fun hne => hi ?_
    exact ih ▸ (hc g' g'' hstep i hne).1

end Confined

end StepRun
