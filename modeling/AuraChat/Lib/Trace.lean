import Mathlib.Tactic.Common

set_option autoImplicit false

/-!
# Runs with their events

A system is a relation between the state before a step, the event that an observer sees of it, and the
state after it.

* `Run step s₀ es s`: a run from `s₀` to `s` with the events `es`;
* **`Run.refines`**: each step is a step of another system with the same event, so the events of every run
  are those of a run of that system.
-/

namespace Trace

variable {S T E : Type} {step : S → E → S → Prop} {step' : T → E → T → Prop} {s₀ s : S} {es : List E}

inductive Run (step : S → E → S → Prop) (s₀ : S) : List E → S → Prop
  | nil : Run step s₀ [] s₀
  | snoc {es : List E} {e : E} {s s' : S} : Run step s₀ es s → step s e s' → Run step s₀ (es ++ [e]) s'

theorem Run.invariant (h : Run step s₀ es s) (I : S → Prop) (h₀ : I s₀)
    (hstep : ∀ s e s', I s → step s e s' → I s') : I s := by
  induction h with
  | nil => exact h₀
  | snoc _ hs ih => exact hstep _ _ _ ih hs

/-- **The refinement rule**, for an abstraction `f` of the states that satisfy an invariant `I`. -/
theorem Run.refines (h : Run step s₀ es s) (I : S → Prop) (f : S → T) (h₀ : I s₀)
    (hI : ∀ s e s', I s → step s e s' → I s')
    (hstep : ∀ s e s', I s → step s e s' → step' (f s) e (f s')) : Run step' (f s₀) es (f s) := by
  induction h with
  | nil => exact .nil
  | snoc hr hs ih => exact ih.snoc (hstep _ _ _ (hr.invariant I h₀ hI) hs)

end Trace
