import Mathlib.Tactic.Common

set_option autoImplicit false

/-!
# Runs of a labelled step function

`step l s` is the state after the step labelled `l`, or `none` where that step is not enabled. A
run may be restricted to steps that meet a condition `C l s` on the label and the state *before*
the step.

* `Reach step C s₀ s`: a run from `s₀` to `s` whose steps all meet `C`;
* **`Reach.invariant`**: what holds first and is kept by every step holds in every state reached;
* `Reach.map`: a run followed by another system;
* `runAll`, `runAll_append`, `exists_reach`: a schedule given as a list of labels is a run.
-/

namespace Interleave

variable {S L : Type} (step : L → S → Option S)

/-- A run from `s₀` whose steps all meet `C`. -/
inductive Reach (C : L → S → Prop) (s₀ : S) : S → Prop
  | refl : Reach C s₀ s₀
  | tail {s s' : S} {l : L} : Reach C s₀ s → C l s → step l s = some s' → Reach C s₀ s'

variable {step} {C C' : L → S → Prop} {s₀ s s' : S}

/-- A run under one condition is a run under another that follows from it in the states reached. -/
theorem Reach.mono_reach (h : Reach step C s₀ s)
    (hC : ∀ l s, Reach step C s₀ s → C l s → C' l s) : Reach step C' s₀ s := by
  induction h with
  | refl => exact .refl
  | tail hr hc hs ih => exact .tail ih (hC _ _ hr hc) hs

theorem Reach.mono (h : Reach step C s₀ s) (hC : ∀ l s, C l s → C' l s) : Reach step C' s₀ s :=
  h.mono_reach fun l s _ hc => hC l s hc

theorem Reach.trans (h : Reach step C s₀ s) (h' : Reach step C s s') : Reach step C s₀ s' := by
  induction h' with
  | refl => exact h
  | tail _ hc hs ih => exact .tail ih hc hs

/-- **The invariant rule.** -/
theorem Reach.invariant (h : Reach step C s₀ s) (I : S → Prop) (h₀ : I s₀)
    (hstep : ∀ l s s', C l s → I s → step l s = some s' → I s') : I s := by
  induction h with
  | refl => exact h₀
  | tail _ hc hs ih => exact hstep _ _ _ hc ih hs

/-- The invariant rule, with the run so far at hand for the use of earlier invariants. -/
theorem Reach.invariant_reach (h : Reach step C s₀ s) (I : S → Prop) (h₀ : I s₀)
    (hstep : ∀ l s s', Reach step C s₀ s → C l s → I s → step l s = some s' → I s') : I s := by
  induction h with
  | refl => exact h₀
  | tail hr hc hs ih => exact hstep _ _ _ hr hc ih hs

/-- A run is a run of another system that follows each of its steps. -/
theorem Reach.map {S' L' : Type} {step' : L' → S' → Option S'} {C' : L' → S' → Prop}
    (h : Reach step C s₀ s) (f : S → S')
    (hstep : ∀ l s s', C l s → step l s = some s' → Reach step' C' (f s) (f s')) :
    Reach step' C' (f s₀) (f s) := by
  induction h with
  | refl => exact .refl
  | tail _ hc hs ih => exact ih.trans (hstep _ _ _ hc hs)

variable (step C) in
/-- Run a schedule, as long as its steps meet the condition. -/
def runAll [∀ l s, Decidable (C l s)] : List L → S → Option S
  | [], s => some s
  | l :: ls, s => if C l s then (step l s).bind (runAll ls) else none

theorem runAll_append [∀ l s, Decidable (C l s)] (ls ls' : List L) (s : S) :
    runAll step C (ls ++ ls') s = (runAll step C ls s).bind (runAll step C ls') := by
  induction ls generalizing s with
  | nil => rfl
  | cons l ls ih =>
      simp only [List.cons_append, runAll]
      split_ifs
      · rw [Option.bind_assoc]
        exact congrArg _ (funext ih)
      · rfl

/-- The last step of a schedule. -/
theorem runAll_concat_eq_some [∀ l s, Decidable (C l s)] {ls : List L} {l : L} :
    runAll step C (ls ++ [l]) s = some s' ↔
      ∃ s₁, runAll step C ls s = some s₁ ∧ C l s₁ ∧ step l s₁ = some s' := by
  rw [runAll_append, Option.bind_eq_some_iff]
  refine exists_congr fun s₁ => and_congr_right fun _ => ?_
  simp only [runAll]
  split_ifs with hc
  · simp [hc]
  · simp [hc]

theorem reach_of_runAll [∀ l s, Decidable (C l s)] (ls : List L)
    (h : runAll step C ls s = some s') : Reach step C s s' := by
  induction ls generalizing s with
  | nil =>
      cases h
      exact .refl
  | cons l ls ih =>
      simp only [runAll] at h
      split_ifs at h with hc
      obtain ⟨s₁, h₁, h₂⟩ := Option.bind_eq_some_iff.mp h
      exact (Reach.refl.tail hc h₁).trans (ih h₂)

/-- What a schedule ends in is reached. -/
theorem exists_reach [∀ l s, Decidable (C l s)] (ls : List L) {p : S → Prop}
    (h : ∃ s' ∈ runAll step C ls s, p s') : ∃ s', Reach step C s s' ∧ p s' := by
  obtain ⟨s', h₁, h₂⟩ := h
  exact ⟨s', reach_of_runAll ls h₁, h₂⟩

end Interleave
