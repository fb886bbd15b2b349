import Mathlib.Data.List.Induction
import Mathlib.Data.List.Infix

set_option autoImplicit false

/-!
# Sequences of operations

A sequence of operations is run by a fold; what happens along it is said over its prefixes.

* `forall_prefix_concat`, `forall_prefix_cons`: the operations of a sequence, each with those before it;
* `foldl_invariant`: what every operation keeps;
* **`forall_prefix_iff`**: a property that an operation keeps exactly under a condition holds all along
  exactly if every operation meets the condition.
-/

namespace Interleave

variable {S O : Type} {ops : List O}

theorem forall_prefix_concat {p : List O → O → Prop} :
    (∀ pre op, pre ++ [op] <+: ops → p pre op) ↔
      ∀ k (h : k < ops.length), p (ops.take k) (ops.get ⟨k, h⟩) := by
  constructor
  · intro h k hk
    refine h _ _ ?_
    rw [List.get_eq_getElem, List.take_append_getElem]
    exact List.take_prefix _ _
  · rintro h pre op ⟨suf, rfl⟩
    simpa using h pre.length (by simp)

/-- The operations of a sequence, the first one apart. -/
theorem forall_prefix_cons {op : O} {p : List O → O → Prop} :
    (∀ pre op', pre ++ [op'] <+: op :: ops → p pre op') ↔
      p [] op ∧ ∀ pre op', pre ++ [op'] <+: ops → p (op :: pre) op' := by
  constructor
  · intro h
    refine ⟨h [] op (List.cons_prefix_cons.mpr ⟨rfl, List.nil_prefix⟩), fun pre op' hpre => ?_⟩
    exact h (op :: pre) op' (List.cons_prefix_cons.mpr ⟨rfl, hpre⟩)
  · rintro ⟨h₀, h⟩ (_ | ⟨a, pre⟩) op' hpre
    · rw [(List.cons_prefix_cons.mp hpre).1]
      exact h₀
    · obtain ⟨rfl, hrest⟩ := List.cons_prefix_cons.mp hpre
      exact h pre op' hrest

variable {f : S → O → S} {s₀ : S} {K I : S → Prop} {C : O → S → Prop} {R : O → Prop}

theorem foldl_concat (pre : List O) (op : O) : (pre ++ [op]).foldl f s₀ = f (pre.foldl f s₀) op := by
  rw [List.foldl_append]
  rfl

theorem foldl_invariant (h₀ : K s₀) (hstep : ∀ s op, R op → K s → K (f s op))
    (hops : ∀ op ∈ ops, R op) : K (ops.foldl f s₀) := by
  induction ops using List.reverseRecOn with
  | nil => exact h₀
  | append_singleton pre op ih =>
      obtain ⟨hpre, hop⟩ := List.forall_mem_append.mp hops
      rw [foldl_concat]
      exact hstep _ op (List.forall_mem_singleton.mp hop) (ih hpre)

/-- **Exactly under a condition.** The operations meet `R` and keep `K`; then `I` holds all along the
sequence exactly if every operation meets `C` in the state before it. -/
theorem forall_prefix_iff (hK₀ : K s₀) (hI₀ : I s₀) (hK : ∀ s op, R op → K s → K (f s op))
    (hI : ∀ s op, R op → K s → I s → (I (f s op) ↔ C op s)) (hops : ∀ op ∈ ops, R op) :
    (∀ pre, pre <+: ops → I (pre.foldl f s₀)) ↔
      ∀ pre op, pre ++ [op] <+: ops → C op (pre.foldl f s₀) := by
  have hstep : ∀ pre op, pre ++ [op] <+: ops → I (pre.foldl f s₀) →
      (I ((pre ++ [op]).foldl f s₀) ↔ C op (pre.foldl f s₀)) := by
    intro pre op hpre hi
    obtain ⟨hR, hop⟩ := List.forall_mem_append.mp fun op' h => hops op' (hpre.subset h)
    rw [foldl_concat]
    exact hI _ op (List.forall_mem_singleton.mp hop) (foldl_invariant hK₀ hK hR) hi
  constructor
  · intro h pre op hpre
    exact (hstep pre op hpre (h pre ((List.prefix_append pre [op]).trans hpre))).mp (h _ hpre)
  · intro h pre hpre
    induction pre using List.reverseRecOn with
    | nil => exact hI₀
    | append_singleton pre op ih =>
        exact (hstep pre op hpre (ih ((List.prefix_append pre [op]).trans hpre))).mpr (h pre op hpre)

end Interleave
