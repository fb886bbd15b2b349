import Mathlib.Algebra.BigOperators.Group.Finset.Basic
import Mathlib.Data.Multiset.UnionInter
import Mathlib.Logic.Hydra
import AuraChat.Lib.Program
import AuraChat.Lib.Reach

set_option autoImplicit false

/-!
# Systems that settle

Some steps of a system wait for nothing from outside. A state has settled when none of them is enabled,
and a measure that they lower says that they cannot go on for ever.

* `Settled`, **`acc_of_measure`**, **`exists_settled`**, `not_endless`: the steps end, in a settled state;
* `Prog.Rest`, `Prog.wf_rest`: a program after one of its calls;
* `CutExpand.replace`: one element of a multiset replaced by smaller ones;
* `slots`, `exists_slots`: the elements in the slots of a finite table;
* `sum_update`: a sum over such a table when one slot changes.
-/

namespace Interleave

open Relation

section Steps

variable {S L : Type} (step : L → S → Option S) (C : L → S → Prop)

/-- The state `s'` comes from `s` by a step that meets the condition. -/
def Succ (s' s : S) : Prop := ∃ l, C l s ∧ step l s = some s'

/-- No step that meets the condition is enabled. -/
def Settled (s : S) : Prop := ∀ l, C l s → step l s = none

variable {step C} {s : S}

/-- **The rule for measures.** A measure that every step lowers, while an invariant holds. -/
theorem acc_of_measure {B : Type} {r : B → B → Prop} (hr : WellFounded r) (μ : S → B) (I : S → Prop)
    (hstep : ∀ l s s', I s → C l s → step l s = some s' → I s' ∧ r (μ s') (μ s)) (hs : I s) :
    Acc (Succ step C) s := by
  generalize hb : μ s = b
  induction b using hr.induction generalizing s with
  | _ b ih =>
    subst hb
    refine Acc.intro s fun s' ⟨l, hc, hl⟩ => ?_
    obtain ⟨hs', hlt⟩ := hstep l s s' hs hc hl
    exact ih (μ s') hlt hs' rfl

/-- **The steps can be taken to an end.** -/
theorem exists_settled (h : Acc (Succ step C) s) : ∃ s', Reach step C s s' ∧ Settled step C s' := by
  induction h with
  | intro s _ ih =>
    by_cases hs : Settled step C s
    · exact ⟨s, .refl, hs⟩
    · unfold Settled at hs
      push Not at hs
      obtain ⟨l, hc, hl⟩ := hs
      obtain ⟨s₁, hl⟩ := Option.ne_none_iff_exists'.mp hl
      obtain ⟨s', hr, hs'⟩ := ih s₁ ⟨l, hc, hl⟩
      exact ⟨s', (Reach.refl.tail hc hl).trans hr, hs'⟩

/-- There is no endless run of such steps. -/
theorem not_endless (h : Acc (Succ step C) s) :
    ¬ ∃ f : ℕ → S, f 0 = s ∧ ∀ n, ∃ l, C l (f n) ∧ step l (f n) = some (f (n + 1)) := by
  induction h with
  | intro s _ ih =>
    rintro ⟨f, rfl, hf⟩
    exact ih (f 1) (hf 0) ⟨fun n => f (n + 1), rfl, fun n => hf (n + 1)⟩

end Steps

/-! ## Programs -/

namespace Prog

variable {A : Type} {R : A → Type} {α : Type}

/-- What is left of a program after its next call. -/
inductive Rest : Prog R α → Prog R α → Prop
  | next (a : A) (k : R a → Prog R α) (r : R a) : Rest (k r) (.call a k)

theorem wf_rest : WellFounded (Rest : Prog R α → Prog R α → Prop) := by
  refine ⟨fun p => ?_⟩
  induction p with
  | ret x => exact Acc.intro _ fun q hq => by cases hq
  | call a k ih =>
      refine Acc.intro _ fun q hq => ?_
      cases hq with
      | next _ _ r => exact ih r

end Prog

/-! ## Multisets of work -/

section Multisets

variable {α : Type} {r : α → α → Prop}

/-- One element is replaced by smaller ones. -/
theorem CutExpand.replace {s s' : Multiset α} {t m : Multiset α} {a : α} (ht : ∀ b ∈ t, r b a)
    (hs : s = {a} + m) (hs' : s' = t + m) : CutExpand r s' s := by
  subst hs hs'
  exact (cutExpand_add_right m).mpr (cutExpand_singleton ht)

theorem coe_cons_eq (a : α) (l : List α) : ((a :: l : List α) : Multiset α) = {a} + (l : Multiset α) := by
  rw [Multiset.singleton_add, Multiset.cons_coe]

/-- What the slots below `n` hold. -/
def slots (n : ℕ) (f : ℕ → Option α) : Multiset α := ((List.range n).filterMap f : List α)

/-- What the other slots hold, when one of them is looked at. -/
theorem exists_slots {n i : ℕ} (hi : i < n) (f : ℕ → Option α) :
    ∃ m, ∀ v, slots n (Function.update f i v) = (v.toList : Multiset α) + m := by
  obtain ⟨xs, ys, hxy⟩ := List.append_of_mem (List.mem_range.mpr hi)
  have hnd : (xs ++ i :: ys).Nodup := hxy ▸ List.nodup_range
  rw [List.nodup_append, List.nodup_cons] at hnd
  refine ⟨(xs.filterMap f ++ ys.filterMap f : List α), fun v => ?_⟩
  have same : ∀ zs : List ℕ, i ∉ zs →
      zs.filterMap (Function.update f i v) = zs.filterMap f := by
    intro zs hz
    refine List.filterMap_congr fun j hj => ?_
    have hj : j ≠ i := ne_of_mem_of_not_mem hj hz
    simp [hj]
  have hx : i ∉ xs := fun hm => hnd.2.2 i hm i List.mem_cons_self rfl
  rw [slots, hxy, List.filterMap_append, List.filterMap_cons, same xs hx, same ys hnd.2.1.1,
    Function.update_self]
  cases v with
  | none => simp
  | some a =>
      simp only [Option.toList_some, ← Multiset.coe_add, ← Multiset.cons_coe]
      simp

end Multisets

/-- A sum over the slots below `n` when one of them changes. -/
theorem sum_update {β : Type} {n i : ℕ} (hi : i < n) (f : ℕ → β) (g : β → ℕ) (v : β) :
    ∑ j ∈ Finset.range n, g (Function.update f i v j) + g (f i) =
      ∑ j ∈ Finset.range n, g (f j) + g v := by
  have hm : i ∈ Finset.range n := Finset.mem_range.mpr hi
  rw [← Finset.add_sum_erase _ _ hm, ← Finset.add_sum_erase _ (fun j => g (f j)) hm,
    Function.update_self, Finset.sum_congr rfl fun j hj => by
      rw [Function.update_of_ne (Finset.ne_of_mem_erase hj)]]
  omega

end Interleave
