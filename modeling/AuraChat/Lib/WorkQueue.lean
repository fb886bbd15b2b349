import AuraChat.Lib.Reach
import Mathlib.Logic.Function.Basic

set_option autoImplicit false

/-!
# Work queues

Tasks are put into a queue, and a fixed number of threads take them out at the front, each of them one at a
time. `accepted` and `started` record what has been put in and taken out.

* `Queue`, `Label`, `step`: the queue;
* **`inOrder`**: the tasks are started in the order in which they were accepted, each of them once.
-/

namespace WorkQueue

open Interleave

structure Queue (τ : Type) where
  tasks : List τ := []
  running : ℕ → Option τ := fun _ => none
  accepted : List τ := []
  started : List τ := []

inductive Label (τ : Type)
  | accept (t : τ)
  /-- A thread takes the next task. -/
  | start (i : ℕ)
  | finish (i : ℕ)

variable {τ : Type}

def step (n : ℕ) : Label τ → Queue τ → Option (Queue τ)
  | .accept t, q => some { q with tasks := q.tasks ++ [t], accepted := q.accepted ++ [t] }
  | .start i, q =>
      match q.running i, q.tasks with
      | none, t :: rest =>
          if i < n then
            some { q with
              tasks := rest
              running := Function.update q.running i (some t)
              started := q.started ++ [t] }
          else none
      | _, _ => none
  | .finish i, q =>
      match q.running i with
      | some _ => some { q with running := Function.update q.running i none }
      | none => none

variable {n : ℕ} {q q' : Queue τ} {l : Label τ} {C : Label τ → Queue τ → Prop}

theorem step_start {i : ℕ} {t : τ} {rest : List τ} (hi : q.running i = none) (ht : q.tasks = t :: rest)
    (hlt : i < n) : step n (.start i) q = some { q with
      tasks := rest
      running := Function.update q.running i (some t)
      started := q.started ++ [t] } := by
  simp only [step, hi, ht, if_pos hlt]

theorem step_finish {i : ℕ} {t : τ} (hi : q.running i = some t) :
    step n (.finish i) q = some { q with running := Function.update q.running i none } := by
  simp only [step, hi]

/-- A task that is accepted waits, and the one that is started is the one that has waited longest. -/
theorem order_step (h : q.accepted = q.started ++ q.tasks) (hs : step n l q = some q') :
    q'.accepted = q'.started ++ q'.tasks := by
  cases l with
  | accept t =>
      cases hs
      show q.accepted ++ [t] = q.started ++ (q.tasks ++ [t])
      rw [h, List.append_assoc]
  | start i =>
      rw [step] at hs
      split at hs
      case h_2 => cases hs
      case h_1 t rest hi ht =>
        split_ifs at hs with hlt
        obtain rfl := Option.some.inj hs
        show q.accepted = q.started ++ [t] ++ rest
        rw [h, ht, List.append_assoc]
        rfl
  | finish i =>
      rw [step] at hs
      split at hs
      case h_2 => cases hs
      case h_1 t hi =>
        obtain rfl := Option.some.inj hs
        exact h

/-- **The tasks are started in order**, each of them once. -/
theorem inOrder (h : Reach (step n) C ({} : Queue τ) q) : q.accepted = q.started ++ q.tasks :=
  h.invariant (fun q => q.accepted = q.started ++ q.tasks) rfl fun _ _ _ _ hq hs => order_step hq hs

end WorkQueue
