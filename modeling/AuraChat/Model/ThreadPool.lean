import AuraChat.Lib.Reach
import Mathlib.Logic.Function.Basic

set_option autoImplicit false

/-!
# The thread pool

`thread_pool.h`. A critical section of `mutex_` is one step: `wait` looks at its condition under the lock,
and goes to sleep or goes on in the same step. `notify_one` wakes one of the threads that sleep, whichever
it is, and a thread may also wake up for no reason.

* `Spot`: where a thread is;
* `ThreadPool`, `step`: the pool, with what it has accepted and started;
* `late`: the tasks that were accepted when every thread had left.
-/

namespace AuraChat

namespace Pool

/-- Where a thread of the pool is. -/
inductive Spot (τ : Type)
  /-- In front of the condition of `wait`. -/
  | looking
  /-- In `cv_.wait`. -/
  | asleep
  | running (task : τ)
  /-- It has returned. -/
  | left
  deriving DecidableEq, Repr

/-- How far the destructor is. -/
inductive Dtor
  | none | stopped | notified | returned
  deriving DecidableEq, Repr

structure ThreadPool (τ : Type) where
  threads : ℕ → Spot τ := fun _ => .looking
  tasks : List τ := []
  stop : Bool := false
  dtor : Dtor := .none
  accepted : List τ := []
  started : List τ := []
  late : List τ := []

variable {τ : Type}

def Spot.isAsleep : Spot τ → Bool
  | asleep => true
  | looking | running _ | left => false

def Spot.isLeft : Spot τ → Bool
  | left => true
  | looking | asleep | running _ => false

/-- A thread that is woken up looks at its condition. -/
def Spot.wake : Spot τ → Spot τ
  | asleep => looking
  | x => x

inductive Label (τ : Type)
  /-- `enqueue`, with the thread that `notify_one` wakes up. -/
  | enqueue (t : τ) (woken : Option ℕ)
  /-- A thread evaluates the condition of `wait`. -/
  | look (i : ℕ)
  | wakeUp (i : ℕ)
  /-- `task()` returns. -/
  | finish (i : ℕ)
  /-- The destructor sets `stop_`. -/
  | stop
  | notifyAll
  /-- The destructor has joined the threads. -/
  | join
  deriving DecidableEq, Repr

namespace ThreadPool

def setThread (i : ℕ) (x : Spot τ) (p : ThreadPool τ) : ThreadPool τ :=
  { p with threads := Function.update p.threads i x }

variable (n : ℕ)

def AllLeft (p : ThreadPool τ) : Prop := ∀ i < n, (p.threads i).isLeft = true

instance (p : ThreadPool τ) : Decidable (p.AllLeft n) := by unfold AllLeft; infer_instance

def Sleepy (p : ThreadPool τ) : Prop := ∃ i < n, (p.threads i).isAsleep = true

instance (p : ThreadPool τ) : Decidable (p.Sleepy n) := by unfold Sleepy; infer_instance

def push (t : τ) (p : ThreadPool τ) : ThreadPool τ :=
  { p with
    tasks := p.tasks ++ [t]
    accepted := p.accepted ++ [t]
    late := if p.AllLeft n then p.late ++ [t] else p.late }

/-- The thread takes the task at the front. -/
def take (i : ℕ) (t : τ) (rest : List τ) (p : ThreadPool τ) : ThreadPool τ :=
  { p.setThread i (.running t) with tasks := rest, started := p.started ++ [t] }

def step : Label τ → ThreadPool τ → Option (ThreadPool τ)
  | .enqueue t woken, p =>
      if p.dtor = .returned then none
      -- `enqueue` returns false
      else if 200000 < p.tasks.length then some p
      else match woken with
        | none => if p.Sleepy n then none else some (p.push n t)
        | some i =>
            if i < n ∧ (p.threads i).isAsleep then some ((p.push n t).setThread i .looking) else none
  | .look i, p =>
      match p.threads i with
      | .looking =>
          if i < n then
            match p.tasks with
            | t :: rest => some (p.take i t rest)
            | [] => if p.stop then some (p.setThread i .left) else some (p.setThread i .asleep)
          else none
      | .asleep | .running _ | .left => none
  | .wakeUp i, p =>
      if i < n ∧ (p.threads i).isAsleep then some (p.setThread i .looking) else none
  | .finish i, p =>
      match p.threads i with
      | .running _ => some (p.setThread i .looking)
      | .looking | .asleep | .left => none
  | .stop, p => if p.dtor = .none then some { p with stop := true, dtor := .stopped } else none
  | .notifyAll, p =>
      if p.dtor = .stopped then
        some { p with threads := fun i => (p.threads i).wake, dtor := .notified }
      else none
  | .join, p => if p.dtor = .notified ∧ p.AllLeft n then some { p with dtor := .returned } else none

end ThreadPool

end Pool

end AuraChat
