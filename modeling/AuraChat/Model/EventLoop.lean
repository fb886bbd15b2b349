import AuraChat.Lib.Reach

set_option autoImplicit false

/-!
# The functors of an event loop

`queue_in_loop` and `do_pending_functors` of `event_loop.cpp`, for functors of a type `φ` that threads named
by a type `τ` queue. Taking the lock is one step: while the loop calls the functors of a batch one after
another, any thread may queue more, and so may the functor that is being called.
-/

namespace AuraChat

open Interleave

/-- A functor in a queue, and the thread that has queued it. -/
structure QueuedFunctor (τ φ : Type) where
  thread : τ
  cb : φ
  deriving DecidableEq, Repr

structure EventLoop (τ φ : Type) where
  pendingFunctors : List (QueuedFunctor τ φ) := []
  /-- The functors of the batch that are still to be called, while `do_pending_functors` runs. -/
  fs : Option (List (QueuedFunctor τ φ)) := none
  /-- The functors that were queued, in the order in which they entered the lock; this and what follows is
  for the statements about runs. -/
  queued : List (QueuedFunctor τ φ) := []
  /-- The functors that were called. -/
  executed : List (QueuedFunctor τ φ) := []
  deriving DecidableEq, Repr

namespace EventLoop

variable {τ φ : Type}

inductive Label (τ φ : Type)
  | queueInLoop (thread : τ) (cb : φ)
  /-- `do_pending_functors` starts, and swaps the pending functors out. -/
  | swap
  /-- It calls the next functor of the batch. -/
  | call
  /-- It returns. -/
  | finish
  deriving DecidableEq, Repr

def step : Label τ φ → EventLoop τ φ → Option (EventLoop τ φ)
  | .queueInLoop thread cb, e =>
      some { e with
        pendingFunctors := e.pendingFunctors ++ [⟨thread, cb⟩]
        queued := e.queued ++ [⟨thread, cb⟩] }
  | .swap, e => match e.fs with
      | none => some { e with fs := some e.pendingFunctors, pendingFunctors := [] }
      | some _ => none
  | .call, e => match e.fs with
      | some (f :: rest) => some { e with fs := some rest, executed := e.executed ++ [f] }
      | _ => none
  | .finish, e => match e.fs with
      | some [] => some { e with fs := none }
      | _ => none

abbrev RunTo (e : EventLoop τ φ) : Prop := Reach step (fun _ _ => True) {} e

theorem exists_run (ls : List (Label τ φ)) (p : EventLoop τ φ → Prop)
    (h : ∃ e ∈ runAll step (fun _ _ => True) ls {}, p e) : ∃ e, RunTo e ∧ p e :=
  exists_reach ls h

def rest (e : EventLoop τ φ) : List (QueuedFunctor τ φ) := e.fs.getD []

/-- The packets that a thread has queued among some functors, in order; `packet` is the packet that a functor
hands to `send_packet_in_loop`. -/
def packetsOf {π : Type} [DecidableEq τ] (packet : φ → Option π) (thread : τ) (fs : List (QueuedFunctor τ φ)) :
    List π :=
  fs.filterMap fun f => if f.thread = thread then packet f.cb else none

end EventLoop

end AuraChat
