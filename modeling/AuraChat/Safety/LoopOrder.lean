import AuraChat.Model.EventLoop
import AuraChat.Server.Moves

set_option autoImplicit false

/-!
# The order of functors

Every functor that is queued in an event loop is called once, in the order of queueing, and the workers of
the server are event loops.

* `EventLoop.Ordered`: called, in the batch and pending are together what was queued;
* **`functors_in_order`**;
* `QueueStep`, `queueStep_of_move`: what a step of the server does with the functors of a worker;
* **`eventLoop_of_run`**: the functors of a worker are those of an event loop.
-/

namespace AuraChat

open Interleave

/-! ## One loop -/

namespace EventLoop

variable {τ φ : Type} {e e' : EventLoop τ φ} {l : Label τ φ}

/-- Called, in the batch and pending are together what was queued. -/
def Ordered (e : EventLoop τ φ) : Prop := e.executed ++ e.rest ++ e.pendingFunctors = e.queued

theorem step_swap (h : e.fs = none) :
    step .swap e = some { e with fs := some e.pendingFunctors, pendingFunctors := [] } := by
  simp only [step, h]

theorem step_call {f : QueuedFunctor τ φ} {rest : List (QueuedFunctor τ φ)} (h : e.fs = some (f :: rest)) :
    step .call e = some { e with fs := some rest, executed := e.executed ++ [f] } := by
  simp only [step, h]

theorem step_finish (h : e.fs = some []) : step .finish e = some { e with fs := none } := by
  simp only [step, h]

theorem Ordered.step (h : Ordered e) (hs : step l e = some e') : Ordered e' := by
  unfold Ordered rest at *
  cases l with
  | queueInLoop thread cb =>
      obtain rfl := Option.some.inj hs
      simp only
      rw [← h, List.append_assoc, List.append_assoc, List.append_assoc]
  | swap =>
      simp only [EventLoop.step] at hs
      split at hs
      · rename_i hfs
        obtain rfl := Option.some.inj hs
        simpa [hfs] using h
      · cases hs
  | call =>
      simp only [EventLoop.step] at hs
      split at hs
      · rename_i f rest hfs
        obtain rfl := Option.some.inj hs
        simpa [hfs] using h
      · cases hs
  | finish =>
      simp only [EventLoop.step] at hs
      split at hs
      · rename_i hfs
        obtain rfl := Option.some.inj hs
        simpa [hfs] using h
      · cases hs

theorem ordered_of_run (h : RunTo e) : Ordered e :=
  h.invariant Ordered rfl fun _ _ _ _ h hs => h.step hs

end EventLoop

/-- **Functors are called once, in order.** For every interleaving of threads that queue functors with the
rounds of `do_pending_functors`: the functors called so far, the rest of the batch and the pending functors
are together those that were queued, in the order in which they entered the lock. The packets of a thread are
handed to `send_packet_in_loop` in the order in which the thread queues them. -/
theorem functors_in_order {τ φ π : Type} [DecidableEq τ] (packet : φ → Option π) {e : EventLoop τ φ}
    (h : EventLoop.RunTo e) :
    e.executed ++ e.rest ++ e.pendingFunctors = e.queued ∧
      ∀ thread, EventLoop.packetsOf packet thread e.executed <+:
        EventLoop.packetsOf packet thread e.queued := by
  have hord := EventLoop.ordered_of_run h
  refine ⟨hord, fun thread => ?_⟩
  have hcalled : e.executed <+: e.queued := by
    rw [← hord, List.append_assoc]
    exact List.prefix_append _ _
  exact hcalled.filterMap _

/-- Threads 1 and 2 queue functors, and the first functor that is called queues one on its part. -/
theorem functors_in_order_sample : ∃ e : EventLoop ℕ ℕ, EventLoop.RunTo e ∧
    e.executed = [⟨1, 10⟩, ⟨2, 20⟩, ⟨0, 30⟩] ∧ e.executed ++ [⟨1, 11⟩] = e.queued ∧
    [10] <+: EventLoop.packetsOf some 1 e.queued := by
  let calls : List (EventLoop.Label ℕ ℕ) := [.queueInLoop 1 10, .queueInLoop 2 20, .swap, .call,
    .queueInLoop 0 30, .queueInLoop 1 11, .call, .finish, .swap, .call]
  obtain ⟨e, hr, hexec, hrest, hpend⟩ := EventLoop.exists_run calls
    (fun e => e.executed = [⟨1, 10⟩, ⟨2, 20⟩, ⟨0, 30⟩] ∧ e.rest = [⟨1, 11⟩] ∧ e.pendingFunctors = [])
    ⟨_, rfl, rfl, rfl, rfl⟩
  obtain ⟨hord, hpackets⟩ := functors_in_order (some : ℕ → Option ℕ) hr
  have hfirst := hpackets 1
  rw [hrest, hpend, List.append_nil] at hord
  rw [hexec] at hfirst
  exact ⟨e, hr, hexec, hord, hfirst⟩

/-! ## The workers -/

variable {P : Params} {db : Store} {C : Label → State → Prop} {s s' : State} {l : Label}

/-- The threads that queue functors. -/
inductive Caller
  | accepting
  | worker (w : ℕ)
  | pool (i : ℕ)
  | scheduler
  deriving DecidableEq, Repr

/-- The thread that makes a step. -/
def Label.caller : Label → Caller
  | .functor w => .worker w
  | .thread i _ => .pool i
  | .schedule _ => .scheduler
  | _ => .accepting

/-- The batch and the pending functors of a worker. -/
def Worker.functors (k : Worker) : List Functor × List Functor := (k.batch, k.pending)

/-- **What a step does with the functors of a worker**: nothing, it queues one, it swaps them out, or it
calls the next one, which may queue one. -/
inductive QueueStep (w : ℕ) (s : State) (l : Label) (s' : State) : Prop
  | kept (h : (s'.net.workers w).functors = (s.net.workers w).functors)
  | queues (f : Functor)
      (h : (s'.net.workers w).functors = ((s.net.workers w).batch, (s.net.workers w).pending ++ [f]))
  | swaps (hl : l = .swap w) (he : (s.net.workers w).batch = [])
      (h : (s'.net.workers w).functors = ((s.net.workers w).pending, []))
  | calls (f : Functor) (rest : List Functor) (new : Option Functor) (hl : l = .functor w)
      (he : (s.net.workers w).batch = f :: rest)
      (h : (s'.net.workers w).functors = (rest, (s.net.workers w).pending ++ new.toList))

section Net

variable (n : Net) (w w' : ℕ)

theorem updWorker_functors {f : Worker → Worker} (hf : ∀ k, (f k).functors = k.functors) :
    ((n.updWorker w f).workers w').functors = (n.workers w').functors := by
  rw [Net.updWorker_apply]
  split_ifs with e
  · rw [hf, e]
  · rfl

theorem addConnection_functors (fd : Int) :
    ((n.addConnection P w fd).workers w').functors = (n.workers w').functors := by
  have hacquire : ((n.acquire P w).2.workers w').functors = (n.workers w').functors := by
    unfold Net.acquire
    split
    · rfl
    · dsimp only
      exact updWorker_functors n w w' fun _ => rfl
  refine Eq.trans ?_ hacquire
  rw [Net.addConnection_eq, Worker.functors, Net.attach_workers]
  split_ifs with e
  · rw [e]
    rfl
  · rfl

theorem leave_functors (c : ℕ) (d : Conn) :
    ((n.leave c d).workers w').functors = (n.workers w').functors :=
  updWorker_functors _ d.worker w' fun _ => rfl

theorem releaseContext_functors (c : ℕ) (d : Conn) :
    ((n.releaseContext c d).workers w').functors = (n.workers w').functors := by
  unfold Net.releaseContext
  dsimp only
  split_ifs
  · exact updWorker_functors _ d.worker w' fun _ => rfl
  · exact updWorker_functors _ d.worker w' fun _ => rfl

theorem popBatch_functors (rest : List Functor) : ((n.popBatch w rest).workers w').functors =
    if w' = w then (rest, (n.workers w).pending) else (n.workers w').functors := by
  rw [Net.popBatch, Net.updWorker_apply]
  split_ifs <;> rfl

theorem push_functors (job : Job) : ((n.push w job).workers w').functors =
    if w' = w then ((n.workers w).batch, (n.workers w).pending ++ [⟨n.nextNum, job⟩])
    else (n.workers w').functors := by
  simp only [Net.push, Net.updWorker_apply]
  split_ifs <;> rfl

end Net

theorem QueueStep.of_push {w w₀ : ℕ} {job : Job}
    (h : ∀ w', (s'.net.workers w').functors = ((s.net.push w₀ job).workers w').functors) :
    QueueStep w s l s' := by
  have hw := h w
  rw [push_functors] at hw
  split_ifs at hw with e
  · subst e
    exact .queues _ hw
  · exact .kept hw

theorem QueueStep.of_pop {w w₀ : ℕ} {f : Functor} {rest : List Functor}
    (hq : (s.net.workers w₀).batch = f :: rest)
    (h : ∀ w', (s'.net.workers w').functors = ((s.net.popBatch w₀ rest).workers w').functors) :
    QueueStep w s (.functor w₀) s' := by
  have hw := h w
  rw [popBatch_functors] at hw
  split_ifs at hw with e
  · subst e
    exact .calls f rest none rfl hq (by rw [hw, Option.toList_none, List.append_nil])
  · exact .kept hw

theorem queueStep_of_move (w : ℕ) (h : Move P s l s') : QueueStep w s l s' := by
  cases h with
  | accept fd h0 hfd => exact .of_push fun _ => rfl
  | swap w₀ hb hq =>
      have hw : ((s.net.updWorker w₀ fun k => { k with batch := k.pending, pending := [] }).workers w) =
          _ := Net.updWorker_apply ..
      split_ifs at hw with e
      · subst e
        exact .swaps rfl hq (by rw [hw]; rfl)
      · exact .kept (by rw [hw])
  | add w₀ num fd rest hb hq => exact .of_pop hq fun w' => addConnection_functors _ w₀ w' fd
  | sent w₀ num f rest c d hb hq ha => exact .of_pop hq fun _ => rfl
  | lost w₀ num f rest hb hq ha => exact .of_pop hq fun _ => rfl
  | overflow w₀ num f rest c d hb hq ha hr =>
      have hw := push_functors (s.net.popBatch w₀ rest) w₀ w (.close d.fd none)
      have hpop := popBatch_functors s.net w₀ w₀ rest
      rw [if_pos rfl] at hpop
      obtain ⟨hbatch, hpending⟩ := Prod.mk.inj hpop
      rw [popBatch_functors, hbatch, hpending] at hw
      split_ifs at hw with e
      · subst e
        exact .calls _ rest (some ⟨s.net.nextNum, .close d.fd none⟩) rfl hq hw
      · exact .kept hw
  | missed w₀ num fd kick rest hb hq hc => exact .of_pop hq fun _ => rfl
  | closed num kick rest c d hb hq hd hp => exact .of_pop hq fun w' => leave_functors _ w' c d
  | drop c d hd hev => exact .kept (leave_functors _ w c d)
  | release c d hd hp => exact .kept (releaseContext_functors _ w c d)
  | call i e t a k r s₁ hi hp ha =>
      cases act_effect ha with
      | send | kick => exact .of_push fun _ => rfl
      | _ => exact .kept rfl
  | expire req rest now w₀ f hq hw ho hx hy => exact .of_push fun _ => rfl
  | _ => exact .kept rfl

/-- The functors of a worker are those of a loop. -/
structure Follows (w : ℕ) (s : State) (e : EventLoop Caller Functor) : Prop where
  batch : e.rest.map QueuedFunctor.cb = (s.net.workers w).batch
  pending : e.pendingFunctors.map QueuedFunctor.cb = (s.net.workers w).pending

/-- A step of the server is a step of the loop, or of a thread that queues a functor in it. -/
theorem Follows.step {w : ℕ} {e : EventLoop Caller Functor} (h : Follows w s e) (hs : QueueStep w s l s') :
    ∃ e', Reach EventLoop.step (fun _ _ => True) e e' ∧ Follows w s' e' := by
  obtain ⟨hbatch, hpending⟩ := h
  cases hs with
  | kept h =>
      obtain ⟨hb, hp⟩ := Prod.mk.inj h
      exact ⟨e, .refl, hbatch.trans hb.symm, hpending.trans hp.symm⟩
  | queues f h =>
      obtain ⟨hb, hp⟩ := Prod.mk.inj h
      refine ⟨_, .tail .refl (l := .queueInLoop l.caller f) trivial rfl, hbatch.trans hb.symm, ?_⟩
      simp only [List.map_append, hpending, hp, List.map_cons, List.map_nil]
  | swaps hl he h =>
      obtain ⟨hb, hp⟩ := Prod.mk.inj h
      rw [he, List.map_eq_nil_iff] at hbatch
      -- the round before has come to its end, or it comes to it now
      have hround : ∃ e₁, Reach EventLoop.step (fun _ _ => True) e e₁ ∧ e₁.fs = none ∧
          e₁.pendingFunctors = e.pendingFunctors := by
        cases hfs : e.fs with
        | none => exact ⟨e, .refl, hfs, rfl⟩
        | some fs =>
            obtain rfl : fs = [] := by simpa [EventLoop.rest, hfs] using hbatch
            exact ⟨_, .tail .refl trivial (EventLoop.step_finish hfs), rfl, rfl⟩
      obtain ⟨e₁, hr, hfs, hpend⟩ := hround
      refine ⟨_, hr.tail trivial (EventLoop.step_swap hfs), ?_, hp.symm⟩
      rw [hb, ← hpending, ← hpend]
      rfl
  | calls f rest new hl he h =>
      obtain ⟨hb, hp⟩ := Prod.mk.inj h
      rw [he] at hbatch
      obtain ⟨q, qs, hfs, hqs⟩ : ∃ q qs, e.fs = some (q :: qs) ∧ qs.map QueuedFunctor.cb = rest := by
        cases hfs : e.fs with
        | none => simp [EventLoop.rest, hfs] at hbatch
        | some fs =>
            cases fs with
            | nil => simp [EventLoop.rest, hfs] at hbatch
            | cons q qs => exact ⟨q, qs, rfl, (List.cons.inj (by simpa [EventLoop.rest, hfs] using hbatch)).2⟩
      have hcall := Reach.refl.tail (C := fun _ _ => True) trivial (EventLoop.step_call hfs)
      cases new with
      | none =>
          refine ⟨_, hcall, hqs.trans hb.symm, ?_⟩
          rw [hp, Option.toList_none, List.append_nil]
          exact hpending
      | some g =>
          refine ⟨_, hcall.tail (l := .queueInLoop (.worker w) g) trivial rfl, hqs.trans hb.symm, ?_⟩
          simp only [List.map_append, hpending, hp, List.map_cons, List.map_nil, Option.toList_some]

/-- **The workers of the server are event loops.** -/
theorem eventLoop_of_run (h : RunTo P db C s) (w : ℕ) :
    ∃ e : EventLoop Caller Functor, EventLoop.RunTo e ∧ Follows w s e := by
  obtain ⟨hbatch, hpending⟩ := List.append_eq_nil_iff.mp (Net.init_queue P w)
  refine run_invariant h (fun s => ∃ e : EventLoop Caller Functor, EventLoop.RunTo e ∧ Follows w s e)
    ⟨{}, .refl, hbatch.symm, hpending.symm⟩ ?_
  rintro l s s' - - - ⟨e, he, hf⟩ hm
  obtain ⟨e', he', hf'⟩ := hf.step (queueStep_of_move w hm)
  exact ⟨e', he.trans he', hf'⟩

end AuraChat
