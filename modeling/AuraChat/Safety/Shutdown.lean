import AuraChat.Model.Sample
import AuraChat.Model.Shutdown
import AuraChat.Safety.Sessions

set_option autoImplicit false

/-!
# The order of the shutdown

`main` destroys the workers, the AI manager and the batch writer before the pool, whose threads go on with
the tasks that are left.

* `State.Spared`: a program that can no longer make a call on a destroyed object;
* `Unused`: `main` destroys an object when no task can make a call on it any more, and no such task is
  handed to the pool later;
* `unreached_step`, **`shutdown_safe`**: then no task makes one; `shutdown_unsafe`: otherwise one does.
-/

namespace AuraChat

open Interleave

variable {P : Params} {db : Store} {s s' : State} {l : Label} {gone : List Component} {t : Task}
  {q : Prog Reply Unit} {d d' : Shutdown}

/-! ## Tasks that spare the destroyed objects -/

/-- The context belongs to a destroyed worker. -/
def Net.Orphan (gone : List Component) (n : Net) (x : ℕ) : Prop :=
  ∃ w, (n.ctxs x).ownerWorker = some w ∧ .worker w ∈ gone

/-- The context that a call makes a session of. -/
def Call.binds : Call → Option ℕ
  | .bindEnter _ x | .bindStore _ x => some x
  | _ => none

/-- What a call may reply: a session of a context of a destroyed worker is one that is there now, and
`g_db_writer` is null once the batch writer is destroyed. -/
def State.Replies (gone : List Component) (s : State) : (a : Call) → Reply a → Prop
  | .dbWriter, r => r = true → .dbWriter ∉ gone
  | .sessionGet _, r => ∀ x, r = some x → s.net.Orphan gone x → ∃ uid e, s.sessions uid = some e ∧ e.ctx = x
  | .bindEnter _ _, r => ∀ old : Session, r = some old → s.net.Orphan gone old.ctx →
      ∃ uid e, s.sessions uid = some e ∧ e.ctx = old.ctx
  | _, _ => True

/-- A call of a task on a destroyed object, or one that makes a session of a context of a destroyed
worker. -/
def State.Reaches (gone : List Component) (t : Task) (s : State) (a : Call) : Prop :=
  (∃ x ∈ t.uses s.net a, x ∈ gone) ∨ ∃ x, a.binds = some x ∧ s.net.Orphan gone x

/-- The program of a task can no longer reach a destroyed object. -/
def State.Spared (gone : List Component) (t : Task) (q : Prog Reply Unit) (s : State) : Prop :=
  q.Spares (s.Replies gone) (s.Reaches gone t)

/-- A task that waits can no longer reach a destroyed object, whatever the language model does. -/
def State.SparedTask (P : Params) (gone : List Component) (s : State) (t : Task) : Prop :=
  ∀ script, s.Spared gone t (t.prog P script)

/-- **An object is destroyed when no task can reach it any more**, and later no task that can is handed to
the pool. -/
def Unused (P : Params) : ShutdownLabel → Shutdown → Prop
  | .server l, d => ∀ t, d.server.offers l = some t → d.server.SparedTask P d.gone t
  | .destroy, d => ∀ x rest, d.todo = x :: rest →
      (∀ t ∈ d.server.tasks, d.server.SparedTask P (x :: d.gone) t) ∧
      ∀ i t, d.server.threads i = some t → d.server.Spared (x :: d.gone) t.task t.prog

theorem spared_nil : s.Spared [] t q := by
  induction q with
  | ret x => trivial
  | call a k ih =>
      refine ⟨?_, fun r _ => ih r⟩
      rintro (⟨x, -, hx⟩ | ⟨x, -, w, -, hx⟩) <;> cases hx

/-- A change under which contexts keep their workers, and contexts of destroyed workers get no session. -/
structure OrphansKept (gone : List Component) (s s' : State) : Prop where
  owner : ∀ x, (s'.net.ctxs x).ownerWorker = (s.net.ctxs x).ownerWorker
  session : ∀ uid e, s'.sessions uid = some e → s.net.Orphan gone e.ctx →
    ∃ uid' e', s.sessions uid' = some e' ∧ e'.ctx = e.ctx

theorem OrphansKept.orphan_iff (h : OrphansKept gone s s') (x : ℕ) :
    s'.net.Orphan gone x ↔ s.net.Orphan gone x := by
  simp only [Net.Orphan, h.owner]

theorem OrphansKept.uses (h : OrphansKept gone s s') (t : Task) (a : Call) :
    t.uses s'.net a = t.uses s.net a := by
  have hc : a.component s'.net = a.component s.net := by
    cases a <;> simp only [Call.component, h.owner]
  cases t <;> simp only [Task.uses, hc]

theorem State.Spared.stable (hq : s.Spared gone t q) (h : OrphansKept gone s s') :
    s'.Spared gone t q := by
  refine Prog.Spares.mono hq (fun a r hr => ?_) (fun a ha => ?_)
  · cases a with
    | sessionGet uid =>
        intro x hx ho
        obtain ⟨uid', e, he, rfl⟩ := hr x hx ((h.orphan_iff x).mpr ho)
        exact h.session uid' e he ho
    | bindEnter uid y =>
        intro old hx ho
        obtain ⟨uid', e, he, hctx⟩ := hr old hx ((h.orphan_iff old.ctx).mpr ho)
        rw [← hctx] at ho ⊢
        exact h.session uid' e he ho
    | _ => exact hr
  · rcases ha with ⟨x, hx, hg⟩ | ⟨x, hb, ho⟩
    · exact .inl ⟨x, by rw [← h.uses]; exact hx, hg⟩
    · exact .inr ⟨x, hb, (h.orphan_iff x).mp ho⟩

/-! ## A step -/

theorem replies_of_act {o : Origin} {a : Call} {e : Ext} {r : Reply a} {s₁ : State}
    (h : act P o a e s = some (r, s₁)) (hdb : a = .dbWriter → .dbWriter ∉ gone) :
    s.Replies gone a r := by
  cases a with
  | dbWriter => exact fun _ => hdb rfl
  | sessionGet uid =>
      simp only [act, Option.some.injEq, Prod.mk.injEq] at h
      obtain ⟨rfl, -⟩ := h
      intro x hx _
      obtain ⟨e, he, rfl⟩ := Option.map_eq_some_iff.mp hx
      exact ⟨uid, e, he, rfl⟩
  | bindEnter uid y =>
      intro old hr _
      simp only [act] at h
      split at h
      · rename_i e he
        simp only [Option.some.injEq, Prod.mk.injEq] at h
        obtain ⟨rfl, -⟩ := h
        obtain rfl := Option.some.inj hr
        exact ⟨uid, e, he, rfl⟩
      · simp only [Option.some.injEq, Prod.mk.injEq] at h
        obtain ⟨rfl, -⟩ := h
        cases hr
  | _ => trivial

theorem next_of_binds {o : Origin} {uid : Int} {x : ℕ} (h : s.binds l = some (o, uid, x)) :
    ∃ a, s.next l = some (o, a) ∧ a.binds = some x := by
  unfold State.binds at h
  split at h
  · rename_i o' uid' x' hn
    cases h
    exact ⟨_, hn, rfl⟩
  · rename_i o' uid' x' hn
    split_ifs at h
    cases h
    exact ⟨_, hn, rfl⟩
  · cases h

theorem orphansKept_of_move (hwf : s.net.WF P) (h : Move P s l s')
    (hb : ∀ o a x, s.next l = some (o, a) → a.binds = some x → ¬ s.net.Orphan gone x) :
    OrphansKept gone s s' where
  owner := hwf.owner_eq (wf_move hwf h)
  session uid e he ho := by
    rcases move_sessions hwf h with hs | ⟨o, uid', x, hbind, hs⟩ | ⟨c, d, v, -, -, -, hs⟩
    · exact ⟨uid, e, hs ▸ he, rfl⟩
    · rw [hs, Function.update_apply] at he
      split_ifs at he
      · obtain rfl := Option.some.inj he
        obtain ⟨a, hn, ha⟩ := next_of_binds hbind
        exact absurd ho (hb o a x hn ha)
      · exact ⟨uid, e, he, rfl⟩
    · rw [hs, Function.update_apply] at he
      split_ifs at he
      exact ⟨uid, e, he, rfl⟩

/-- **No task can reach a destroyed object.** -/
structure Unreached (P : Params) (d : Shutdown) : Prop where
  wf : d.server.net.WF P
  tasks : ∀ t ∈ d.server.tasks, d.server.SparedTask P d.gone t
  threads : ∀ i t, d.server.threads i = some t → d.server.Spared d.gone t.task t.prog

theorem findNull_eq {s' : State} (h : s.findNull l = some s') :
    ∃ i e task script hist k, l = .thread i e ∧
      s.threads i = some ⟨task, script, hist, .call .dbWriter k⟩ ∧ s' = { s with
        threads := Function.update s.threads i
          (some ⟨task, script, hist ++ [⟨.dbWriter, false⟩], k false⟩)
        log := .did task.origin ⟨.dbWriter, false⟩ :: s.log } := by
  cases l with
  | thread i e =>
      simp only [State.findNull] at h
      split at h
      · rename_i task script hist k hi
        exact ⟨i, e, task, script, hist, k, rfl, hi, (Option.some.inj h).symm⟩
      · cases h
  | _ => cases h

theorem shutdown_cases (h : Shutdown.step P (.server l) d = some d') :
    ∃ s', d' = { d with server := s' } ∧
      (d.server.findNull l = some s' ∨
        (AuraChat.step P l d.server = some s' ∧
          (.dbWriter ∈ d.gone → d.server.findNull l = none))) := by
  have hstep : (d.server.stepWithout P d.gone l).map (fun s => { d with server := s }) = some d' := by
    cases l with
    | accept fd => cases h
    | _ =>
        simp only [Shutdown.step] at h
        split_ifs at h
        exact h
  obtain ⟨s', hs, rfl⟩ := Option.map_eq_some_iff.mp hstep
  refine ⟨s', rfl, ?_⟩
  unfold State.stepWithout at hs
  split_ifs at hs with hdb
  · cases hn : d.server.findNull l with
    | none =>
        rw [hn] at hs
        exact .inr ⟨hs, fun _ => rfl⟩
    | some s₁ =>
        rw [hn] at hs
        exact .inl hs
  · exact .inr ⟨hs, fun hg => absurd hg hdb⟩

theorem unreached_findNull (h : Unreached P d) (hn : d.server.findNull l = some s') :
    Unreached P { d with server := s' } := by
  obtain ⟨i, e, task, script, hist, k, -, hi, rfl⟩ := findNull_eq hn
  refine ⟨h.wf, h.tasks, fun j t' ht' => ?_⟩
  simp only [Function.update_apply] at ht'
  split_ifs at ht' with hj
  · obtain rfl := Option.some.inj ht'
    have hspared : d.server.Spared d.gone task (.call .dbWriter k) := h.threads i _ hi
    exact hspared.2 false nofun
  · exact h.threads j t' ht'

theorem unreached_move (h : Unreached P d) (hm : Move P d.server l s')
    (hnull : .dbWriter ∈ d.gone → d.server.findNull l = none)
    (hu : ∀ t, d.server.offers l = some t → d.server.SparedTask P d.gone t) :
    Unreached P { d with server := s' } := by
  have hkept : OrphansKept d.gone d.server s' := by
    refine orphansKept_of_move h.wf hm fun o a x hn hb ho => ?_
    cases l with
    | thread i e =>
        cases hi : d.server.threads i with
        | none =>
            simp only [State.next, hi] at hn
            cases hn
        | some t =>
            obtain ⟨task, script, hist, prog⟩ := t
            have hspared := h.threads i _ hi
            cases prog with
            | ret u =>
                simp only [State.next, hi] at hn
                cases hn
            | call a' k =>
                simp only [State.next, hi, Option.some.injEq, Prod.mk.injEq] at hn
                obtain ⟨-, rfl⟩ := hn
                exact hspared.1 (.inr ⟨x, hb, ho⟩)
    | _ => cases hn
  refine ⟨wf_move h.wf hm, fun t ht script => ?_, fun i t' ht' => ?_⟩
  · rcases move_offers hm ht with ht | ht
    · exact (h.tasks t ht script).stable hkept
    · exact (hu t ht script).stable hkept
  · rcases move_thread hm ht' with ht | ⟨-, t, ht, script, rfl⟩ | ⟨e, t, a, k, r, rfl, hi, hp, rfl, -, s₁, ha, -⟩
    · exact (h.threads i t' ht).stable hkept
    · exact (h.tasks t ht script).stable hkept
    · -- a call on a null `g_db_writer` is not one of these steps
      have hdb : a = .dbWriter → .dbWriter ∉ d.gone := by
        rintro rfl hg
        obtain ⟨task, script, hist, prog⟩ := t
        obtain rfl : prog = .call .dbWriter k := hp
        have := hnull hg
        simp only [State.findNull, hi] at this
        cases this
      have hspared := h.threads i t hi
      rw [hp] at hspared
      exact State.Spared.stable (hspared.2 r (replies_of_act ha hdb)) hkept

/-- **A step of the shutdown keeps the destroyed objects out of reach.** -/
theorem unreached_step {x : ShutdownLabel} (h : Unreached P d) (hu : Unused P x d)
    (hs : Shutdown.step P x d = some d') : Unreached P d' := by
  cases x with
  | server l =>
      obtain ⟨s', rfl, hn | ⟨hstep, hnull⟩⟩ := shutdown_cases hs
      · exact unreached_findNull h hn
      · exact unreached_move h (move_of_step h.wf hstep) hnull hu
  | destroy =>
      simp only [Shutdown.step] at hs
      split at hs
      · cases hs
      · rename_i x rest htodo
        split_ifs at hs
        obtain rfl := Option.some.inj hs
        obtain ⟨htasks, hthreads⟩ := hu x rest htodo
        exact ⟨h.wf, htasks, hthreads⟩

/-- **The shutdown order is safe for tasks that can reach no destroyed object.** From every state that the
server reaches, in every run of the shutdown in which an object is destroyed only when no task can make a
call on it any more, no pool thread is about to make a call on a destroyed object. -/
theorem shutdown_safe (hs : RunTo P db (fun _ _ => True) s) (h : ShutdownTo P (Unused P) s d)
    (i : ℕ) (e : Ext) : ∀ x ∈ d.server.touches (.thread i e), x ∉ d.gone := by
  have hinv : Unreached P d := h.invariant (Unreached P)
    ⟨wf_of_run hs, fun t _ script => spared_nil, fun i t _ => spared_nil⟩
    fun _ _ _ hu hi hs => unreached_step hi hu hs
  intro x hx hg
  simp only [State.touches] at hx
  split at hx
  · rename_i task script hist a k hi
    have hspared : d.server.Spared d.gone task (.call a k) := hinv.threads i _ hi
    exact hspared.1 (.inl ⟨x, hx, hg⟩)
  · cases hx

/-! ## Shutdowns of the small server -/

/-- The small server with two workers. -/
def Sample.pair : Params := { params with cfg := { params.cfg with workerNum := 2 } }

/-- A heartbeat on a connection of the second worker. -/
def Sample.heartbeatTask : Task := .business ⟨0, 0, 5⟩ (header .heartbeat [] 1) []

theorem Sample.heartbeat_spared (hown : (s.net.ctxs 5).ownerWorker = some 1) :
    s.SparedTask pair [.worker 0] heartbeatTask := by
  intro script
  have hprog : heartbeatTask.prog pair script = .call (.loadUid 5) fun uid =>
      .call (.queueSendPacket 5 .ack 1
        (codec.serializeResponse { success := true, uid := uid, msg := "PONG" }) .reply) fun _ =>
          .ret () := rfl
  rw [hprog]
  refine ⟨?_, fun uid _ => ⟨?_, fun _ _ => trivial⟩⟩
  · rintro (⟨x, hx, -⟩ | ⟨x, hb, -⟩)
    · cases hx
    · cases hb
  · rintro (⟨x, hx, hg⟩ | ⟨x, hb, -⟩)
    · simp only [heartbeatTask, Task.uses, Call.component, hown, Option.map_some, Option.toList_some,
        List.mem_singleton] at hx
      subst hx
      simp at hg
    · cases hb

/-- A step of a pool thread. -/
def ShutdownLabel.ofPool : ShutdownLabel → Bool
  | .server (.dequeue _ _) | .server (.thread _ _) => true
  | _ => false

theorem unused_of_pool {x : ShutdownLabel} (h : x.ofPool = true) : Unused P x d := by
  cases x with
  | server l =>
      intro t ht
      cases l with
      | dequeue | thread => cases ht
      | _ => cases h
  | destroy => cases h

/-- The first worker is destroyed; then a thread takes the heartbeat and is about to queue the reply on the
second worker. -/
theorem shutdown_safe_sample : ∃ s d, RunTo Sample.pair Sample.db (fun _ _ => True) s ∧
    ShutdownTo Sample.pair (Unused Sample.pair) s d ∧ d.gone = [.worker 0] ∧
    d.server.touches (.thread 0 {}) = [.worker 1] ∧
    ∀ x ∈ d.server.touches (.thread 0 {}), x ∉ d.gone := by
  let left : List Component := [.worker 1, .streamingAi, .dbWriter]
  obtain ⟨s, hr, hstop, htasks, hidle, hown, d, hd, hgone, htouch⟩ :
      ∃ s, RunTo Sample.pair Sample.db (fun _ _ => True) s ∧ Component.stops s (.worker 0) ∧
        s.tasks = [Sample.heartbeatTask] ∧
        (∀ i < Sample.pair.poolThreads, (s.threads i).isNone) ∧
        (s.net.ctxs 5).ownerWorker = some 1 ∧
        ∃ d ∈ runAll (Shutdown.step Sample.pair) (fun x _ => x.ofPool = true)
          [.server (.dequeue 0 {}), .server (.thread 0 {})] ⟨s, left, [.worker 0]⟩,
          d.gone = [.worker 0] ∧ d.server.touches (.thread 0 {}) = [.worker 1] :=
    exists_reach [.accept 5, .accept 6, .swap 1, .functor 1, Sample.packet 0 .heartbeat []] (by decide)
  have hdestroy : Unused Sample.pair .destroy (Shutdown.start Sample.pair s) := by
    intro x rest htodo
    obtain ⟨rfl, -⟩ := List.cons.inj htodo
    refine ⟨fun t ht => ?_, fun i t hi => ?_⟩
    · obtain rfl := List.mem_singleton.mp (htasks ▸ ht)
      exact Sample.heartbeat_spared hown
    · have hnone := hidle i ((traced_of_run hr).lt i t hi)
      rw [show s.threads i = some t from hi] at hnone
      cases hnone
  have hfirst : Shutdown.step Sample.pair .destroy (Shutdown.start Sample.pair s) =
      some ⟨s, left, [.worker 0]⟩ := if_pos hstop
  have hrun : ShutdownTo Sample.pair (Unused Sample.pair) s d :=
    (Reach.refl.tail hdestroy hfirst).trans
      ((reach_of_runAll _ hd).mono fun _ _ hx => unused_of_pool hx)
  exact ⟨s, d, hr, hrun, hgone, htouch, shutdown_safe hr hrun 0 {}⟩

/-- **A heartbeat that is queued when `main` leaves its loop is answered on a destroyed worker.** -/
theorem shutdown_unsafe : ∃ s d, RunTo Sample.params Sample.db (fun _ _ => True) s ∧
    ShutdownTo Sample.params (fun _ _ => True) s d ∧
    ∃ x ∈ d.server.touches (.thread 0 {}), x ∈ d.gone := by
  obtain ⟨s, hr, d, hd, hx⟩ := Sample.exists_run (fun _ _ => True)
    (Sample.connect 5 ++ [Sample.packet 0 .heartbeat []])
    (fun s => ∃ d ∈ runAll (Shutdown.step Sample.params) (fun _ _ => True)
      [.destroy, .server (.dequeue 0 {}), .server (.thread 0 {})] (Shutdown.start Sample.params s),
      ∃ x ∈ d.server.touches (.thread 0 {}), x ∈ d.gone) (by decide)
  exact ⟨s, d, hr, reach_of_runAll _ hd, hx⟩

end AuraChat
