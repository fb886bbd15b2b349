import AuraChat.Server.Guards
import AuraChat.Server.Moves

set_option autoImplicit false

/-!
# Threads, tasks and the record of a run

Every thread is on a path of its task's program, its calls are in the record, and every task,
thread, AI request and queued frame goes back to a packet that was received on a connection which
held the context then.

* `Received`, `Known`, `Traced`, **`traced_of_run`**;
* `Traced.guard`, `Traced.next_guard`: what a thread has done before its next call.
-/

namespace AuraChat

open Interleave

variable {P : Params} {db : Store} {C : Label → State → Prop} {s s' : State} {l : Label}

/-- A packet with this origin was received. -/
def Received (s : State) (o : Origin) : Prop := ∃ hdr body, .received o hdr body ∈ s.log

/-- The packet of a task was received. -/
def Known (s : State) : Task → Prop
  | .business o hdr body => .received o hdr body ∈ s.log
  | .stream req => Received s req.origin

theorem Known.received {t : Task} (h : Known s t) : Received s t.origin := by
  cases t with
  | business o hdr body => exact ⟨hdr, body, h⟩
  | stream req => exact h

theorem Received.mono {o : Origin} (h : Received s o) (hlog : s.log ⊆ s'.log) : Received s' o := by
  obtain ⟨hdr, body, h⟩ := h
  exact ⟨hdr, body, hlog h⟩

theorem Known.mono {t : Task} (h : Known s t) (hlog : s.log ⊆ s'.log) : Known s' t := by
  cases t with
  | business o hdr body => exact hlog h
  | stream req => exact Received.mono h hlog

/-- **Everything at work goes back to a received packet.** -/
structure Traced (P : Params) (s : State) : Prop where
  lt : ∀ i t, s.threads i = some t → i < P.poolThreads
  path : ∀ i t, s.threads i = some t → Prog.Path (t.task.prog P t.script) t.hist t.prog
  hist : ∀ i t, s.threads i = some t → ∀ e ∈ t.hist, .did t.task.origin e ∈ s.log
  thread : ∀ i t, s.threads i = some t → Known s t.task
  task : ∀ t ∈ s.tasks, Known s t
  pending : ∀ req ∈ s.ai.pending, Received s req.origin
  handoff : ∀ req, s.ai.handoff = some req → Received s req.origin
  active : ∀ p ∈ s.ai.active, Received s p.2.origin
  frame : ∀ w, ∀ f ∈ (s.net.workers w).queue, ∀ fr, f.job = .send fr → Received s fr.origin
  conn : ∀ o hdr body, .received o hdr body ∈ s.log →
    ∃ d, s.net.conns o.conn = some d ∧ d.ctx = o.ctx

theorem Traced.guard (h : Traced P s) {i : ℕ} {t : Thread} {a : Call}
    {k : Reply a → Prog Reply Unit} (hi : s.threads i = some t) (hp : t.prog = .call a k) :
    Guard P t.task t.hist a := by
  have hpath := h.path i t hi
  rw [hp] at hpath
  exact hpath.guard (task_guard P t.task t.script)

theorem traced_init : Traced P (State.init P db) where
  lt _ _ h := by cases h
  path _ _ h := by cases h
  hist _ _ h := by cases h
  thread _ _ h := by cases h
  task _ h := by cases h
  pending _ h := by cases h
  handoff _ h := by cases h
  active _ h := by cases h
  frame w f hf := by simp [State.init] at hf
  conn _ _ _ h := by cases h

theorem Traced.next_guard (h : Traced P s) {o : Origin} {a : Call} (hn : s.next l = some (o, a)) :
    ∃ i e t, l = .thread i e ∧ s.threads i = some t ∧ t.task.origin = o ∧ Guard P t.task t.hist a := by
  obtain ⟨i, e, t, k, rfl, hi, ho, hp⟩ := next_cases hn
  exact ⟨i, e, t, rfl, hi, ho, h.guard hi hp⟩

theorem Traced.next_received (h : Traced P s) {o : Origin} {a : Call}
    (hn : s.next l = some (o, a)) : Received s o := by
  obtain ⟨i, e, t, k, rfl, hi, rfl, hp⟩ := next_cases hn
  exact (h.thread i t hi).received

theorem traced_move (hwf : s.net.WF P) (ht : Traced P s) (h : Move P s l s') : Traced P s' := by
  have hlog := move_log h
  have requests : ∀ req, (req ∈ s'.ai.pending ∨ s'.ai.handoff = some req ∨
      ∃ p ∈ s'.ai.active, p.2 = req) → Received s' req.origin := by
    intro req hr
    refine Received.mono ?_ hlog
    rcases move_request h hr with (hr | hr | ⟨p, hp, rfl⟩) | ⟨o, fd, hn⟩
    · exact ht.pending req hr
    · exact ht.handoff req hr
    · exact ht.active p hp
    · obtain ⟨i, e, t, -, hi, rfl, hg⟩ := ht.next_guard hn
      have ho : req.origin = t.task.origin := hg
      rw [ho]
      exact (ht.thread i t hi).received
  refine ⟨?lt, ?path, ?hist, ?thread, ?task, fun req hr => requests req (.inl hr),
    fun req hr => requests req (.inr (.inl hr)),
    fun p hp => requests p.2 (.inr (.inr ⟨p, hp, rfl⟩)), ?frame, ?conn⟩
  case lt =>
    intro i t' ht'
    rcases move_thread h ht' with hi | ⟨hlt, -⟩ | ⟨e, t, a, k, r, -, hi, -⟩
    · exact ht.lt i t' hi
    · exact hlt
    · exact ht.lt i t hi
  case path =>
    intro i t' ht'
    rcases move_thread h ht' with hi | ⟨-, t, -, script, rfl⟩ | ⟨e, t, a, k, r, -, hi, hp, rfl, -⟩
    · exact ht.path i t' hi
    · exact .nil
    · have hpath := ht.path i t hi
      rw [hp] at hpath
      exact hpath.snoc r
  case hist =>
    intro i t' ht'
    rcases move_thread h ht' with hi | ⟨-, t, -, script, rfl⟩ | ⟨e', t, a, k, r, -, hi, hp, rfl, hm, -⟩
    · exact fun e he => hlog (ht.hist i t' hi e he)
    · exact List.forall_mem_nil _
    · exact List.forall_mem_append.mpr ⟨fun e he => hlog (ht.hist i t hi e he),
        List.forall_mem_singleton.mpr hm⟩
  case thread =>
    intro i t' ht'
    refine Known.mono ?_ hlog
    rcases move_thread h ht' with hi | ⟨-, t, hm, script, rfl⟩ | ⟨e', t, a, k, r, -, hi, hp, rfl, -⟩
    · exact ht.thread i t' hi
    · exact ht.task t hm
    · exact ht.thread i t hi
  case task =>
    intro t hm
    rcases move_task h hm with hm | ⟨o, hdr, body, rfl, hr⟩ | ⟨req, rfl, hh⟩
    · exact (ht.task t hm).mono hlog
    · exact hr
    · exact (ht.handoff req hh).mono hlog
  case frame =>
    intro w f hf fr hjob
    refine Received.mono ?_ hlog
    rcases move_queue h hf with hf | ⟨-, hnew⟩
    · exact ht.frame w f hf fr hjob
    · rw [hjob] at hnew
      cases hnew with
      | send o x cmd seq body why hn => exact ht.next_received hn
      | expire req _ hr ho hx hy => rw [ho]; exact ht.pending req hr
  case conn =>
    intro o hdr body hr
    rcases move_received h hr with hr | ⟨-, d, hd, hx, hnet⟩
    · obtain ⟨d, hd, hx⟩ := ht.conn o hdr body hr
      obtain ⟨ph, hd'⟩ := move_conn hwf h hd
      exact ⟨_, hd', hx⟩
    · exact ⟨d, by rw [hnet]; exact hd, hx⟩

/-- **In every state that a run reaches, everything at work goes back to a received packet.** -/
theorem traced_of_run (h : RunTo P db C s) : Traced P s :=
  run_invariant h (Traced P) traced_init fun _ _ _ _ hwf _ ht hm => traced_move hwf ht hm

/-- A call is made for a received packet. -/
theorem received_of_did (h : RunTo P db C s) :
    ∀ o (ev : Event Reply), .did o ev ∈ s.log → Received s o := by
  refine run_invariant h (fun s => ∀ o (ev : Event Reply), .did o ev ∈ s.log → Received s o)
    (fun _ _ hd => by cases hd) fun l s s' hr _ _ ih hm o ev hd => ?_
  rcases move_did hm hd with hd | ⟨i, e, t, k, s₁, -, hi, rfl, -⟩
  · exact (ih o ev hd).mono (move_log hm)
  · exact ((traced_of_run hr).thread i t hi).received.mono (move_log hm)

theorem Traced.conn_of_received (h : Traced P s) {o : Origin} (hr : Received s o) :
    ∃ d, s.net.conns o.conn = some d ∧ d.ctx = o.ctx := by
  obtain ⟨hdr, body, hr⟩ := hr
  exact h.conn o hdr body hr

/-- A frame that has been appended was queued on the worker of its context, which is that of the
connection. -/
theorem appended_ctx (h : RunTo P db C s) :
    ∀ c f v, .appended c f v ∈ s.log → (∃ d, s.net.conns c = some d ∧ d.ctx = f.ctx) ∧
      ∃ w, (s.net.ctxs f.ctx).ownerWorker = some w := by
  refine run_invariant h (fun s => ∀ c f v, .appended c f v ∈ s.log →
    (∃ d, s.net.conns c = some d ∧ d.ctx = f.ctx) ∧ ∃ w, (s.net.ctxs f.ctx).ownerWorker = some w)
    (fun _ _ _ ha => by cases ha) fun l s s' hr hwf _ ih hm c f v ha => ?_
  have hold : (∃ d, s.net.conns c = some d ∧ d.ctx = f.ctx) ∧
      ∃ w, (s.net.ctxs f.ctx).ownerWorker = some w := by
    rcases move_appended hm ha with ha | ⟨w, num, rest, d, -, hb, hq, hacc, -⟩
    · exact ih c f v ha
    · have hmem : (⟨num, .send f⟩ : Functor) ∈ (s.net.workers w).queue := by simp [Worker.queue, hq]
      have hown := hwf.send_owner w _ hmem f rfl
      obtain ⟨hd, -, -, hx⟩ := hwf.route_eq hb hown (Option.filter_eq_some_iff.mp hacc).1
      exact ⟨⟨d, hd, hx⟩, w, hown⟩
  obtain ⟨⟨d, hd, hx⟩, w, hown⟩ := hold
  obtain ⟨ph, hd'⟩ := move_conn hwf hm hd
  exact ⟨⟨_, hd', hx⟩, w, (hwf.owner_eq (wf_move hwf hm) f.ctx).trans hown⟩

end AuraChat
