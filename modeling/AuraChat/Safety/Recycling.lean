import AuraChat.Safety.Carried
import AuraChat.Safety.Provenance
import AuraChat.Safety.Requests
import AuraChat.Safety.Settling

set_option autoImplicit false

/-!
# Contexts that are used again

A context goes back to its pool when its connection closes, and the next connection may get it while packets of
the first one are still at work: their answers then go to the new connection. They do not where a new
connection only gets a context that nothing is left to do for.

* `State.unused`, `Unrecycled`: nothing is at work for a context, and no other one is taken from a pool;
* `Owned`, `owned_of_run`: what is at work for the context of a connection came in on it;
* **`appended_own`**: what goes back to the sender of a packet goes to the connection that it came in on;
* `numbered_reply`, `chunk_asked`: the answers and the chunks go back to the sender.
-/

namespace AuraChat

open Interleave

variable {P : Params} {db : Store} {C : Label → State → Prop} {s s' : State} {l : Label}

/-- Nothing is left to do for the context `x`: no task, no thread, no AI request and no queued frame. -/
def State.unused (P : Params) (s : State) (x : ℕ) : Prop :=
  (∀ t ∈ s.tasks, t.origin.ctx ≠ x) ∧
  (∀ i < P.poolThreads, ∀ t ∈ s.threads i, t.task.origin.ctx ≠ x) ∧
  (∀ req ∈ s.ai.pending ++ s.ai.handoff.toList, req.origin.ctx ≠ x) ∧
  ∀ w < P.cfg.workerNum, ∀ f ∈ waitingFrames (s.net.workers w).queue, f.ctx ≠ x

instance (s : State) (x : ℕ) : Decidable (s.unused P x) := by unfold State.unused; infer_instance

/-- A new connection gets a context that nothing is left to do for. -/
def Unrecycled (P : Params) (l : Label) (s : State) : Prop :=
  ∀ w ∈ s.adds l, s.unused P (s.net.acquire P w).1

instance (l : Label) (s : State) : Decidable (Unrecycled P l s) := by unfold Unrecycled; infer_instance

theorem live_back (h : Move P s l s') {c : ℕ} {d : Conn} (hd : s'.net.conns c = some d) (hl : d.Live) :
    (∃ d₀, s.net.conns c = some d₀ ∧ d₀.Live ∧ d₀.ctx = d.ctx) ∨
      ∃ w, s.adds l = some w ∧ d.ctx = (s.net.acquire P w).1 := by
  rcases move_conns h with e | ⟨c₀, d₀, ph, hd₀, hl₀, -, e⟩ | ⟨w, fd, num, rest, hadds, -, -, e⟩
  · exact .inl ⟨d, by rwa [e] at hd, hl, rfl⟩
  · rw [e, Function.update_apply] at hd
    split_ifs at hd with hc
    · obtain rfl := Option.some.inj hd
      exact .inl ⟨d₀, hc ▸ hd₀, hl₀, rfl⟩
    · exact .inl ⟨d, hd, hl, rfl⟩
  · rw [e, Function.update_apply] at hd
    split_ifs at hd with hc
    · obtain rfl := Option.some.inj hd
      exact .inr ⟨w, hadds, rfl⟩
    · exact .inl ⟨d, hd, hl, rfl⟩

/-- The task is on the pool. -/
def State.has (s : State) (t : Task) : Prop := t ∈ s.tasks ∨ ∃ i th, s.threads i = some th ∧ th.task = t

/-- Something is at work for the packet `o`: a task, or an AI request that has not been put on the pool. -/
inductive State.WorksFor (s : State) (o : Origin) : Prop
  | task (t : Task) (h : s.has t) (ho : t.origin = o)
  | request (req : StreamRequest) (h : req ∈ s.ai.pending ∨ s.ai.handoff = some req) (ho : req.origin = o)

/-- The step of a thread, or of `handle_read`, is taken for the packet `o`. -/
def State.tends (s : State) (l : Label) (o : Origin) : Prop :=
  s.adds l = none ∧ (s.WorksFor o ∨ ∃ d, s.net.conns o.conn = some d ∧ d.phase = .opened ∧ d.ctx = o.ctx)

theorem tends_of_next {o : Origin} {a : Call} (hn : s.next l = some (o, a)) : s.tends l o := by
  obtain ⟨i, e, t, k, rfl, hi, rfl, -⟩ := next_cases hn
  exact ⟨rfl, .inl (.task t.task (.inr ⟨i, t, hi, rfl⟩) rfl)⟩

theorem task_back (h : Move P s l s') {t : Task} (hh : s'.has t) : s.WorksFor t.origin ∨ s.tends l t.origin := by
  have waits : ∀ {t : Task}, t ∈ s'.tasks → s.WorksFor t.origin ∨ s.tends l t.origin := by
    intro t hm
    rcases move_offers h hm with hm | hoffer
    · exact .inl (.task t (.inl hm) rfl)
    cases h with
    | read c d hdr body ts hd hev hfr hts =>
        rw [State.offers, hd] at hoffer
        obtain rfl := Option.some.inj hoffer
        exact .inr ⟨rfl, .inr ⟨d, hd, hev.1, rfl⟩⟩
    | dispatch req ts hhand hts =>
        rw [State.offers, hhand] at hoffer
        obtain rfl := Option.some.inj hoffer
        exact .inl (.request req (.inr hhand) rfl)
    | _ => cases hoffer
  rcases hh with hm | ⟨i, t', hi, rfl⟩
  · exact waits hm
  · rcases move_thread h hi with hi | ⟨-, t, hm, script, rfl⟩ | ⟨e, t, a, k, r, -, hi₀, -, rfl, -⟩
    · exact .inl (.task t'.task (.inr ⟨i, t', hi, rfl⟩) rfl)
    · exact .inl (.task t (.inl hm) rfl)
    · exact .inl (.task t.task (.inr ⟨i, t, hi₀, rfl⟩) rfl)

/-- What is at work for a packet was at work before the step, or the step is taken for this packet. -/
theorem works_back (ht : Traced P s) (h : Move P s l s') {o : Origin} (hw : s'.WorksFor o) :
    s.WorksFor o ∨ s.tends l o := by
  cases hw with
  | task t hh ho =>
      subst ho
      exact task_back h hh
  | request req hr ho =>
      subst ho
      have submitted : ∀ {o : Origin} {fd : Int}, s.next l = some (o, .aiEnqueue fd req) →
          s.tends l req.origin := by
        intro o fd hn
        obtain ⟨i, e, t, -, -, rfl, hg⟩ := ht.next_guard hn
        have hreq : req.origin = t.task.origin := hg
        rw [hreq]
        exact tends_of_next hn
      have hmem : req ∈ s'.ai.pending ++ s'.unfinished P := by
        rcases hr with hr | hr
        · exact List.mem_append_left _ hr
        · refine List.mem_append_right _ (List.mem_append_left _ (List.mem_append_left _ ?_))
          rw [hr]
          exact Option.mem_toList.mpr rfl
      rcases carried_back h hmem with hmem | ⟨o, fd, hn⟩
      · rcases List.mem_append.mp hmem with hp | hu
        · exact .inl (.request req (.inl hp) rfl)
        · rcases (mem_unfinished ht).mp hu with hh | hm | ⟨i, hi⟩
          · exact .inl (.request req (.inr hh) rfl)
          · exact .inl (.task _ (.inl hm) rfl)
          · obtain ⟨t, a, k, hth, htask, -⟩ := running_eq_some.mp hi
            exact .inl (.task t.task (.inr ⟨i, t, hth, rfl⟩) (by rw [htask]; rfl))
      · exact .inr (submitted hn)

theorem frame_back (h : Move P s l s') {w : ℕ} {f : Frame}
    (hf : f ∈ waitingFrames (s'.net.workers w).queue) :
    f ∈ waitingFrames (s.net.workers w).queue ∨ s.tends l f.origin := by
  obtain ⟨g, hg, hjob⟩ := mem_waitingFrames.mp hf
  rcases move_queue h hg with hg | ⟨-, hnew⟩
  · exact .inl (mem_waitingFrames.mpr ⟨g, hg, hjob⟩)
  rw [hjob] at hnew
  cases hnew with
  | expire req _ hr ho hx hy hl =>
      obtain ⟨now, rfl⟩ := hl
      exact .inr ⟨rfl, .inl (.request req (.inl hr) ho.symm)⟩
  | send o x cmd seq body why hn => exact .inr (tends_of_next hn)

/-- **What is at work for the context of a connection came in on this connection**: the packets and their
AI requests, and what is sent back to the sender. -/
structure Owned (s : State) : Prop where
  work : ∀ c d, s.net.conns c = some d → d.Live → ∀ o, s.WorksFor o → o.ctx = d.ctx → o.conn = c
  frame : ∀ c d, s.net.conns c = some d → d.Live → ∀ w, ∀ f ∈ waitingFrames (s.net.workers w).queue,
    f.ctx = f.origin.ctx → f.ctx = d.ctx → f.origin.conn = c

theorem State.unused.idle (ht : Traced P s) {x : ℕ} (hu : s.unused P x) {o : Origin} (hw : s.WorksFor o) :
    o.ctx ≠ x := by
  obtain ⟨htasks, hthreads, hreqs, -⟩ := hu
  cases hw with
  | task t hh ho =>
      subst ho
      rcases hh with hm | ⟨i, t', hi, rfl⟩
      · exact htasks t hm
      · exact hthreads i (ht.lt i t' hi) t' hi
  | request req hr ho =>
      subst ho
      refine hreqs req (List.mem_append.mpr (hr.imp_right fun hh => ?_))
      rw [hh]
      exact Option.mem_toList.mpr rfl

theorem Owned.tends (hwf : s.net.WF P) (ho : Owned s) {o : Origin} (hw : s.tends l o) {c : ℕ} {d : Conn}
    (hd : s.net.conns c = some d) (hl : d.Live) (hx : o.ctx = d.ctx) : o.conn = c := by
  rcases hw.2 with hw | ⟨d₁, hd₁, hop, hx₁⟩
  · exact ho.work c d hd hl o hw hx
  · exact hwf.ctx_inj o.conn d₁ c d hd₁ hd (Conn.holds_of_opened hop).live hl (hx₁.trans hx)

theorem owned_move (hwf : s.net.WF P) (ht : Traced P s) (hst : ∀ w, (s.net.workers w).queue ≠ [] →
    w < P.cfg.workerNum) (ho : Owned s) (hC : Unrecycled P l s) (h : Move P s l s') : Owned s' := by
  refine ⟨fun c d hd hl o hw hx => ?_, fun c d hd hl w f hf hback hx => ?_⟩
  · rcases live_back h hd hl with ⟨d₀, hd₀, hl₀, hx₀⟩ | ⟨w, hadds, hnew⟩
    · rcases works_back ht h hw with hw | hw
      · exact ho.work c d₀ hd₀ hl₀ o hw (hx.trans hx₀.symm)
      · exact ho.tends hwf hw hd₀ hl₀ (hx.trans hx₀.symm)
    -- the context is taken from the pool
    · rcases works_back ht h hw with hw | hw
      · exact absurd (hx.trans hnew) ((hC w hadds).idle ht hw)
      · exact absurd hw.1 (by rw [hadds]; exact Option.some_ne_none w)
  · rcases live_back h hd hl with ⟨d₀, hd₀, hl₀, hx₀⟩ | ⟨v, hadds, hnew⟩
    · rcases frame_back h hf with hf | hw
      · exact ho.frame c d₀ hd₀ hl₀ w f hf hback (hx.trans hx₀.symm)
      · exact ho.tends hwf hw hd₀ hl₀ (hback.symm.trans (hx.trans hx₀.symm))
    · rcases frame_back h hf with hf | hw
      · obtain ⟨g, hg, -⟩ := mem_waitingFrames.mp hf
        exact absurd (hx.trans hnew) ((hC v hadds).2.2.2 w (hst w (List.ne_nil_of_mem hg)) f hf)
      · exact absurd hw.1 (by rw [hadds]; exact Option.some_ne_none v)

theorem owned_of_run (h : RunTo P db (Unrecycled P) s) : Owned s := by
  refine run_invariant h Owned ⟨fun _ _ hd => (by cases hd), fun _ _ hd => (by cases hd)⟩
    fun _ _ _ hr hwf hC ho hm => ?_
  exact owned_move hwf (traced_of_run hr) (staffed_of_run hr).queue ho hC hm

/-- **What is sent back to the sender of a packet goes to the connection that it came in on.** -/
theorem appended_own (h : RunTo P db (Unrecycled P) s) {c : ℕ} {f : Frame} {uid : Int}
    (ha : .appended c f uid ∈ s.log) (hback : f.ctx = f.origin.ctx) : f.origin.conn = c := by
  refine run_invariant h (fun s => ∀ c f uid, .appended c f uid ∈ s.log → f.ctx = f.origin.ctx →
    f.origin.conn = c) (fun _ _ _ ha => by cases ha)
    (fun l s s' hr hwf _ ih hm c f uid ha hback => ?_) c f uid ha hback
  rcases move_appended hm ha with ha | ⟨w, num, rest, d, -, hb, hq, hacc, -⟩
  · exact ih c f uid ha hback
  · have hmem : (⟨num, .send f⟩ : Functor) ∈ (s.net.workers w).queue := by simp [Worker.queue, hq]
    have hown := hwf.send_owner w _ hmem f rfl
    obtain ⟨hd, -, hop, hx⟩ := hwf.route_eq hb hown (Option.filter_eq_some_iff.mp hacc).1
    exact (owned_of_run hr).frame c d hd (Conn.holds_of_opened hop).live w f
      (mem_waitingFrames.mpr ⟨_, hmem, rfl⟩) hback hx.symm

/-- **Only an answer has a number**: it is that of the packet, and the answer is for the context of the
packet. -/
theorem numbered_reply (h : RunTo P db C s) {c : ℕ} {f : Frame} {uid : Int}
    (ha : .appended c f uid ∈ s.log) (hseq : f.seq ≠ 0) : f.why = .reply ∧ f.ctx = f.origin.ctx ∧
      ∃ hdr body, .received f.origin hdr body ∈ s.log ∧ hdr.seq = f.seq := by
  cases (meant_of_run h).appended c f uid ha with
  | expired req chunk now _ hf =>
      subst hf
      exact absurd rfl hseq
  | said t hist ho hk _ hh hb hg =>
      obtain ⟨origin, x, cmd, seq, b, why⟩ := f
      cases t with
      | stream req => exact absurd hb.2.1 hseq
      | business o hdr body =>
          obtain rfl : o = origin := ho
          cases why with
          | reply => exact ⟨rfl, hg, hdr, body, hk, hb.1.symm⟩
          | chunk => exact hb.elim
          | forward | notify | offline => exact absurd hb.1 hseq

theorem chunk_asked (h : RunTo P db C s) {c : ℕ} {f : Frame} {uid : Int} (ha : .appended c f uid ∈ s.log)
    (hw : f.why = .chunk) : f.ctx = f.origin.ctx ∧
      ∃ fd req, req.origin = f.origin ∧ .did f.origin ⟨.aiEnqueue fd req, true⟩ ∈ s.log := by
  cases (meant_of_run h).appended c f uid ha with
  | expired req chunk now hask hf =>
      subst hf
      obtain ⟨-, fd, hd⟩ := hask
      exact ⟨rfl, fd, req, rfl, hd⟩
  | said t hist ho hk hask hh hb hg =>
      obtain ⟨origin, x, cmd, seq, b, why⟩ := f
      obtain rfl : why = .chunk := hw
      cases t with
      | stream req =>
          obtain rfl : req.origin = origin := ho
          obtain ⟨-, fd, hd⟩ := hask req rfl
          exact ⟨hg, fd, req, rfl, hd⟩
      | business => exact hb.elim

end AuraChat
