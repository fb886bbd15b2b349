import AuraChat.Safety.Delivery

set_option autoImplicit false

/-!
# The order of forwarded messages

The packets of a connection are tasks of their own: the pool takes them in the order of receipt, but
two threads work on two of them at the same time, and nothing keeps the later one from queueing its
frame first (`chat_overtaken`). From there on the order is kept: a worker runs its functors in the
order in which they were queued. So the frames for a recipient who is there are appended in the order
of receipt whenever no forward is queued while a thread still has one to make for an earlier packet of
the same connection.

* `InOrder`: the condition on a step;
* `Fifo`, `fifo_of_run`: the pool takes the packets in the order of receipt;
* `Past`: nothing is left to forward for the packets before one;
* `Ranked`, **`forwards_in_order`**.
-/

namespace AuraChat

open Interleave

variable {P : Params} {db : Store} {C : Label → State → Prop} {s s' : State} {l : Label} {u : Int}

/-- The packet was received before the other, on the same connection. -/
def Origin.Earlier (o o' : Origin) : Prop := o.conn = o'.conn ∧ o.pid < o'.pid

/-- The call forwards a chat message to user `u`. -/
def Call.forwards (u : Int) : Call → Prop
  | .queueSendPacket _ _ _ _ why => why = .forward u
  | _ => False

/-- A step that forwards a chat message to user `u` does so while no thread at work on an earlier
packet of the connection has a message to forward to `u`. -/
def InOrder (u : Int) (l : Label) (s : State) : Prop :=
  ∀ o a, s.next l = some (o, a) → a.forwards u →
    ∀ i t, s.threads i = some t → t.task.origin.Earlier o → t.prog.Avoids (Call.forwards u)

/-! ## The queue of the pool -/

/-- Of two packets, the first was received first. -/
def Task.Before : Task → Task → Prop
  | .business o _ _, .business o' _ _ => o.pid < o'.pid
  | _, _ => True

/-- **The pool takes the packets in the order of receipt.** -/
structure Fifo (s : State) : Prop where
  lt : ∀ o, Received s o → o.pid < s.nextPid
  sorted : s.tasks.Pairwise Task.Before
  ahead : ∀ i t, s.threads i = some t → ∀ t' ∈ s.tasks, t.task.Before t'

theorem move_pid (h : Move P s l s') :
    (s'.nextPid = s.nextPid ∧ ∀ o, Received s' o → Received s o) ∨ s'.nextPid = s.nextPid + 1 := by
  cases h with
  | read => exact .inr rfl
  | call i e t a k r s₁ hi hp ha =>
      have he := act_effect ha
      have hpid : s₁.nextPid = s.nextPid := by cases he <;> rfl
      refine .inl ⟨hpid, fun o ⟨hdr, body, hr⟩ => ⟨hdr, body, ?_⟩⟩
      rcases effect_log_eq he with e₁ | ⟨x, cmd, seq, body', why, -, e₁⟩ | ⟨m, -, e₁⟩
      all_goals simpa [e₁] using hr
  | _ => exact .inl ⟨rfl, fun o ⟨hdr, body, hr⟩ => ⟨hdr, body, by simpa [State.queueFrame] using hr⟩⟩

theorem move_tasks (h : Move P s l s') :
    s'.tasks = s.tasks ∨ (∃ t, s.tasks = t :: s'.tasks) ∨
      ∃ t, s'.tasks = s.tasks ++ [t] ∧
        ((∃ hdr body c x, t = .business ⟨s.nextPid, c, x⟩ hdr body) ∨ ∃ req, t = .stream req) := by
  cases h with
  | read c d hdr body ts hd hev hfr hts =>
      rcases hts with rfl | rfl
      · exact .inl rfl
      · exact .inr (.inr ⟨_, rfl, .inl ⟨hdr, body, c, d.ctx, rfl⟩⟩)
  | dispatch req ts hh hts =>
      rcases hts with rfl | rfl
      · exact .inl rfl
      · exact .inr (.inr ⟨_, rfl, .inr ⟨req, rfl⟩⟩)
  | dequeue i script t rest hlt hi hq => exact .inr (.inl ⟨t, hq⟩)
  | call i e t a k r s₁ hi hp ha => exact .inl (effect_threads (act_effect ha)).2.1
  | _ => exact .inl rfl

theorem move_at_work (h : Move P s l s') {i : ℕ} {t' : Thread} (ht : s'.threads i = some t') :
    (∃ t, s.threads i = some t ∧ t.task = t'.task) ∨ s.tasks = t'.task :: s'.tasks := by
  cases h with
  | dequeue j script t rest hlt hj hq =>
      simp only [Function.update_apply] at ht
      split_ifs at ht with e
      · obtain rfl := Option.some.inj ht
        exact .inr hq
      · exact .inl ⟨t', ht, rfl⟩
  | finish j e t hj hp =>
      simp only [Function.update_apply] at ht
      split_ifs at ht with e
      exact .inl ⟨t', ht, rfl⟩
  | call j e t a k r s₁ hj hp ha =>
      simp only [Function.update_apply, (effect_threads (act_effect ha)).1] at ht
      split_ifs at ht with e
      · obtain rfl := Option.some.inj ht
        exact .inl ⟨t, by rw [e, hj], rfl⟩
      · exact .inl ⟨t', ht, rfl⟩
  | _ => exact .inl ⟨t', ht, rfl⟩

theorem fifo_init : Fifo (State.init P db) where
  lt _ h := by
    obtain ⟨hdr, body, h⟩ := h
    cases h
  sorted := .nil
  ahead _ _ h := by cases h

theorem Fifo.before_new (hf : Fifo s) {t t' : Task} (ht : Received s t.origin)
    (ht' : (∃ hdr body c x, t' = .business ⟨s.nextPid, c, x⟩ hdr body) ∨ ∃ req, t' = .stream req) :
    t.Before t' := by
  rcases ht' with ⟨hdr, body, c, x, rfl⟩ | ⟨req, rfl⟩
  · cases t with
    | business o => exact hf.lt o ht
    | stream => trivial
  · cases t <;> trivial

theorem fifo_move (ht : Traced P s) (hf : Fifo s) (h : Move P s l s') : Fifo s' := by
  refine ⟨?lt, ?sorted, ?ahead⟩
  case lt =>
    intro o ho
    rcases move_pid h with ⟨hpid, hback⟩ | hpid
    · rw [hpid]
      exact hf.lt o (hback o ho)
    · obtain ⟨hdr, body, hr⟩ := ho
      rcases move_received h hr with hr | ⟨hnew, -⟩
      · have := hf.lt o ⟨hdr, body, hr⟩
        omega
      · omega
  case sorted =>
    rcases move_tasks h with e | ⟨t, e⟩ | ⟨t, e, hnew⟩
    · rw [e]
      exact hf.sorted
    · have hs := hf.sorted
      rw [e] at hs
      exact hs.of_cons
    · rw [e]
      refine List.pairwise_append.mpr ⟨hf.sorted, List.pairwise_singleton _ _, fun t₁ h₁ t₂ h₂ => ?_⟩
      rw [List.mem_singleton.mp h₂]
      exact hf.before_new (ht.task t₁ h₁).received hnew
  case ahead =>
    intro i t' hi t₂ h₂
    rcases move_at_work h hi with ⟨t, hi, htask⟩ | e
    · rw [← htask]
      rcases move_tasks h with e | ⟨t₁, e⟩ | ⟨t₁, e, hnew⟩
      · exact hf.ahead i t hi t₂ (by rwa [e] at h₂)
      · exact hf.ahead i t hi t₂ (by rw [e]; exact List.mem_cons_of_mem _ h₂)
      · rw [e, List.mem_append, List.mem_singleton] at h₂
        rcases h₂ with h₂ | rfl
        · exact hf.ahead i t hi t₂ h₂
        · exact hf.before_new (ht.thread i t hi).received hnew
    · have hs := hf.sorted
      rw [e] at hs
      exact List.rel_of_pairwise_cons hs h₂

theorem fifo_of_run (h : RunTo P db C s) : Fifo s :=
  run_invariant h Fifo fifo_init fun _ _ _ hr _ _ hf hm => fifo_move (traced_of_run hr) hf hm

/-! ## What is left to forward -/

/-- No task and no thread has a message to forward to user `u` for a packet before `o`. -/
structure Past (P : Params) (u : Int) (s : State) (o : Origin) : Prop where
  lt : o.pid < s.nextPid
  task : ∀ t ∈ s.tasks, t.origin.Earlier o → ∀ script, (t.prog P script).Avoids (Call.forwards u)
  thread : ∀ i t, s.threads i = some t → t.task.origin.Earlier o → t.prog.Avoids (Call.forwards u)

theorem not_forwards_of_ofStream {req : StreamRequest} {a : Call} (ha : a.ofStream req) :
    ¬ a.forwards u := by
  intro hf
  unfold Call.ofStream at ha
  split at ha
  all_goals first | exact ha | cases hf

theorem stream_avoids (req : StreamRequest) (script : Script) :
    ((Task.stream req).prog P script).Avoids (Call.forwards u) :=
  ((processStreamRequest_calls script).mono (fun _ _ ha => not_forwards_of_ofStream ha)
    fun _ _ hx => hx).avoids

theorem Traced.business_of_forwards (ht : Traced P s) {i : ℕ} {t : Thread} {a : Call}
    {k : Reply a → Prog Reply Unit} (hi : s.threads i = some t) (hp : t.prog = .call a k)
    (ha : a.forwards u) : ∃ hdr body, t.task = .business t.task.origin hdr body := by
  have hpath := ht.path i t hi
  cases htask : t.task with
  | business o hdr body => exact ⟨hdr, body, rfl⟩
  | stream req =>
      rw [htask, hp] at hpath
      exact absurd ha (not_forwards_of_ofStream (hpath.guard (processStreamRequest_calls t.script)))

theorem past_new (ht : Traced P s) (hf : Fifo s) (hC : InOrder u l s) {o : Origin} {a : Call}
    (hn : s.next l = some (o, a)) (ha : a.forwards u) : Past P u s o := by
  refine ⟨hf.lt o (ht.next_received hn), fun t' ht' he script => ?_, hC o a hn ha⟩
  obtain ⟨i, e, t, k, -, hi, rfl, hp⟩ := next_cases hn
  obtain ⟨hdr, body, htask⟩ := ht.business_of_forwards hi hp ha
  have hb := hf.ahead i t hi t' ht'
  cases t' with
  | stream req => exact stream_avoids req script
  | business o' hdr' body' =>
      -- the queued packet was received later
      rw [htask] at hb
      exact absurd he.2 (Nat.lt_asymm hb)

theorem past_move {o : Origin} (hp : Past P u s o) (h : Move P s l s') : Past P u s' o := by
  refine ⟨?_, fun t ht he script => ?_, fun i t hi he => ?_⟩
  · have hlt := hp.lt
    rcases move_pid h with ⟨hpid, -⟩ | hpid <;> omega
  · rcases move_tasks h with e | ⟨t₁, e⟩ | ⟨t₁, e, hnew⟩
    · exact hp.task t (by rwa [e] at ht) he script
    · exact hp.task t (by rw [e]; exact List.mem_cons_of_mem _ ht) he script
    · rw [e, List.mem_append, List.mem_singleton] at ht
      rcases ht with ht | rfl
      · exact hp.task t ht he script
      rcases hnew with ⟨hdr, body, c, x, rfl⟩ | ⟨req, rfl⟩
      · exact absurd he.2 (Nat.lt_asymm hp.lt)
      · exact stream_avoids req script
  · rcases move_thread h hi with hi | ⟨-, t₁, ht₁, script, rfl⟩ |
      ⟨e, t₁, a, k, r, -, hi₁, hpr, rfl, -⟩
    · exact hp.thread i t hi he
    · exact hp.task t₁ ht₁ he script
    · have hav := hp.thread i t₁ hi₁ he
      rw [hpr] at hav
      exact hav.2 r

/-! ## The order of the frames -/

/-- A pool thread has queued the frame. -/
def Queued (s : State) (f : Frame) : Prop :=
  .did f.origin ⟨.queueSendPacket f.ctx f.cmd f.seq f.body f.why, ()⟩ ∈ s.log

/-- Both frames forward a message to user `u` on one context, the first for an earlier packet. -/
structure Frame.Earlier (u : Int) (f₁ f₂ : Frame) : Prop where
  why₁ : f₁.why = .forward u
  why₂ : f₂.why = .forward u
  origin : f₁.origin.Earlier f₂.origin
  ctx : f₁.ctx = f₂.ctx

theorem Frame.forwards {f : Frame} (h : f.why = .forward u) :
    (Call.queueSendPacket f.ctx f.cmd f.seq f.body f.why).forwards u := h

theorem queued_new (h : Move P s l s') {f : Frame} (hq : Queued s' f) :
    Queued s f ∨ s.next l = some (f.origin, .queueSendPacket f.ctx f.cmd f.seq f.body f.why) := by
  rcases move_did h hq with hq | ⟨i, e, t, k, s₁, rfl, hi, ho, hp, -⟩
  · exact .inl hq
  · rw [← ho]
    exact .inr (next_thread e hi hp)

theorem queued_of_next (h : Move P s l s') {f : Frame}
    (hn : s.next l = some (f.origin, .queueSendPacket f.ctx f.cmd f.seq f.body f.why)) :
    Queued s' f := by
  obtain ⟨i, e, t, k, rfl, hi, ho, hp⟩ := next_cases hn
  obtain ⟨r, s₁, -, rfl⟩ := move_call h hi hp
  rw [Queued, ← ho]
  exact List.mem_cons_self

/-- A frame that is appended last is the one that the step sends. -/
theorem move_appended_last (h : Move P s l s') {c : ℕ} {f : Frame} {v : Int} {older : List Entry}
    (hs : .appended c f v :: older <:+ s'.log) :
    .appended c f v :: older <:+ s.log ∨ (older = s.log ∧ ∃ w num rest, l = .functor w ∧
      (s.net.workers w).batch = ⟨num, .send f⟩ :: rest) := by
  cases h with
  | sent w num f' rest c' d hb hq ha =>
      rcases List.suffix_cons_iff.mp hs with e | hs
      · obtain ⟨e₁, rfl⟩ := List.cons.inj e
        cases e₁
        exact .inr ⟨rfl, w, num, rest, rfl, hq⟩
      · exact .inl hs
  | closed | read | drop | expire =>
      rcases List.suffix_cons_iff.mp hs with e | hs
      · cases e
      · exact .inl hs
  | call i e t a k r s₁ hi hp ha =>
      rcases List.suffix_cons_iff.mp hs with e | hs
      · cases e
      -- what the call itself records
      rcases effect_log_eq (act_effect ha) with e₁ | ⟨x, cmd, seq, body, why, -, e₁⟩ | ⟨m, -, e₁⟩
      · exact .inl (by rwa [e₁] at hs)
      all_goals
        rw [e₁] at hs
        rcases List.suffix_cons_iff.mp hs with e | hs
        · cases e
        · exact .inl hs
  | _ => exact .inl hs

/-- **The frames forwarded to user `u` keep the order of receipt** on their way to a context. -/
structure Ranked (P : Params) (u : Int) (s : State) : Prop where
  past : ∀ f, f.why = .forward u → Queued s f → Past P u s f.origin
  queue : ∀ w, ∀ g ∈ (s.net.workers w).queue, ∀ f, g.job = .send f → f.why = .forward u → Queued s f
  record : ∀ c f v, .appended c f v ∈ s.log → f.why = .forward u → Queued s f
  waits : ∀ f, f.why = .forward u → Queued s f → Forwarded s f u s.net.nextNum
  ahead : ∀ w, ∀ g₁ ∈ (s.net.workers w).queue, ∀ f₁ f₂, g₁.job = .send f₁ → f₁.Earlier u f₂ →
    (∀ c v, .appended c f₂ v ∉ s.log) ∧
      ∀ g₂ ∈ (s.net.workers w).queue, g₂.job = .send f₂ → g₁.num < g₂.num
  order : ∀ c f v older, .appended c f v :: older <:+ s.log →
    (∀ f₂, f.Earlier u f₂ → ∀ c' v', .appended c' f₂ v' ∉ older) ∧
      ∀ f₁, f₁.Earlier u f → Queued s f₁ → ∃ c', .appended c' f₁ u ∈ older

theorem ranked_init : Ranked P u (State.init P db) where
  past _ _ h := by cases h
  queue w g hg := by simp [State.init] at hg
  record _ _ _ h := by cases h
  waits _ _ h := by cases h
  ahead w g hg := by simp [State.init] at hg
  order _ _ _ _ h := by cases List.suffix_nil.mp h

theorem Ranked.not_next (hr : Ranked P u s) (h : Move P s l s') {f₁ f₂ : Frame}
    (he : f₁.Earlier u f₂) (hq : Queued s' f₂) :
    s.next l ≠ some (f₁.origin, .queueSendPacket f₁.ctx f₁.cmd f₁.seq f₁.body f₁.why) := by
  intro hn
  rcases queued_new h hq with hq | hn₂
  · obtain ⟨i, e, t, k, -, hi, ho, hp⟩ := next_cases hn
    have hav := (hr.past f₂ he.why₂ hq).thread i t hi (ho ▸ he.origin)
    rw [hp] at hav
    exact hav.1 (Frame.forwards he.why₁)
  · rw [hn, Option.some.injEq, Prod.mk.injEq] at hn₂
    have hlt := he.origin.2
    rw [hn₂.1] at hlt
    exact Nat.lt_irrefl _ hlt

/-- When a worker sends a frame, no earlier one waits. -/
theorem Ranked.not_waiting (hr : Ranked P u s) (hwf : s.net.WF P) {f₁ f₂ : Frame}
    (he : f₁.Earlier u f₂) {w num : ℕ} {rest : List Functor}
    (hq : (s.net.workers w).batch = ⟨num, .send f₂⟩ :: rest) {w₁ : ℕ} {g₁ : Functor}
    (hg₁ : g₁ ∈ (s.net.workers w₁).queue) : g₁.job ≠ .send f₁ := by
  intro hjob
  have hqueue : (s.net.workers w).queue = ⟨num, .send f₂⟩ :: (rest ++ (s.net.workers w).pending) := by
    simp only [Worker.queue, hq, List.cons_append]
  have hhead : (⟨num, .send f₂⟩ : Functor) ∈ (s.net.workers w).queue := by
    rw [hqueue]
    exact List.mem_cons_self
  obtain rfl : w₁ = w := by
    have h₁ := hwf.send_owner w₁ g₁ hg₁ f₁ hjob
    have h₂ := hwf.send_owner w _ hhead f₂ rfl
    rw [he.ctx, h₂] at h₁
    exact (Option.some.inj h₁).symm
  have hlt : g₁.num < num := (hr.ahead w₁ g₁ hg₁ f₁ f₂ hjob he).2 _ hhead rfl
  -- the numbers of a queue grow from its head
  have hsorted := hwf.num_sorted w₁
  rw [hqueue] at hsorted hg₁
  rcases List.mem_cons.mp hg₁ with rfl | hg₁
  · exact Nat.lt_irrefl _ hlt
  · exact Nat.lt_asymm hlt (List.rel_of_pairwise_cons hsorted hg₁)

theorem queued_move (h : Move P s l s') {f : Frame} (hq : Queued s f) : Queued s' f := move_log h hq

theorem move_queue_forward (h : Move P s l s') {w : ℕ} {g : Functor}
    (hg : g ∈ (s'.net.workers w).queue) {f : Frame} (hjob : g.job = .send f)
    (hw : f.why = .forward u) :
    g ∈ (s.net.workers w).queue ∨ (g.num = s.net.nextNum ∧
      s.next l = some (f.origin, .queueSendPacket f.ctx f.cmd f.seq f.body f.why)) := by
  rcases move_queue h hg with hg | ⟨hnum, hnew⟩
  · exact .inl hg
  rw [hjob] at hnew
  cases hnew with
  | send o x cmd seq body why hn => exact .inr ⟨hnum, hn⟩
  | expire req _ _ _ _ hy =>
      rw [hy] at hw
      cases hw

theorem Ranked.queue_move (hr : Ranked P u s) (h : Move P s l s') (w : ℕ) (g : Functor)
    (hg : g ∈ (s'.net.workers w).queue) (f : Frame) (hjob : g.job = .send f)
    (hw : f.why = .forward u) : Queued s' f := by
  rcases move_queue_forward h hg hjob hw with hg | ⟨-, hn⟩
  · exact queued_move h (hr.queue w g hg f hjob hw)
  · exact queued_of_next h hn

theorem Ranked.record_move (hr : Ranked P u s) (h : Move P s l s') (c : ℕ) (f : Frame) (v : Int)
    (ha : .appended c f v ∈ s'.log) (hw : f.why = .forward u) : Queued s' f := by
  rcases move_appended h ha with ha | ⟨w, num, rest, d, -, -, hq, -⟩
  · exact queued_move h (hr.record c f v ha hw)
  · exact queued_move h (hr.queue w ⟨num, .send f⟩ (by simp [Worker.queue, hq]) f rfl hw)

theorem Ranked.ahead_move (hr : Ranked P u s) (hwf : s.net.WF P) (h : Move P s l s') (w : ℕ)
    (g₁ : Functor) (hg₁ : g₁ ∈ (s'.net.workers w).queue) (f₁ f₂ : Frame) (hjob : g₁.job = .send f₁)
    (he : f₁.Earlier u f₂) : (∀ c v, .appended c f₂ v ∉ s'.log) ∧
      ∀ g₂ ∈ (s'.net.workers w).queue, g₂.job = .send f₂ → g₁.num < g₂.num := by
  rcases move_queue_forward h hg₁ hjob he.why₁ with hg | ⟨-, hn⟩
  · obtain ⟨hlog, hnum⟩ := hr.ahead w g₁ hg f₁ f₂ hjob he
    refine ⟨fun c v ha => ?_, fun g₂ hg₂ hjob₂ => ?_⟩
    · rcases move_appended h ha with ha | ⟨w', num, rest, d, -, -, hq, -⟩
      · exact hlog c v ha
      · exact hr.not_waiting hwf he hq hg hjob
    · rcases move_queue_forward h hg₂ hjob₂ he.why₂ with hg₂ | ⟨hnew, -⟩
      · exact hnum g₂ hg₂ hjob₂
      · rw [hnew]
        exact hwf.num_lt w g₁ hg
  · -- the earlier frame is queued by this step, so there is no later one yet
    refine ⟨fun c v ha => ?_, fun g₂ hg₂ hjob₂ => ?_⟩
    · exact hr.not_next h he (hr.record_move h c f₂ v ha he.why₂) hn
    · exact absurd hn (hr.not_next h he (hr.queue_move h w g₂ hg₂ f₂ hjob₂ he.why₂))

theorem Ranked.order_move (hr : Ranked P u s) (hwf : s.net.WF P) (h : Move P s l s') (c : ℕ)
    (f : Frame) (v : Int) (older : List Entry) (hs : .appended c f v :: older <:+ s'.log) :
    (∀ f₂, f.Earlier u f₂ → ∀ c' v', .appended c' f₂ v' ∉ older) ∧
      ∀ f₁, f₁.Earlier u f → Queued s' f₁ → ∃ c', .appended c' f₁ u ∈ older := by
  rcases move_appended_last h hs with hs | ⟨rfl, w, num, rest, rfl, hq⟩
  · obtain ⟨hlater, hearlier⟩ := hr.order c f v older hs
    refine ⟨hlater, fun f₁ he hq₁ => hearlier f₁ he ?_⟩
    have ha : .appended c f v ∈ s.log := hs.subset List.mem_cons_self
    rcases queued_new h hq₁ with hq₁ | hn
    · exact hq₁
    · exact absurd hn (hr.not_next h he (queued_move h (hr.record c f v ha he.why₂)))
  · have hhead : (⟨num, .send f⟩ : Functor) ∈ (s.net.workers w).queue := by simp [Worker.queue, hq]
    refine ⟨fun f₂ he => (hr.ahead w _ hhead f f₂ rfl he).1, fun f₁ he hq₁ => ?_⟩
    rcases queued_new h hq₁ with hq₁ | hn
    · rcases hr.waits f₁ he.why₁ hq₁ with ⟨w₁, g₁, hg₁, hjob, -⟩ | ha
      · exact absurd hjob (hr.not_waiting hwf he hq hg₁)
      · exact ha
    · cases hn

theorem ranked_move (hwf : s.net.WF P) (ht : Traced P s) (hf : Fifo s) (hr : Ranked P u s)
    (hC : InOrder u l s) (hD : DeliversTo P u l s) (h : Move P s l s') : Ranked P u s' := by
  refine ⟨?past, hr.queue_move h, hr.record_move h, ?waits, hr.ahead_move hwf h, hr.order_move hwf h⟩
  case past =>
    intro f hw hq
    rcases queued_new h hq with hq | hn
    · exact past_move (hr.past f hw hq) h
    · exact past_move (past_new ht hf hC hn (Frame.forwards hw)) h
  case waits =>
    intro f hw hq
    obtain ⟨o, x, cmd, seq, body, why⟩ := f
    obtain rfl : why = .forward u := hw
    rcases forwarded_new h hq with hq | hfw
    · exact (forwarded_move hwf hD h rfl (hr.waits _ rfl hq)).mono (move_nextNum h)
    · exact hfw

/-- **Forwarded messages arrive in the order of receipt.** In a run in which no message is forwarded to
user `u` while a thread has one to forward for an earlier packet of the connection, and in which what
is forwarded to `u` finds a connection of `u` with room for it, the frames for two packets of one
connection wait or have been appended, and the later one is appended only after the earlier one. -/
theorem forwards_in_order (h : RunTo P db (fun l s => InOrder u l s ∧ DeliversTo P u l s) s)
    (f₁ f₂ : Frame) (he : f₁.Earlier u f₂) (hq₁ : Queued s f₁) (hq₂ : Queued s f₂) :
    (Forwarded s f₁ u s.net.nextNum ∧ Forwarded s f₂ u s.net.nextNum) ∧
    (∀ c v older, .appended c f₂ v :: older <:+ s.log → ∃ c', .appended c' f₁ u ∈ older) ∧
    ∀ c v older, .appended c f₁ v :: older <:+ s.log → ∀ c' v', .appended c' f₂ v' ∉ older := by
  have hr : Ranked P u s := run_invariant h (Ranked P u) ranked_init
    fun _ _ _ hrun hwf hC hr hm =>
      ranked_move hwf (traced_of_run hrun) (fifo_of_run hrun) hr hC.1 hC.2 hm
  refine ⟨⟨hr.waits f₁ he.why₁ hq₁, hr.waits f₂ he.why₂ hq₂⟩, fun c v older hs => ?_,
    fun c v older hs => ?_⟩
  · exact (hr.order c f₂ v older hs).2 f₁ he hq₁
  · exact (hr.order c f₁ v older hs).1 f₂ he

/-- The frames that pool threads have queued, newest first. -/
def queuedFrames (log : List Entry) : List Frame :=
  log.filterMap fun e => match e with
    | .did o ⟨.queueSendPacket x cmd seq body why, _⟩ => some ⟨o, x, cmd, seq, body, why⟩
    | _ => none

theorem queued_of_mem {f : Frame} (h : f ∈ queuedFrames s.log) : Queued s f := by
  obtain ⟨e, he, heq⟩ := List.mem_filterMap.mp h
  split at heq
  · obtain rfl := Option.some.inj heq
    exact he
  · cases heq

/-- When a thread of the small server makes a call, the other one is idle. -/
def Sample.alone : Label → State → Bool
  | .thread i _, s => decide (∀ j < Sample.params.poolThreads, j ≠ i → (s.threads j).isNone)
  | _, _ => true

theorem inOrder_of_alone (ht : Traced Sample.params s) (h : Sample.alone l s = true) :
    InOrder u l s := by
  intro o a hn _ j t hj he
  obtain ⟨i, e, t', k, rfl, hi, rfl, -⟩ := next_cases hn
  have hne : j ≠ i := by
    rintro rfl
    obtain rfl := Option.some.inj (hi.symm.trans hj)
    exact Nat.lt_irrefl _ he.2
  have hidle := of_decide_eq_true h j (ht.lt j t hj) hne
  rw [hj] at hidle
  cases hidle

set_option maxRecDepth 1000 in
/-- User `a` sends `hi` to user `b` twice, and one thread after the other forwards it. -/
theorem forwards_in_order_sample : ∃ s, RunTo Sample.params Sample.db
      (fun l s => InOrder 1001 l s ∧ DeliversTo Sample.params 1001 l s) s ∧
    ∃ f₁ f₂, f₁.Earlier 1001 f₂ ∧ Queued s f₁ ∧ Queued s f₂ ∧
      ∃ c v older, .appended c f₂ v :: older <:+ s.log ∧ ∃ c', .appended c' f₁ 1001 ∈ older := by
  obtain ⟨s, hr, f₁, hm₁, ⟨c, f₂, v⟩, ha, hm₂, hw₁, hw₂, hc, hpid, hx⟩ := Sample.exists_run
    (fun l s => Sample.alone l s = true ∧ DeliversTo Sample.params 1001 l s)
    (Sample.connect 5 ++ Sample.connect 6 ++
      [Sample.packet 0 .login Sample.loginA, Sample.packet 1 .login Sample.loginB] ++
      Sample.work 0 7 ++ Sample.work 0 7 ++
      [Sample.packet 0 .chat Sample.chatToB, Sample.packet 0 .chat Sample.chatToB] ++
      Sample.work 0 11 ++ Sample.work 1 5 ++ [.swap 0] ++ List.replicate 5 (.functor 0))
    (fun s => ∃ f₁ ∈ queuedFrames s.log, ∃ a ∈ appends s.log, a.2.1 ∈ queuedFrames s.log ∧
      f₁.why = .forward 1001 ∧ a.2.1.why = .forward 1001 ∧ f₁.origin.conn = a.2.1.origin.conn ∧
      f₁.origin.pid < a.2.1.origin.pid ∧ f₁.ctx = a.2.1.ctx)
    ⟨_, rfl, by decide⟩
  have hrun : RunTo Sample.params Sample.db
      (fun l s => InOrder 1001 l s ∧ DeliversTo Sample.params 1001 l s) s :=
    hr.mono_reach fun l s hr hC => ⟨inOrder_of_alone (traced_of_run hr) hC.1, hC.2⟩
  have he : f₁.Earlier 1001 f₂ := ⟨hw₁, hw₂, ⟨hc, hpid⟩, hx⟩
  obtain ⟨newer, older, e⟩ := List.append_of_mem (mem_appends.mp ha)
  have hs : .appended c f₂ v :: older <:+ s.log := ⟨newer, e.symm⟩
  exact ⟨s, hrun, f₁, f₂, he, queued_of_mem hm₁, queued_of_mem hm₂, c, v, older, hs,
    (forwards_in_order hrun f₁ f₂ he (queued_of_mem hm₁) (queued_of_mem hm₂)).2.1 c v older hs⟩

/-- User `a` sends `hi` to user `b`, who is there, twice. The thread with the second packet is ahead of
the thread with the first, and the frame of the first packet is appended after that of the second. -/
theorem chat_overtaken : ∃ s, RunTo Sample.params Sample.db (Delivers Sample.params) s ∧
    ∃ f₁ f₂, f₁.Earlier 1001 f₂ ∧ Received s f₁.origin ∧ Received s f₂.origin ∧
      f₁.cmd = .chat ∧ f₂.cmd = .chat ∧ Queued s f₁ ∧ Queued s f₂ ∧
      ∃ c older, .appended c f₁ 1001 :: older <:+ s.log ∧ .appended c f₂ 1001 ∈ older := by
  obtain ⟨s, hr, f₁, f₂, rest, happ, hm₁, hm₂, hw₁, hw₂, hc, hpid, hx, hcmd₁, hcmd₂⟩ :=
    Sample.exists_run (Delivers Sample.params)
    (Sample.connect 5 ++ Sample.connect 6 ++
      [Sample.packet 0 .login Sample.loginA, Sample.packet 1 .login Sample.loginB] ++
      Sample.work 0 7 ++ Sample.work 1 7 ++
      [Sample.packet 0 .chat Sample.chatToB, Sample.packet 0 .chat Sample.chatToB, .dequeue 0 {}] ++
      Sample.work 1 5 ++ List.replicate 5 (.thread 0 {}) ++ [.swap 0] ++
      List.replicate 4 (.functor 0))
    (fun s => ∃ f₁ f₂ rest, appends s.log = (1, f₁, 1001) :: (1, f₂, 1001) :: rest ∧
      f₁ ∈ queuedFrames s.log ∧ f₂ ∈ queuedFrames s.log ∧ f₁.why = .forward 1001 ∧
      f₂.why = .forward 1001 ∧ f₁.origin.conn = f₂.origin.conn ∧ f₁.origin.pid < f₂.origin.pid ∧
      f₁.ctx = f₂.ctx ∧ f₁.cmd = .chat ∧ f₂.cmd = .chat)
    ⟨_, rfl, _, _, _, rfl, by decide⟩
  obtain ⟨older, hs, holder⟩ := appends_eq_cons happ
  have hq₁ := queued_of_mem hm₁
  have hq₂ := queued_of_mem hm₂
  refine ⟨s, hr, f₁, f₂, ⟨hw₁, hw₂, ⟨hc, hpid⟩, hx⟩, received_of_did hr _ _ hq₁,
    received_of_did hr _ _ hq₂, hcmd₁, hcmd₂, hq₁, hq₂, 1, older, hs, mem_appends.mp ?_⟩
  rw [holder]
  exact List.mem_cons_self

end AuraChat
