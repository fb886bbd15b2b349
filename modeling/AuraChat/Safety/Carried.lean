import AuraChat.Safety.Replies
import AuraChat.Server.Footprint
import AuraChat.Wire.Pipe

set_option autoImplicit false

/-!
# Frames on their way

The frames that are queued for the connection of a packet wait in the queue of its worker, and are appended
one after the other. As long as the connection is open and will not be closed, none is lost and none
overtakes another.

* `State.queues`, **`frames_step`**: the frames that a step queues;
* `waitingFrames`: the frames in a queue;
* `Carried`, **`carried_of_run`**: what was queued for an open connection has been appended or waits.
-/

namespace AuraChat

open Interleave

variable {P : Params} {db : Store} {C : Label → State → Prop} {s s' : State} {l : Label}

/-! ## What a step queues -/

/-- The frame that a call queues. -/
def Call.frame (o : Origin) : Call → List Frame
  | .queueSendPacket x cmd seq body why => [⟨o, x, cmd, seq, body, why⟩]
  | _ => []

/-- The answer to a request that has waited too long. -/
def expiredFrame (P : Params) (req : StreamRequest) (now : Int) : Frame :=
  ⟨req.origin, req.origin.ctx, .chat, 0, P.codec.serializeChatMessage
    (chunkMessage req.uid (bytes "AI服务排队超时，请稍后再试") true 0 now), .chunk⟩

/-- The frame that the scheduler queues. -/
def State.expires (P : Params) (s : State) : Label → List Frame
  | .schedule now => match s.ai.pending with
      | req :: _ => if 30 < now - req.timestamp ∧ (s.net.ctxs req.origin.ctx).ownerWorker ≠ none then
          [expiredFrame P req now] else []
      | [] => []
  | _ => []

/-- The frames that a step queues. -/
def State.queues (P : Params) (s : State) (l : Label) : List Frame :=
  (match s.next l with
    | some (o, a) => a.frame o
    | none => []) ++ s.expires P l

theorem frames_cons {e : Entry} (he : ∀ f h v, e ≠ .queued f h v) (log : List Entry) :
    frames (e :: log) = frames log := by
  cases e with
  | queued f h v => exact absurd rfl (he f h v)
  | _ => rfl

theorem effect_frames {o : Origin} {a : Call} (h : Effect P o s a s') (ha : a.frame o = []) :
    frames s'.log = frames s.log := by
  rcases effect_log_eq h with e | ⟨x, cmd, seq, body, why, rfl, e⟩ | ⟨m, -, e⟩
  · rw [e]
  · cases ha
  · rw [e, frames_cons fun _ _ _ e => by cases e]

theorem frames_call {o : Origin} {a : Call} {e : Ext} {r : Reply a} {s₁ : State}
    (h : act P o a e s = some (r, s₁)) : frames s₁.log = a.frame o ++ frames s.log := by
  cases a with
  | queueSendPacket x cmd seq body why =>
      simp only [act, Option.map_eq_some_iff, Prod.mk.injEq] at h
      obtain ⟨w, -, -, rfl⟩ := h
      rfl
  | _ => exact effect_frames (act_effect h) rfl

theorem frames_schedule {now : Int} (hs : step P (.schedule now) s = some s') :
    frames s'.log = s.expires P (.schedule now) ++ frames s.log := by
  simp only [step] at hs
  split at hs
  · rename_i req rest hh hq
    split_ifs at hs with hslots
    obtain rfl := Option.some.inj hs
    simp only [State.expires, hq]
    by_cases hold : 30 < now - req.timestamp
    · rcases hw : (s.net.ctxs req.origin.ctx).ownerWorker with _ | w
      · rw [if_neg fun h => h.2 rfl]
        simp only [State.schedule, if_pos hold, State.sendError, hw]
        rfl
      · rw [if_pos ⟨hold, Option.some_ne_none w⟩]
        simp only [State.schedule, if_pos hold, State.sendError, hw]
        rfl
    · rw [if_neg fun h => hold h.1]
      simp only [State.schedule, if_neg hold]
      split_ifs <;> rfl
  · cases hs

/-- **The frames that a step queues.** -/
theorem frames_step (hwf : s.net.WF P) (hs : step P l s = some s') :
    frames s'.log = s.queues P l ++ frames s.log := by
  cases move_of_step hwf hs with
  | call i e t a k r s₁ hi hp ha =>
      have hq : s.queues P (.thread i e) = a.frame t.task.origin ++ [] := by
        rw [State.queues, next_thread e hi hp]
        rfl
      rw [hq, List.append_nil, ← frames_call ha]
      exact frames_cons (fun _ _ _ e => by cases e) _
  | finish i e t hi hp =>
      obtain ⟨task, script, hist, prog⟩ := t
      obtain rfl : prog = .ret () := hp
      simp only [State.queues, State.next, hi, State.expires, List.append_nil, List.nil_append]
  | expire | forget | activate => exact frames_schedule hs
  | _ => rfl

/-! ## On the way to the connection -/

/-- The frames in a queue. -/
def waitingFrames (q : List Functor) : List Frame :=
  q.filterMap fun g => match g.job with
    | .send f => some f
    | _ => none

/-- The close of a connection is queued. -/
def State.closing (s : State) (d : Conn) : Prop :=
  ∃ g ∈ (s.net.workers d.worker).queue, ∃ kick, g.job = .close d.fd kick

/-- The frames are all for the connection of a packet. -/
def Bound (o : Origin) (p : Frame → Bool) : Prop := ∀ f, p f = true → f.origin = o ∧ f.ctx = o.ctx

/-- **What was queued for the connection of a packet has been appended or waits**, in the order in which it
was queued, as long as the connection is open and its close is not queued. -/
def Carried (s : State) : Prop :=
  ∀ o d p, Bound o p → s.net.conns o.conn = some d → d.phase = .opened → d.ctx = o.ctx → s.closing d ∨
    (frames s.log).reverse.filter p = (acceptedFrames o.conn s.log).filter p ++
      (waitingFrames (s.net.workers d.worker).queue).filter p

section Carry

variable {o : Origin} {p : Frame → Bool}

theorem waitingFrames_push (n : Net) (w w' : ℕ) (f : Frame) :
    waitingFrames ((n.push w (.send f)).workers w').queue =
      waitingFrames (n.workers w').queue ++ if w' = w then [f] else [] := by
  by_cases hw : w' = w
  · subst hw
    rw [Net.push_queue, if_pos rfl, waitingFrames, List.filterMap_append]
    rfl
  · rw [Net.push_queue_ne hw, if_neg hw, List.append_nil]

theorem waitingFrames_push_none (n : Net) (w w' : ℕ) {job : Job} (hj : ∀ f, job ≠ .send f) :
    waitingFrames ((n.push w job).workers w').queue = waitingFrames (n.workers w').queue := by
  by_cases hw : w' = w
  · subst hw
    rw [Net.push_queue, waitingFrames, List.filterMap_append]
    cases job with
    | send f => exact absurd rfl (hj f)
    | _ => exact List.append_nil _
  · rw [Net.push_queue_ne hw]

theorem waitingFrames_pop {n : Net} {w num : ℕ} {f : Frame} {rest : List Functor}
    (hq : (n.workers w).batch = ⟨num, .send f⟩ :: rest) (w' : ℕ) :
    waitingFrames (n.workers w').queue = (if w' = w then [f] else []) ++
      waitingFrames ((n.popBatch w rest).workers w').queue := by
  by_cases hw : w' = w
  · subst hw
    simp only [Worker.queue, hq, Net.popBatch, Net.updWorker_apply, if_true, waitingFrames,
      List.cons_append, List.filterMap_cons, List.nil_append]
  · simp only [Net.popBatch, Net.updWorker_apply, if_neg hw, List.nil_append]

theorem waitingFrames_pop_none {n : Net} {w num : ℕ} {job : Job} {rest : List Functor}
    (hq : (n.workers w).batch = ⟨num, job⟩ :: rest) (w' : ℕ) (hj : ∀ f, job ≠ .send f) :
    waitingFrames ((n.popBatch w rest).workers w').queue = waitingFrames (n.workers w').queue := by
  by_cases hw : w' = w
  · subst hw
    simp only [Worker.queue, hq, Net.popBatch, Net.updWorker_apply, if_true, waitingFrames,
      List.cons_append]
    cases job with
    | send f => exact absurd rfl (hj f)
    | _ => rfl
  · simp only [Net.popBatch, Net.updWorker_apply, if_neg hw]

theorem worker_of_bound (hwf : s.net.WF P) (hb : Bound o p) {d : Conn} (hd : s.net.conns o.conn = some d)
    (hx : d.ctx = o.ctx) {f : Frame} (hf : p f = true) {w : ℕ}
    (hw : (s.net.ctxs f.ctx).ownerWorker = some w) : d.worker = w := by
  have hfx : f.ctx = d.ctx := (hb f hf).2.trans hx.symm
  rw [hfx] at hw
  have hpool : P.pooled d.ctx := by
    by_contra hn
    rw [(hwf.no_owner _ hn).1] at hw
    cases hw
  rw [(hwf.owner _ hpool).1] at hw
  exact (hwf.own_pool o.conn d hd hpool).symm.trans (Option.some.inj hw)

theorem route_of_bound (hwf : s.net.WF P) (hb : Bound o p) {d : Conn} (hd : s.net.conns o.conn = some d)
    (hp : d.phase = .opened) (hx : d.ctx = o.ctx) {f : Frame} (hf : p f = true) {w : ℕ}
    (hw : (s.net.ctxs f.ctx).ownerWorker = some w) : s.net.route w f = some (o.conn, d) := by
  have hfx : f.ctx = d.ctx := (hb f hf).2.trans hx.symm
  have hfd : (s.net.ctxs f.ctx).fd = d.fd := hfx ▸ hwf.ctx_fd _ d hd (Conn.holds_of_opened hp).live
  have hcon := (hwf.connections d.worker d.fd o.conn).mpr ⟨d, hd, rfl, rfl, hp⟩
  rw [worker_of_bound hwf hb hd hx hf hw] at hcon
  simp only [Net.route, hfd, if_neg (Int.not_lt.mpr (hwf.fd_nonneg _ d hd)), hcon, Option.bind_some, hd,
    Option.map_some]

/-- A frame that an open connection does not take in makes its worker close it. -/
theorem closing_of_full (hs : step P l s = some s') {w num : ℕ} {f : Frame} {rest : List Functor} {c : ℕ}
    {d : Conn} (hl : l = .functor w) (hb : (s.net.workers w).busy = none)
    (hq : (s.net.workers w).batch = ⟨num, .send f⟩ :: rest) (hp : d.phase = .opened)
    (hr : s.net.route w f = some (c, d)) (ha : s.net.accepts P w f = none) (hw : d.worker = w) :
    s'.closing d := by
  subst hl
  simp only [step, hb, hq, Option.some.injEq] at hs
  subst hs
  have hfull : ¬ s.net.fits P f d := by
    intro hfit
    simp only [Net.accepts, hr, Option.filter_some, hp, hfit, decide_true, and_self, if_true] at ha
    cases ha
  have hfull' : ¬ (s.net.popBatch w rest).fits P f d := hfull
  refine ⟨⟨s.net.nextNum, .close d.fd none⟩, ?_, none, rfl⟩
  have hroute : (s.net.popBatch w rest).route w f = some (c, d) := by
    rw [Net.popBatch_route]
    exact hr
  change _ ∈ (((s.net.popBatch w rest).sendPacketInLoop P w f).workers d.worker).queue
  simp only [Net.sendPacketInLoop, hroute, hp, ne_eq, not_true_eq_false, if_false, hfull']
  exact Net.mem_push.mpr (.inr ⟨hw, rfl⟩)

/-- The close of a connection stays queued while it is open. -/
theorem closing_kept (hwf : s.net.WF P) (h : Move P s l s') {c : ℕ} {d : Conn}
    (hd : s.net.conns c = some d) (hp : d.phase = .opened) (hd' : s'.net.conns c = some d)
    (hcl : s.closing d) : s'.closing d := by
  obtain ⟨g, hg, kick, hjob⟩ := hcl
  rcases move_queue_kept h hg with hg | ⟨hl, hb, rest, hq⟩
  · exact ⟨g, hg, kick, hjob⟩
  -- the close runs, and finds the connection
  · rcases move_functor h hl hq with ⟨fd, hj⟩ | ⟨fr, c', d', hj, -⟩ | ⟨fr, hj, -⟩ | ⟨fd, kick', hj, hcon⟩ |
      ⟨kick', c', d', hj, hd₁, hp₁, -, hd₂⟩
    all_goals rw [hjob] at hj
    · cases hj
    · cases hj
    · cases hj
    · obtain ⟨rfl, -⟩ := Job.close.inj hj
      rw [(hwf.connections d.worker d.fd c).mpr ⟨d, hd, rfl, rfl, hp⟩] at hcon
      cases hcon
    · obtain ⟨hfd, -⟩ := Job.close.inj hj
      obtain rfl := hwf.fd_inj c d c' d' hd hd₁ (Conn.holds_of_opened hp) (Conn.holds_of_opened hp₁) hfd
      rw [hd', Option.some.injEq] at hd₂
      rw [hd₂] at hp
      cases hp

/-- What a step does to the frames of an open connection. -/
theorem carried_old (hwf : s.net.WF P) (h : Move P s l s') (hs : step P l s = some s') (hb : Bound o p)
    {d : Conn} (hd : s.net.conns o.conn = some d) (hp : d.phase = .opened) (hx : d.ctx = o.ctx)
    (he : (frames s.log).reverse.filter p = (acceptedFrames o.conn s.log).filter p ++
      (waitingFrames (s.net.workers d.worker).queue).filter p) :
    s'.closing d ∨ (frames s'.log).reverse.filter p = (acceptedFrames o.conn s'.log).filter p ++
      (waitingFrames (s'.net.workers d.worker).queue).filter p := by
  have same : frames s'.log = frames s.log → appends s'.log = appends s.log →
      (waitingFrames (s'.net.workers d.worker).queue).filter p =
        (waitingFrames (s.net.workers d.worker).queue).filter p → s'.closing d ∨
      (frames s'.log).reverse.filter p = (acceptedFrames o.conn s'.log).filter p ++
        (waitingFrames (s'.net.workers d.worker).queue).filter p := by
    intro h₁ h₂ h₃
    rw [h₁, acceptedFrames_congr h₂, h₃]
    exact .inr he
  have unsent : frames s'.log = frames s.log → appends s'.log = appends s.log →
      waitingFrames (s'.net.workers d.worker).queue = waitingFrames (s.net.workers d.worker).queue → _ :=
    fun h₁ h₂ h₃ => same h₁ h₂ (congrArg _ h₃)
  -- a frame is sent that no connection takes in
  have untaken : ∀ {w num : ℕ} {f : Frame} {rest : List Functor}, l = .functor w →
      (s.net.workers w).busy = none → (s.net.workers w).batch = ⟨num, .send f⟩ :: rest →
      s.net.accepts P w f = none → frames s'.log = frames s.log → appends s'.log = appends s.log →
      waitingFrames (s'.net.workers d.worker).queue =
        waitingFrames ((s.net.popBatch w rest).workers d.worker).queue → s'.closing d ∨
      (frames s'.log).reverse.filter p = (acceptedFrames o.conn s'.log).filter p ++
        (waitingFrames (s'.net.workers d.worker).queue).filter p := by
    intro w num f rest hl hidle hq ha h₁ h₂ h₃
    have hw := hwf.send_owner w ⟨num, .send f⟩ (by simp [Worker.queue, hq]) f rfl
    by_cases hf : p f = true
    · exact .inl (closing_of_full hs hl hidle hq hp (route_of_bound hwf hb hd hp hx hf hw) ha
        (worker_of_bound hwf hb hd hx hf hw))
    · refine same h₁ h₂ ?_
      rw [h₃, waitingFrames_pop hq, List.filter_append]
      split_ifs <;> simp [hf]
  -- a frame is queued
  have pushed : ∀ {w : ℕ} {f : Frame}, (s.net.ctxs f.ctx).ownerWorker = some w →
      frames s'.log = f :: frames s.log → appends s'.log = appends s.log →
      (s'.net.workers d.worker).queue = ((s.net.push w (.send f)).workers d.worker).queue →
      s'.closing d ∨ (frames s'.log).reverse.filter p = (acceptedFrames o.conn s'.log).filter p ++
        (waitingFrames (s'.net.workers d.worker).queue).filter p := by
    intro w f hw h₁ h₂ h₃
    rw [h₁, acceptedFrames_congr h₂, h₃, waitingFrames_push, List.reverse_cons, List.filter_append,
      List.filter_append, ← List.append_assoc, ← he]
    right
    by_cases hf : p f = true
    · rw [if_pos (worker_of_bound hwf hb hd hx hf hw)]
    · split_ifs <;> simp [hf]
  cases h with
  | accept fd h0 hfd =>
      exact unsent rfl rfl (waitingFrames_push_none s.net _ _ fun _ e => by cases e)
  | swap w hidle hq =>
      refine unsent rfl rfl ?_
      simp only [Net.updWorker_apply]
      split_ifs with e
      · rw [e]
        simp [Worker.queue, hq]
      · rfl
  | add w num fd rest hidle hq =>
      refine unsent rfl rfl ?_
      rw [addConnection_queue]
      exact waitingFrames_pop_none hq _ fun _ e => by cases e
  | sent w num f rest c d₁ hidle hq ha =>
      have hw := hwf.send_owner w ⟨num, .send f⟩ (by simp [Worker.queue, hq]) f rfl
      have hlog : appends (.appended c f (s.net.ctxs d₁.ctx).uid :: s.log) =
        (c, f, (s.net.ctxs d₁.ctx).uid) :: appends s.log := rfl
      refine .inr (he.trans ?_)
      rw [waitingFrames_pop hq, acceptedFrames_cons hlog, List.filter_append, ← List.append_assoc]
      refine congrArg (· ++ _) ?_
      by_cases hf : p f = true
      · have hr : s.net.route w f = some (c, d₁) := (Option.filter_eq_some_iff.mp ha).1
        rw [route_of_bound hwf hb hd hp hx hf hw, Option.some.injEq, Prod.mk.injEq] at hr
        rw [if_pos (worker_of_bound hwf hb hd hx hf hw), if_pos hr.1, List.filter_append]
      · split_ifs <;> simp [hf]
  | lost w num f rest hidle hq ha => exact untaken rfl hidle hq ha rfl rfl rfl
  | overflow w num f rest c d₁ hidle hq ha hr =>
      exact untaken rfl hidle hq ha rfl rfl (waitingFrames_push_none _ _ _ fun _ e => by cases e)
  | missed w num fd kick rest hidle hq hc =>
      exact unsent rfl rfl (waitingFrames_pop_none hq _ fun _ e => by cases e)
  | closed num kick rest c d₁ hidle hq hd₁ hp₁ =>
      refine unsent rfl rfl ?_
      rw [leave_queue]
      exact waitingFrames_pop_none hq _ fun _ e => by cases e
  | drop c d₁ hd₁ hev =>
      refine unsent rfl rfl ?_
      rw [leave_queue]
  | release c d₁ hd₁ hp₁ => exact unsent rfl rfl (by rw [(Net.releaseContext_workers c d₁ _).2.1])
  | call i e t a k r s₁ hi hp₁ ha =>
      have quiet : a.frame t.task.origin = [] → _ := fun hframe => by
        refine unsent ?_ ?_ ?_
        · exact (frames_cons (fun _ _ _ e => by cases e) _).trans (effect_frames (act_effect ha) hframe)
        · exact (effect_sendKept (act_effect ha)).log
        · cases act_effect ha with
          | send x cmd seq' body why w hw => cases hframe
          | kick old fd w hw => exact waitingFrames_push_none _ _ _ fun _ e => by cases e
          | _ => rfl
      cases a with
      | queueSendPacket x cmd seq' body why =>
          simp only [act, Option.map_eq_some_iff, Prod.mk.injEq] at ha
          obtain ⟨w, hw, -, rfl⟩ := ha
          exact pushed (f := ⟨t.task.origin, x, cmd, seq', body, why⟩) hw rfl rfl rfl
      | _ => exact quiet rfl
  | expire req rest now w f hq hw ho hx' hy => exact pushed (hx' ▸ hw) rfl rfl rfl
  | _ => exact same rfl rfl rfl

theorem received_of_frames (h : RunTo P db C s) : ∀ f ∈ frames s.log, Received s f.origin := by
  refine h.invariant_reach (fun s => ∀ f ∈ frames s.log, Received s f.origin) nofun
    fun l s s' hr _ ih hs f hf => ?_
  have hwf := wf_of_run hr
  have ht := traced_of_run hr
  refine Received.mono ?_ (move_log (move_of_step hwf hs))
  rw [frames_step hwf hs, List.mem_append, State.queues, List.mem_append] at hf
  rcases hf with (hf | hf) | hf
  · split at hf
    · rename_i o a hn
      cases a with
      | queueSendPacket x cmd seq body why =>
          rw [List.mem_singleton.mp hf]
          exact ht.next_received hn
      | _ => cases hf
    · cases hf
  · cases l with
    | schedule now =>
        simp only [State.expires] at hf
        split at hf
        · rename_i req rest hq
          split_ifs at hf
          · rw [List.mem_singleton.mp hf]
            exact ht.pending req (by simp [hq])
          · cases hf
        · cases hf
    | _ => cases hf
  · exact ih f hf

theorem mem_acceptedFrames {c : ℕ} {f : Frame} {log : List Entry} (h : f ∈ acceptedFrames c log) :
    ∃ v, .appended c f v ∈ log := by
  simp only [acceptedFrames, List.mem_map, List.mem_reverse, List.mem_filter, decide_eq_true_eq] at h
  obtain ⟨⟨c', f', v⟩, ⟨ha, rfl⟩, rfl⟩ := h
  exact ⟨v, mem_appends.mp ha⟩

theorem mem_waitingFrames {q : List Functor} {f : Frame} :
    f ∈ waitingFrames q ↔ ∃ g ∈ q, g.job = .send f := by
  simp only [waitingFrames, List.mem_filterMap]
  refine exists_congr fun g => and_congr_right fun _ => ?_
  cases g.job <;> simp

theorem unreceived (h : RunTo P db C s) (hn : ¬ Received s o) (hb : Bound o p) :
    (frames s.log).reverse.filter p = [] ∧ (acceptedFrames o.conn s.log).filter p = [] ∧
    ∀ w, (waitingFrames (s.net.workers w).queue).filter p = [] := by
  have none : ∀ fs : List Frame, (∀ f ∈ fs, Received s f.origin) → fs.filter p = [] := fun fs hfs =>
    List.filter_eq_nil_iff.mpr fun f hf hp => hn ((hb f hp).1 ▸ hfs f hf)
  refine ⟨none _ fun f hf => received_of_frames h f (List.mem_reverse.mp hf), none _ fun f hf => ?_,
    fun w => none _ fun f hf => ?_⟩
  · obtain ⟨v, ha⟩ := mem_acceptedFrames hf
    exact received_of_appended h _ f v ha
  · obtain ⟨g, hg, hjob⟩ := mem_waitingFrames.mp hf
    exact (traced_of_run h).frame w g hg f hjob

theorem carried_of_run (h : RunTo P db C s) : Carried s := by
  refine h.invariant_reach Carried (fun _ _ _ _ hd => by cases hd) fun l s s' hr hc ih hs => ?_
  have hwf := wf_of_run hr
  have hm := move_of_step hwf hs
  intro o d p hb hd hp hx
  rcases opened_back hm hd hp with hd₀ | ⟨hnew, -⟩
  · rcases ih o d p hb hd₀ hp hx with hcl | he
    · exact .inl (closing_kept hwf hm hd₀ hp hd hcl)
    · exact carried_old hwf hm hs hb hd₀ hp hx he
  -- the connection is new
  · have hn : ¬ Received s' o := by
      rintro ⟨hdr, body, hrec⟩
      obtain ⟨d', hd'⟩ : ∃ d', s.net.conns o.conn = some d' := by
        rcases move_received hm hrec with hrec | ⟨-, d', hd', -⟩
        · exact ((traced_of_run hr).conn o hdr body hrec).imp fun _ hd => hd.1
        · exact ⟨d', hd'⟩
      have := hwf.conn_lt _ d' hd'
      omega
    obtain ⟨h₁, h₂, h₃⟩ := unreceived (hr.tail hc hs) hn hb
    exact .inr (by rw [h₁, h₂, h₃, List.append_nil])

end Carry

end AuraChat
