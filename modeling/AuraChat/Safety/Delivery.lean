import AuraChat.Model.Sample
import AuraChat.Server.Trace

set_option autoImplicit false

/-!
# Messages recorded as delivered

A chat message is stored as delivered when the session map has an entry for its recipient, but the
frame is accepted, or dropped, later by the worker of the recipient: when the connection is closed in
between, the message is neither sent nor kept for the next login (`delivered_but_lost`). When each
forwarded frame finds its context with an open connection, under the recipient's uid and with room in
the send buffer, every message recorded as delivered has been handed over.

* `Delivers`, `DeliversTo`: the condition on a step, for every recipient and for one;
* `Forwarded`, `Handed`, **`delivered_handed_over`**.
-/

namespace AuraChat

open Interleave

variable {P : Params} {db : Store} {s s' : State} {l : Label}

/-- The recipient of a forwarded chat message. -/
def Purpose.recipient : Purpose → Option Int
  | .forward toUid => some toUid
  | .reply | .notify _ | .offline _ | .chunk => none

/-- A step that sends a forwarded chat message does so while an open connection with the recipient's
uid has the context, with room in its send buffer. -/
def Delivers (P : Params) (l : Label) (s : State) : Prop :=
  ∀ f ∈ s.sends l, ∀ toUid ∈ f.why.recipient, (s.net.ctxs f.ctx).uid = toUid ∧
    ∃ c < s.net.nextConn, ∃ d ∈ s.net.conns c, d.phase = .opened ∧ d.ctx = f.ctx ∧ s.net.fits P f d

instance (P : Params) (l : Label) (s : State) : Decidable (Delivers P l s) := by
  unfold Delivers; infer_instance

/-- A step that sends a chat message forwarded to user `u` does so while an open connection with the
uid `u` has the context, with room in its send buffer. -/
def DeliversTo (P : Params) (u : Int) (l : Label) (s : State) : Prop :=
  ∀ f ∈ s.sends l, f.why.recipient = some u → (s.net.ctxs f.ctx).uid = u ∧
    ∃ c < s.net.nextConn, ∃ d ∈ s.net.conns c, d.phase = .opened ∧ d.ctx = f.ctx ∧ s.net.fits P f d

instance (P : Params) (u : Int) (l : Label) (s : State) : Decidable (DeliversTo P u l s) := by
  unfold DeliversTo; infer_instance

theorem Delivers.to (h : Delivers P l s) (u : Int) : DeliversTo P u l s :=
  fun f hf hu => h f hf u hu

theorem accepts_of_opened (hwf : s.net.WF P) {w : ℕ} {f : Frame}
    (ho : (s.net.ctxs f.ctx).ownerWorker = some w) {c : ℕ} {d : Conn} (hd : s.net.conns c = some d)
    (hp : d.phase = .opened) (hx : d.ctx = f.ctx) (hfit : s.net.fits P f d) :
    s.net.accepts P w f = some (c, d) := by
  have hpool : P.pooled f.ctx := by
    by_contra hn
    rw [(hwf.no_owner _ hn).1] at ho
    cases ho
  have hw : d.worker = w := by
    have h1 := hwf.own_pool c d hd (hx ▸ hpool)
    have h2 := (hwf.owner _ hpool).1
    rw [ho, Option.some.injEq] at h2
    rw [← h1, hx, ← h2]
  have hfd : (s.net.ctxs f.ctx).fd = d.fd := hx ▸ hwf.ctx_fd c d hd (Conn.holds_of_opened hp).live
  have h0 : ¬ d.fd < 0 := by
    have := hwf.fd_nonneg c d hd
    omega
  have hcon := (hwf.connections d.worker d.fd c).mpr ⟨d, hd, rfl, rfl, hp⟩
  have hr : s.net.route w f = some (c, d) := by
    simp only [Net.route, hfd, if_neg h0, ← hw, hcon, Option.bind_some, hd, Option.map_some]
  simp only [Net.accepts, hr, Option.filter_eq_some_iff, true_and]
  exact decide_eq_true ⟨hp, hfit⟩

/-- The frame waits in a queue, ahead of the functor number `bound`, or has been accepted for user
`u`. -/
def Forwarded (s : State) (f : Frame) (u : Int) (bound : ℕ) : Prop :=
  (∃ w, ∃ g ∈ (s.net.workers w).queue, g.job = .send f ∧ g.num < bound) ∨
    ∃ c, .appended c f u ∈ s.log

theorem forwarded_move (hwf : s.net.WF P) {u : Int} (hC : DeliversTo P u l s) (h : Move P s l s')
    {f : Frame} {bound : ℕ} (hw : f.why = .forward u) (hf : Forwarded s f u bound) :
    Forwarded s' f u bound := by
  rcases hf with ⟨w, g, hg, hjob, hnum⟩ | ⟨c, ha⟩
  · rcases move_queue_kept h hg with hg' | ⟨rfl, hb, rest, hq⟩
    · exact .inl ⟨w, g, hg', hjob, hnum⟩
    -- the functor runs, and the frame is accepted
    have hsends : s.sends (.functor w) = some f := by
      obtain ⟨num, job⟩ := g
      obtain rfl : job = .send f := hjob
      simp [State.sends, hq]
    obtain ⟨hu, c, -, d, hd, hp, hx, hfit⟩ := hC f hsends (by rw [hw]; rfl)
    have hacc := accepts_of_opened hwf (hwf.send_owner w g hg f hjob) hd hp hx hfit
    rcases move_functor h rfl hq with ⟨fd, hj⟩ | ⟨fr, c', d', hj, ha, hm⟩ | ⟨fr, hj, ha⟩ |
      ⟨fd, kick, hj, -⟩ | ⟨kick, c', d', hj, -⟩
    all_goals
      rw [hjob] at hj
      cases hj
    · rw [hacc] at ha
      cases ha
      rw [hx, hu] at hm
      exact .inr ⟨c, hm⟩
    · rw [hacc] at ha
      cases ha
  · exact .inr ⟨c, move_log h ha⟩

/-- The frame of a chat message, as `forwardChat` queues it. -/
def chatFrame (P : Params) (o : Origin) (x : ℕ) (msg : ChatMessage) (fromUid : Int) : Frame :=
  ⟨o, x, .chat, 0, P.codec.serializeChatMessage { msg with fromUid := fromUid }, .forward msg.toUid⟩

/-- **What has been forwarded is on its way or has been accepted**, and a message submitted as
delivered has been forwarded before. -/
structure Handed (P : Params) (s : State) : Prop where
  forwarded : ∀ o x cmd seq body u,
    .did o ⟨.queueSendPacket x cmd seq body (.forward u), ()⟩ ∈ s.log →
    Forwarded s ⟨o, x, cmd, seq, body, .forward u⟩ u s.net.nextNum
  submitted : ∀ o m num, .submitted o m num ∈ s.log → m.delivered = true → ∃ x msg fromUid,
    msg.toUid = m.toUid ∧ msg.content = m.content ∧
    Forwarded s (chatFrame P o x msg fromUid) m.toUid num

theorem forwarded_new (h : Move P s l s') {o : Origin} {x : ℕ} {cmd : CmdType} {seq : UInt32}
    {body : Bytes} {u : Int}
    (hd : .did o ⟨.queueSendPacket x cmd seq body (.forward u), ()⟩ ∈ s'.log) :
    .did o ⟨.queueSendPacket x cmd seq body (.forward u), ()⟩ ∈ s.log ∨
      Forwarded s' ⟨o, x, cmd, seq, body, .forward u⟩ u s'.net.nextNum := by
  rcases move_did h hd with hd | ⟨i, e, t, k, s₁, -, -, rfl, -, ha, hnet, -⟩
  · exact .inl hd
  · simp only [act, Option.map_eq_some_iff, Prod.mk.injEq] at ha
    obtain ⟨w, -, -, rfl⟩ := ha
    refine .inr (.inl ⟨w, ⟨s.net.nextNum, .send _⟩, ?_, rfl, ?_⟩)
    · rw [hnet]
      exact Net.mem_push.mpr (.inr ⟨rfl, rfl⟩)
    · rw [hnet]
      exact Nat.lt_succ_self _

theorem Forwarded.mono {f : Frame} {u : Int} {b b' : ℕ} (h : Forwarded s f u b) (hb : b ≤ b') :
    Forwarded s f u b' := by
  rcases h with ⟨w, g, hg, hjob, hnum⟩ | ha
  · exact .inl ⟨w, g, hg, hjob, Nat.lt_of_lt_of_le hnum hb⟩
  · exact .inr ha

theorem handed_move (hwf : s.net.WF P) (ht : Traced P s) (hh : Handed P s) (hC : Delivers P l s)
    (h : Move P s l s') : Handed P s' := by
  refine ⟨fun o x cmd seq body u hd => ?_, fun o m num hs hdel => ?_⟩
  · rcases forwarded_new h hd with hd | hf
    · exact (forwarded_move hwf (hC.to u) h rfl (hh.forwarded o x cmd seq body u hd)).mono (move_nextNum h)
    · exact hf
  · rcases move_submitted h hs with hs | ⟨hn, rfl⟩
    · obtain ⟨x, msg, fromUid, hto, hcon, hf⟩ := hh.submitted o m num hs hdel
      exact ⟨x, msg, fromUid, hto, hcon, forwarded_move hwf (hC.to _) h (by rw [← hto]; rfl) hf⟩
    · -- the thread has queued the frame before it submits
      obtain ⟨i, e, t, -, hi, rfl, hg⟩ := ht.next_guard hn
      obtain ⟨x, msg, fromUid, hm, hto, hcon⟩ := hg hdel
      have hf := hh.forwarded _ x .chat 0 _ m.toUid (ht.hist i t hi _ hm)
      refine ⟨x, msg, fromUid, hto, hcon, ?_⟩
      rw [← hto] at hf ⊢
      exact forwarded_move hwf (hC.to _) h rfl hf

/-- **A message recorded as delivered was handed over.** In a run in which each forwarded frame is
sent while an open connection of the recipient has its context and room for it, a message submitted
as delivered has had its frame accepted for the recipient, once the functors queued before the
submission have run. -/
theorem delivered_handed_over (h : RunTo P db (Delivers P) s) (o : Origin) (m : DBChatMessage)
    (num : ℕ) (hs : .submitted o m num ∈ s.log) (hdel : m.delivered = true)
    (hran : ∀ w, ∀ g ∈ (s.net.workers w).queue, num ≤ g.num) :
    ∃ c x msg fromUid, msg.toUid = m.toUid ∧ msg.content = m.content ∧
      .appended c (chatFrame P o x msg fromUid) m.toUid ∈ s.log := by
  have hh : Handed P s := run_invariant h (Handed P)
    ⟨fun _ _ _ _ _ _ h => (by cases h), fun _ _ _ h => (by cases h)⟩
    fun _ _ _ hr hwf hC hh hm => handed_move hwf (traced_of_run hr) hh hC hm
  obtain ⟨x, msg, fromUid, hto, hcon, ⟨w, g, hg, -, hnum⟩ | ⟨c, ha⟩⟩ := hh.submitted o m num hs hdel
  · exact absurd hnum (Nat.not_lt_of_le (hran w g hg))
  · exact ⟨c, x, msg, fromUid, hto, hcon, ha⟩

/-- The messages that have been submitted, newest first. -/
def submissions (log : List Entry) : List (Origin × DBChatMessage × ℕ) :=
  log.filterMap fun e => match e with
    | .submitted o m num => some (o, m, num)
    | _ => none

theorem mem_of_submissions {log : List Entry} {o : Origin} {m : DBChatMessage} {num : ℕ}
    (h : (o, m, num) ∈ submissions log) : .submitted o m num ∈ log := by
  obtain ⟨e, he, heq⟩ := List.mem_filterMap.mp h
  split at heq
  · simp only [Option.some.injEq, Prod.mk.injEq] at heq
    obtain ⟨rfl, rfl, rfl⟩ := heq
    exact he
  · cases heq

/-- User `a` sends `hi` to user `b`, who is there. -/
theorem delivered_handed_over_sample : ∃ s, RunTo Sample.params Sample.db (Delivers Sample.params) s ∧
    ∃ o m num, .submitted o m num ∈ s.log ∧ m.delivered = true ∧ m.toUid = 1001 ∧
      ∃ c x msg fromUid, msg.toUid = m.toUid ∧ msg.content = m.content ∧
        .appended c (chatFrame Sample.params o x msg fromUid) m.toUid ∈ s.log := by
  obtain ⟨s, hr, hq, ⟨o, m, num⟩, hm, hdel, hto⟩ := Sample.exists_run (Delivers Sample.params)
    (Sample.connect 5 ++ Sample.connect 6 ++
      [Sample.packet 0 .login Sample.loginA, Sample.packet 1 .login Sample.loginB] ++
      Sample.work 0 7 ++ Sample.work 1 7 ++ [Sample.packet 0 .chat Sample.chatToB] ++
      Sample.work 0 10 ++ [.swap 0] ++ List.replicate 4 (.functor 0))
    (fun s => (∀ w, (s.net.workers w).queue = []) ∧
      ∃ a ∈ submissions s.log, a.2.1.delivered = true ∧ a.2.1.toUid = 1001)
    ⟨_, rfl, fun w => (by cases w <;> rfl), by decide⟩
  have hs := mem_of_submissions hm
  refine ⟨s, hr, o, m, num, hs, hdel, hto, delivered_handed_over hr o m num hs hdel fun w g hg => ?_⟩
  rw [hq] at hg
  cases hg

/-- User `a` sends `hi` to user `b`, who hangs up before the worker runs the functor: the message is
submitted as delivered, and no frame is ever appended for user `b`. -/
theorem delivered_but_lost : ∃ s, RunTo Sample.params Sample.db (fun _ _ => True) s ∧
    (∀ w, (s.net.workers w).queue = []) ∧
    (∃ o m num, .submitted o m num ∈ s.log ∧ m.delivered = true ∧ m.toUid = 1001) ∧
    ∀ c f uid, .appended c f uid ∈ s.log → f.why ≠ .forward 1001 := by
  obtain ⟨s, hr, hq, ⟨⟨o, m, num⟩, hm, hdel, hto⟩, hno⟩ := Sample.exists_run (fun _ _ => True)
    (Sample.connect 5 ++ Sample.connect 6 ++
      [Sample.packet 0 .login Sample.loginA, Sample.packet 1 .login Sample.loginB] ++
      Sample.work 0 7 ++ Sample.work 1 7 ++ [Sample.packet 0 .chat Sample.chatToB] ++
      Sample.work 0 10 ++ Sample.disconnect 1 true ++ [.swap 0] ++ List.replicate 4 (.functor 0))
    (fun s => (∀ w, (s.net.workers w).queue = []) ∧
      (∃ a ∈ submissions s.log, a.2.1.delivered = true ∧ a.2.1.toUid = 1001) ∧
      ∀ a ∈ appends s.log, a.2.1.why ≠ .forward 1001)
    ⟨_, rfl, fun w => (by cases w <;> rfl), by decide, by decide⟩
  exact ⟨s, hr, hq, ⟨o, m, num, mem_of_submissions hm, hdel, hto⟩,
    fun c f uid ha => hno _ (mem_appends.mpr ha)⟩

end AuraChat
