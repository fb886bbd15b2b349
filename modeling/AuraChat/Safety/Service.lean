import AuraChat.Safety.Answers
import AuraChat.Safety.Carried
import AuraChat.Safety.Conservation
import AuraChat.Safety.Contexts
import AuraChat.Safety.Recycling
import AuraChat.Safety.Requests
import AuraChat.Safety.Settling

set_option autoImplicit false

/-!
# Every request is answered

A packet waits on the pool, is at work, or is done, and what its thread has queued is on its way to the
connection or has got there. When nothing is left to do, a request whose connection is still open has its
answer.

* `Roomy`: the pools have room;
* `Stage`, `Attended`, `attended_of_run`: how far the work on a packet has come, and what it has queued;
* `OneEach`: a client gives a number to one packet of a connection;
* **`requests_answered`**: when the server is idle, one packet with the number of a request has been written to
  its connection, or the AI manager has taken its message.
-/

namespace AuraChat

open Interleave Interleave.Prog

variable {P : Params} {db : Store} {C : Label → State → Prop} {s s' : State} {l : Label}

/-- A packet is received, and a request is put on the pool, only while `ThreadPool::enqueue` takes tasks. -/
def TasksHaveRoom : Label → State → Prop
  | .read _ _ _, s | .dispatch, s => s.tasks.length ≤ 200000
  | _, _ => True

instance (l : Label) (s : State) : Decidable (TasksHaveRoom l s) :=
  match l with
  | .read _ _ _ | .dispatch => Nat.decLe s.tasks.length 200000
  | .accept _ | .swap _ | .functor _ | .write _ _ | .drop _ | .close _ | .dequeue _ _ | .thread _ _ | .schedule _
  | .drain | .flush _ => isTrue trivial

/-- The pools of contexts and the pool of threads have room for what comes in. -/
def Roomy (l : Label) (s : State) : Prop := PoolHasRoom l s ∧ TasksHaveRoom l s

instance (l : Label) (s : State) : Decidable (Roomy l s) := by unfold Roomy; infer_instance

/-! ## Answers -/

/-- The frame answers the packet `o`: it goes to the sender with the number of the packet, and it is no
part of an AI stream. -/
def Frame.answers (o : Origin) (seq : UInt32) (f : Frame) : Bool :=
  decide (f.origin = o ∧ f.ctx = o.ctx ∧ f.seq = seq ∧ f.why ≠ .chunk)

theorem bound_answers (o : Origin) (seq : UInt32) : Bound o (Frame.answers o seq) := by
  intro f hf
  obtain ⟨ho, hx, -⟩ := of_decide_eq_true hf
  exact ⟨ho, hx⟩

/-- How many answers to a packet were queued. -/
def answersQueued (o : Origin) (seq : UInt32) (log : List Entry) : ℕ :=
  (frames log).countP (Frame.answers o seq)

/-- How many packets with this number were appended to the send buffer of a connection. -/
def numberSent (c : ℕ) (seq : UInt32) (log : List Entry) : ℕ :=
  (acceptedFrames c log).countP fun f => f.seq = seq

theorem countP_frame {o : Origin} {hdr : PacketHeader} {body : Bytes} {h : List (Event Reply)} {a : Call}
    (hb : Backed P (.business o hdr body) h a) (seq : UInt32) (r : Reply a) :
    (a.frame o).countP (Frame.answers o seq) = [(⟨a, r⟩ : Event Reply)].countP (isReply o seq) := by
  cases a with
  | queueSendPacket x cmd seq' b why =>
      have hwhy : why ≠ .chunk := by
        rintro rfl
        exact hb
      simp only [Call.frame, List.countP_singleton, Frame.answers, isReply, hwhy, true_and, ne_eq,
        not_false_eq_true, and_true, Bool.and_eq_true, beq_iff_eq, decide_eq_true_eq]
  | _ => rfl

theorem countP_chunk {req : StreamRequest} {h : List (Event Reply)} {a : Call}
    (hb : Backed P (.stream req) h a) (o : Origin) (seq : UInt32) (o' : Origin) :
    (a.frame o').countP (Frame.answers o seq) = 0 := by
  cases a with
  | queueSendPacket x cmd seq' b why =>
      obtain ⟨rfl, -⟩ := hb
      simp [Call.frame, Frame.answers]
  | _ => rfl

theorem countP_other (a : Call) {o o' : Origin} (hne : o' ≠ o) (seq : UInt32) :
    (a.frame o').countP (Frame.answers o seq) = 0 := by
  cases a with
  | queueSendPacket x cmd seq' b why => simp [Call.frame, Frame.answers, hne]
  | _ => rfl

theorem countP_expires (l : Label) (o : Origin) (seq : UInt32) :
    (s.expires P l).countP (Frame.answers o seq) = 0 := by
  cases l with
  | schedule now =>
      simp only [State.expires]
      split
      · split_ifs
        · simp [Frame.answers, expiredFrame]
        · rfl
      · rfl
  | _ => rfl

/-! ## How far a packet has come -/

/-- **How far the work on a packet has come**, and how many answers it has queued. -/
inductive Stage (P : Params) (s : State) (o : Origin) (hdr : PacketHeader) (body : Bytes) : Prop
  | waits (hm : .business o hdr body ∈ s.tasks) (hn : answersQueued o hdr.seq s.log = 0)
  | works (i : ℕ) (t : Thread) (hi : s.threads i = some t) (ht : t.task = .business o hdr body)
      (hn : answersQueued o hdr.seq s.log = t.hist.countP (isReply o hdr.seq))
  | done (h : List (Event Reply)) (hp : Path (processBusiness P o hdr body) h (.ret ()))
      (hran : Ran s.owners h) (hdid : ∀ e ∈ h, .did o e ∈ s.log)
      (hn : answersQueued o hdr.seq s.log = h.countP (isReply o hdr.seq))
      (hgone : ∀ o' hdr' body', s.has (.business o' hdr' body') → o'.pid ≠ o.pid)

/-- **Every packet is attended to.** -/
def Attended (P : Params) (s : State) : Prop :=
  ∀ o hdr body, .received o hdr body ∈ s.log → Stage P s o hdr body

theorem answersQueued_other (hwf : s.net.WF P) (ht : Traced P s) (hs : step P l s = some s') (o : Origin)
    (seq : UInt32)
    (hne : ∀ i e t hdr body, l = .thread i e → s.threads i = some t → t.task ≠ .business o hdr body) :
    answersQueued o seq s'.log = answersQueued o seq s.log := by
  rw [answersQueued, frames_step hwf hs, State.queues, List.countP_append, List.countP_append,
    countP_expires, Nat.add_zero, answersQueued]
  refine Nat.add_eq_right.mpr ?_
  rcases hn : s.next l with _ | ⟨o', a⟩
  · rfl
  · obtain ⟨i, e, t, k, rfl, hi, rfl, hp⟩ := next_cases hn
    have hb := ht.backed hi hp
    rcases htask : t.task with ⟨o', hdr, body⟩ | req
    · refine countP_other a (fun e' => ?_) seq
      exact hne i e t hdr body rfl hi (by rw [htask, ← e']; rfl)
    · rw [htask] at hb
      exact countP_chunk hb o seq _

theorem move_head (h : Move P s l s') {t : Task} (he : s.tasks = t :: s'.tasks) :
    ∃ i script, l = .dequeue i script ∧ s'.threads i = some ⟨t, script, [], t.prog P script⟩ := by
  have hlen := congrArg List.length he
  cases h with
  | dequeue i script t' rest hlt hi hq =>
      obtain ⟨rfl, -⟩ := List.cons.inj (hq.symm.trans he)
      exact ⟨i, script, rfl, Function.update_self ..⟩
  | read c d hdr body ts hd hev hfr hts =>
      rcases hts with rfl | rfl <;> simp only [List.length_append, List.length_cons] at hlen <;> omega
  | dispatch req ts hh hts =>
      rcases hts with rfl | rfl <;> simp only [List.length_append, List.length_cons] at hlen <;> omega
  | expire => exact absurd hlen (Nat.ne_of_lt (Nat.lt_succ_self s.tasks.length))
  | call i e t' a k r s₁ hi hp ha =>
      rw [show _ = s.tasks from (effect_threads (act_effect ha)).2.1] at hlen
      simp at hlen
  | _ => simp at hlen

theorem thread_kept (h : Move P s l s') {i : ℕ} {t : Thread} (hi : s.threads i = some t)
    (hl : ∀ e, l ≠ .thread i e) : s'.threads i = some t := by
  cases h with
  | dequeue j script t' rest hlt hj hq =>
      have hne : i ≠ j := by
        rintro rfl
        rw [hi] at hj
        cases hj
      exact (Function.update_of_ne hne ..).trans hi
  | finish j e t' hj hp =>
      have hne : i ≠ j := fun he => hl e (he ▸ rfl)
      exact (Function.update_of_ne hne ..).trans hi
  | call j e t' a k r s₁ hj hp ha =>
      have hne : i ≠ j := fun he => hl e (he ▸ rfl)
      exact (Function.update_of_ne hne ..).trans ((effect_threads (act_effect ha)).1 ▸ hi)
  | _ => exact hi

section Moves

variable {o : Origin} {hdr : PacketHeader} {body : Bytes}

theorem stage_waits (hwf : s.net.WF P) (ht : Traced P s) (hf : Fifo s) (hs : step P l s = some s')
    (hm : .business o hdr body ∈ s.tasks) (hn : answersQueued o hdr.seq s.log = 0) :
    Stage P s' o hdr body := by
  have hn' : answersQueued o hdr.seq s'.log = 0 := by
    rw [answersQueued_other hwf ht hs, hn]
    intro i e t hdr' body' _ hi htask
    have hbefore := hf.ahead i t hi _ hm
    rw [htask] at hbefore
    exact Nat.lt_irrefl _ hbefore
  have h := move_of_step hwf hs
  rcases move_tasks h with e | ⟨t, e⟩ | ⟨t, e, -⟩
  · exact .waits (e ▸ hm) hn'
  · rw [e] at hm
    rcases List.mem_cons.mp hm with rfl | hm
    · obtain ⟨i, script, -, hi⟩ := move_head h e
      exact .works i _ hi rfl hn'
    · exact .waits hm hn'
  · exact .waits (e ▸ List.mem_append_left _ hm) hn'

/-- What a step leaves on the pool: what was there, or a packet with a new number. -/
theorem has_back (h : Move P s l s') (hh : s'.has (.business o hdr body)) :
    s.has (.business o hdr body) ∨ o.pid = s.nextPid := by
  have task : .business o hdr body ∈ s'.tasks →
      s.has (.business o hdr body) ∨ o.pid = s.nextPid := by
    intro hm
    rcases move_tasks h with e | ⟨t, e⟩ | ⟨t, e, hnew⟩
    · exact .inl (.inl (e ▸ hm))
    · exact .inl (.inl (e ▸ List.mem_cons_of_mem _ hm))
    · rw [e, List.mem_append, List.mem_singleton] at hm
      rcases hm with hm | rfl
      · exact .inl (.inl hm)
      · rcases hnew with ⟨hdr', body', c, x, e⟩ | ⟨req, e⟩
        · obtain ⟨rfl, -, -⟩ := Task.business.inj e
          exact .inr rfl
        · cases e
  rcases hh with hm | ⟨i, t', hi, htask⟩
  · exact task hm
  · rcases move_at_work h hi with ⟨t, hi, he⟩ | e
    · exact .inl (.inr ⟨i, t, hi, he.trans htask⟩)
    · rw [htask] at e
      exact .inl (.inl (e ▸ List.mem_cons_self))

theorem stage_done (hwf : s.net.WF P) (ht : Traced P s) (hf : Fifo s) (hs : step P l s = some s')
    (hr : .received o hdr body ∈ s.log) {hist : List (Event Reply)}
    (hp : Path (processBusiness P o hdr body) hist (.ret ())) (hran : Ran s.owners hist)
    (hdid : ∀ e ∈ hist, .did o e ∈ s.log)
    (hn : answersQueued o hdr.seq s.log = hist.countP (isReply o hdr.seq))
    (hgone : ∀ o' hdr' body', s.has (.business o' hdr' body') → o'.pid ≠ o.pid) :
    Stage P s' o hdr body := by
  have h := move_of_step hwf hs
  have howners : s'.owners = s.owners := funext (hwf.owner_eq (wf_move hwf h))
  refine .done hist hp (howners ▸ hran) (fun e he => move_log h (hdid e he)) ?_ fun o' hdr' body' hh => ?_
  · rw [answersQueued_other hwf ht hs, hn]
    intro i e t hdr' body' _ hi htask
    exact hgone o hdr' body' (.inr ⟨i, t, hi, htask⟩) rfl
  · rcases has_back h hh with hh | hnew
    · exact hgone o' hdr' body' hh
    · have := hf.lt o ⟨hdr, body, hr⟩
      omega

theorem stage_works (hwf : s.net.WF P) (ht : Traced P s) (hf : Fifo s) (hdis : Distinct P s)
    (hran : ∀ i t, s.threads i = some t → Ran s.owners t.hist) (hs : step P l s = some s')
    {i : ℕ} {t : Thread} (hi : s.threads i = some t) (htask : t.task = .business o hdr body)
    (hn : answersQueued o hdr.seq s.log = t.hist.countP (isReply o hdr.seq)) : Stage P s' o hdr body := by
  have h := move_of_step hwf hs
  have hframes := frames_step hwf hs
  by_cases hl : ∃ e, l = .thread i e
  · obtain ⟨e, rfl⟩ := hl
    cases h with
    | finish _ _ t' hj hp =>
        obtain rfl := Option.some.inj (hi.symm.trans hj)
        have hpath := ht.path i t hi
        rw [hp, htask] at hpath
        have hdid := ht.hist i t hi
        rw [htask] at hdid
        refine .done t.hist hpath (hran i t hi) hdid hn fun o' hdr' body' hh => ?_
        rcases hh with hm | ⟨j, t', hj', htask'⟩
        · have hbefore := hf.ahead i t hi _ hm
          rw [htask] at hbefore
          exact Nat.ne_of_gt hbefore
        · simp only [Function.update_apply] at hj'
          split_ifs at hj' with e
          exact fun he => e (hdis.threads j i t' t _ _ _ _ _ _ hj' hi htask' htask he)
    | call _ _ t' a k r s₁ hj hp hact =>
        obtain rfl := Option.some.inj (hi.symm.trans hj)
        have hb := ht.backed hi hp
        rw [htask] at hb
        refine .works i _ (Function.update_self ..) htask ?_
        -- the frame that the call queues, if it queues one
        rw [answersQueued, hframes, State.queues, next_thread e hi hp, List.countP_append,
          List.countP_append, countP_expires, Nat.add_zero, htask, Task.origin, countP_frame hb hdr.seq r,
          List.countP_append, Nat.add_comm]
        exact congrArg (· + _) hn
  -- a step of another thread
  · push Not at hl
    refine .works i t (thread_kept h hi hl) htask ?_
    rw [answersQueued_other hwf ht hs, hn]
    rintro j e t' hdr' body' rfl hj htask'
    have he := hdis.threads i j t t' _ _ _ _ _ _ hi hj htask htask' rfl
    exact hl e (by rw [he])

/-- A packet that a step receives has a new number, and its task waits on the pool. -/
theorem received_new (hwf : s.net.WF P) (hs : step P l s = some s') (hroom : TasksHaveRoom l s)
    (hr : .received o hdr body ∈ s'.log) : .received o hdr body ∈ s.log ∨
      (o.pid = s.nextPid ∧ .business o hdr body ∈ s'.tasks ∧ frames s'.log = frames s.log) := by
  cases move_of_step hwf hs with
  | read c d hdr' body' ts hd hev hfr hts =>
      rcases List.mem_cons.mp hr with e | hr
      · obtain ⟨rfl, rfl, rfl⟩ := Entry.received.inj e
        refine .inr ⟨rfl, ?_, rfl⟩
        simp only [step, hd, if_pos (And.intro hev hfr), State.enqueue] at hs
        rw [if_neg (Nat.not_lt.mpr hroom)] at hs
        rw [← congrArg State.tasks (Option.some.inj hs)]
        exact List.mem_append_right _ (List.mem_singleton_self _)
      · exact .inl hr
  | call i e t a k r s₁ hi hp ha =>
      rcases effect_log_eq (act_effect ha) with e₁ | ⟨x, cmd, seq, body', why, -, e₁⟩ | ⟨m, -, e₁⟩
      all_goals
        rw [e₁] at hr
        exact .inl (by simpa using hr)
  | _ => exact .inl (by simpa [State.queueFrame] using hr)

end Moves

/-- **Every packet is attended to**, in a run in which the pools have room. -/
theorem attended_of_run (h : RunTo P db Roomy s) : Attended P s := by
  refine h.invariant_reach (Attended P) (fun _ _ _ hr => by cases hr) fun l s s' hr hc ha hs o hdr body hrec => ?_
  have hwf := wf_of_run hr
  have ht := traced_of_run hr
  have hf := fifo_of_run hr
  rcases received_new hwf hs hc.2 hrec with hrec | ⟨hnew, hm, hq⟩
  · rcases ha o hdr body hrec with ⟨hm, hn⟩ | ⟨i, t, hi, htask, hn⟩ | ⟨hist, hp, hran, hdid, hn, hgone⟩
    · exact stage_waits hwf ht hf hs hm hn
    · exact stage_works hwf ht hf (distinct_of_run hr) (ran_of_run hr) hs hi htask hn
    · exact stage_done hwf ht hf hs hrec hp hran hdid hn hgone
  -- the packet is new
  · refine .waits hm ?_
    rw [answersQueued, hq]
    refine List.countP_eq_zero.mpr fun f hmem hans => ?_
    obtain ⟨ho, -⟩ := bound_answers o hdr.seq f hans
    have := hf.lt f.origin (received_of_frames hr f hmem)
    rw [ho] at this
    omega

/-! ## Requests and their answers -/

theorem pooled_of_run (h : RunTo P db PoolHasRoom s) : Pooled P s :=
  run_invariant h (Pooled P) pooled_init
    fun _ _ _ hr hwf hC hp hm => pooled_move hwf (traced_of_run hr) hp hC hm

/-- The contexts that a thread has been given have their workers. -/
theorem Pooled.addressed (hwf : s.net.WF P) (hp : Pooled P s) {o : Origin} {h : List (Event Reply)}
    (hdid : ∀ e ∈ h, .did o e ∈ s.log) {cmd : UInt32} {x : ℕ} (ha : Addresses cmd h x) :
    s.owners x ≠ none := by
  have known : ∀ x, P.pooled x → s.owners x ≠ none := by
    intro x hx
    rw [State.owners, (hwf.owner x hx).1]
    exact Option.some_ne_none _
  rcases ha with ⟨-, hf⟩ | ⟨hb, -⟩
  · obtain ⟨⟨a, r⟩, he, hx⟩ := List.mem_map.mp hf
    cases a with
    | sessionGet uid =>
        obtain rfl : r = some x := hx
        exact known x (hp.found o uid x (hdid _ he))
    | _ => cases hx
  · obtain ⟨⟨a, r⟩, he, hx⟩ := List.mem_map.mp hb
    cases a with
    | bindEnter uid y =>
        cases r with
        | none => cases hx
        | some old =>
            obtain rfl := Option.some.inj hx
            exact known _ (hp.bound o uid y old (hdid _ he))
    | _ => cases hx

/-- The packet is the only one with its number that was received on its connection. -/
def OneEach (s : State) (o : Origin) (seq : UInt32) : Prop :=
  ∀ o' hdr body, .received o' hdr body ∈ s.log → o'.conn = o.conn → hdr.seq = seq → o' = o

theorem numberSent_eq (h : RunTo P db (Unrecycled P) s) {o : Origin} {seq : UInt32} (hseq : seq ≠ 0)
    (hone : OneEach s o seq) : numberSent o.conn seq s.log =
      (acceptedFrames o.conn s.log).countP (Frame.answers o seq) := by
  refine List.countP_congr fun f hf => ?_
  obtain ⟨uid, ha⟩ := mem_acceptedFrames hf
  simp only [Frame.answers, decide_eq_true_eq]
  refine ⟨fun e => ?_, fun h => h.2.2.1⟩
  obtain ⟨hw, hx, hdr, body, hr, hs⟩ := numbered_reply h ha (e ▸ hseq)
  have ho := hone f.origin hdr body hr (appended_own h ha hx) (hs.trans e)
  exact ⟨ho, ho ▸ hx, e, by rw [hw]; exact fun e => by cases e⟩

/-- **Every request is answered.** In a run in which the pools have room and a new connection gets a context
that nothing is left to do for, when the server has nothing left to do: if a request on a connection that is
open is the only packet with its number there, then one packet with this number has been appended to the
send buffer of the connection, or none, and then the AI manager has taken its message; and the buffer has
been written out. -/
theorem requests_answered (h : RunTo P db (fun l s => Roomy l s ∧ Unrecycled P l s) s) (hidle : Idle P s)
    {o : Origin} {hdr : PacketHeader} {body : Bytes} (hr : .received o hdr body ∈ s.log) (hseq : hdr.seq ≠ 0)
    (hone : OneEach s o hdr.seq) (hreq : Parses P body hdr.cmd) (hopen : s.isOpen o.conn = true) :
    (numberSent o.conn hdr.seq s.log = 1 ∨ (numberSent o.conn hdr.seq s.log = 0 ∧
      ∃ fd req, .did o ⟨.aiEnqueue fd req, true⟩ ∈ s.log)) ∧ (s.net.ctxs o.ctx).sendBuf = [] := by
  have hroomy : RunTo P db Roomy s := h.mono fun _ _ hc => hc.1
  have hwf := wf_of_run h
  have ht := traced_of_run h
  have hp : Pooled P s := pooled_of_run (h.mono fun _ _ hc => hc.1.1)
  obtain ⟨d, hd, hph⟩ := isOpen_iff.mp hopen
  have hx : d.ctx = o.ctx := by
    obtain ⟨d', hd', hx⟩ := ht.conn o hdr body hr
    exact Option.some.inj (hd.symm.trans hd') ▸ hx
  have hwritten : (s.net.ctxs o.ctx).sendBuf = [] := by
    rcases hidle.conns _ d hd with hclosed | ⟨-, he⟩
    · rw [hph] at hclosed
      cases hclosed
    · exact hx ▸ he
  -- what was queued has got there
  have hsent : answersQueued o hdr.seq s.log = numberSent o.conn hdr.seq s.log := by
    rw [numberSent_eq (h.mono fun _ _ hc => hc.2) hseq hone]
    rcases carried_of_run h o d _ (bound_answers o hdr.seq) hd hph hx with ⟨g, hg, -⟩ | he
    · rw [hidle.queue] at hg
      cases hg
    · rw [hidle.queue] at he
      rw [answersQueued, ← List.countP_reverse, List.countP_eq_length_filter, he]
      simp [waitingFrames, List.countP_eq_length_filter]
  rw [← hsent]
  refine ⟨?_, hwritten⟩
  rcases attended_of_run hroomy o hdr body hr with ⟨hm, -⟩ | ⟨i, t, hi, -⟩ | ⟨hist, hpath, hran, hdid, hn, -⟩
  · rw [hidle.tasks] at hm
    cases hm
  · rw [hidle.threads i] at hi
    cases hi
  · have hgood : Good s.owners o hdr hist := hpath.sat (processBusiness_good hseq hreq) hran
    have howner : s.owners o.ctx ≠ none := by
      rw [State.owners, ← hx, (hwf.owner _ (hp.conn _ d hd)).1]
      exact Option.some_ne_none _
    have hcount := hgood.mpr ⟨howner, fun x ha => hp.addressed hwf hdid ha⟩
    rw [hn, hcount]
    split_ifs with hany
    · right
      obtain ⟨⟨a, r⟩, he, hacc⟩ := List.any_eq_true.mp hany
      cases a with
      | aiEnqueue fd req =>
          cases r with
          | true => exact ⟨rfl, fd, req, hdid _ he⟩
          | false => cases hacc
      | _ => cases hacc
    · exact .inl rfl

/-- Nothing is left to do, on what there is: a form of `Idle` that can be computed. -/
def State.finished (P : Params) (s : State) : Prop :=
  s.tasks = [] ∧ (∀ i < P.poolThreads, (s.threads i).isNone) ∧ s.ai.handoff = none ∧ s.ai.pending = [] ∧
  (∀ w < P.cfg.workerNum, (s.net.workers w).queue = []) ∧
  (∀ c < s.net.nextConn, ∀ d ∈ s.net.conns c, d.phase = .opened ∧ (s.net.ctxs d.ctx).sendBuf = []) ∧
  s.db.queue = [] ∧ s.db.batch = []

instance (P : Params) (s : State) : Decidable (s.finished P) := by unfold State.finished; infer_instance

theorem idle_of_finished (h : RunTo P db C s) (hf : s.finished P) : Idle P s := by
  obtain ⟨h₁, h₂, h₃, h₄, h₅, h₆, h₇, h₈⟩ := hf
  refine ⟨h₁, fun i => ?_, h₃, .inl h₄, fun w => ?_,
    fun c d hd => .inr (h₆ c ((wf_of_run h).conn_lt c d hd) d hd), .inl ⟨h₇, h₈⟩⟩
  · by_contra hne
    obtain ⟨t, hi⟩ := Option.ne_none_iff_exists'.mp hne
    have := h₂ i ((traced_of_run h).lt i t hi)
    rw [hi] at this
    cases this
  · by_contra hne
    exact hne (h₅ w ((staffed_of_run h).queue w hne))

/-- A client has connected and sent a heartbeat, and the answer has been written. -/
theorem requests_answered_sample : ∃ s,
    RunTo Sample.params Sample.db (fun l s => Roomy l s ∧ Unrecycled Sample.params l s) s ∧
    ((numberSent 0 1 s.log = 1 ∨ (numberSent 0 1 s.log = 0 ∧
      ∃ fd req, .did ⟨0, 0, 2⟩ ⟨.aiEnqueue fd req, true⟩ ∈ s.log)) ∧ (s.net.ctxs 2).sendBuf = []) := by
  obtain ⟨s, hr, hidle, hrec, hopen⟩ := Sample.exists_run (fun l s => Roomy l s ∧ Unrecycled Sample.params l s)
    (Sample.connect 5 ++ [Sample.packet 0 .heartbeat []] ++ Sample.work 0 3 ++
      [.swap 0, .functor 0, .write 0 100])
    (fun s => s.finished Sample.params ∧
      receivedTasks s.log = [.business ⟨0, 0, 2⟩ (Sample.header .heartbeat [] 1) []] ∧
      s.isOpen 0 = true) (by decide)
  have hone : OneEach s ⟨0, 0, 2⟩ 1 := by
    intro o' hdr body ho' _ _
    have hm := mem_receivedTasks.mpr ho'
    rw [hrec] at hm
    exact (Task.business.inj (List.mem_singleton.mp hm)).1
  have hmem : .received ⟨0, 0, 2⟩ (Sample.header .heartbeat [] 1) [] ∈ s.log :=
    mem_receivedTasks.mp (by rw [hrec]; exact List.mem_singleton_self _)
  exact ⟨s, hr, requests_answered hr (idle_of_finished hr hidle) hmem (by decide) hone .heartbeat hopen⟩

end AuraChat
