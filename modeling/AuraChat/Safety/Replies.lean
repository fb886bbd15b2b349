import AuraChat.Safety.Slots

set_option autoImplicit false

/-!
# One reply at a time

`submit_stream_request` looks for an active stream of the connection and not for a request that waits.
Two requests of one connection can both wait, and the scheduler starts the second one while the first is
at work (`two_streams`): their chunks go to the client side by side. So do those of a stream whose
connection is gone and whose context has been recycled. When the scheduler takes a request only while no
other request with its context is unfinished, the replies come one after the other.

* `State.chunks`: the replies that the chunks for a context belong to, those sent and those on their way, in
  order;
* `OneStream`: the condition on a step;
* `Replies`, **`one_reply_at_a_time`**.
-/

namespace AuraChat

open Interleave

variable {P : Params} {db : Store} {C : Label → State → Prop} {s s' : State} {l : Label} {c x w : ℕ}

/-! ## Chunks on their way -/

/-- The connection is open. -/
def State.isOpen (s : State) (c : ℕ) : Bool := (s.net.conns c).any fun d => d.phase = .opened

/-- The request that a chunk replies to. -/
def Frame.reply (f : Frame) : Option ℕ := if f.why = .chunk then some f.origin.pid else none

/-- The request that a frame replies to, if it is a chunk for the context. -/
def Frame.replyTo (x : ℕ) (f : Frame) : Option ℕ := if f.ctx = x then f.reply else none

def Job.replyTo (x : ℕ) : Job → Option ℕ
  | .send f => f.replyTo x
  | _ => none

/-- The requests that the chunks for a context in a queue reply to. -/
def queuedChunks (x : ℕ) (q : List Functor) : List ℕ := q.filterMap fun g => g.job.replyTo x

/-- The requests that the chunks that have been sent for a context reply to, oldest first. -/
def chunksFor (x : ℕ) (log : List Entry) : List ℕ :=
  (log.filterMap fun e => match e with
    | .appended _ f _ => f.replyTo x
    | _ => none).reverse

/-- The requests that the chunks that a connection has been sent reply to, oldest first, whichever
connection asked. -/
def sentChunks (c : ℕ) (log : List Entry) : List ℕ :=
  (log.filterMap fun e => match e with
    | .appended c' f _ => if c' = c then f.reply else none
    | _ => none).reverse

/-- The chunks for a context, those sent and those in the queue of worker `w`. -/
def State.chunks (s : State) (w x : ℕ) : List ℕ :=
  chunksFor x s.log ++ queuedChunks x (s.net.workers w).queue

/-- The request that a step of the scheduler takes off the queue to start its stream, or to answer that it
has waited too long. -/
def State.takes (s : State) : Label → Option StreamRequest
  | .schedule now => s.ai.pending.head?.filter fun req =>
      30 < now - req.timestamp ∨ 0 ≤ (s.net.ctxs req.origin.ctx).fd
  | _ => none

/-- The scheduler takes a request while no other request with its context is unfinished. -/
def OneStream (P : Params) (l : Label) (s : State) : Prop :=
  ∀ req ∈ s.takes l, ∀ r ∈ s.unfinished P, r.origin.ctx ≠ req.origin.ctx

instance (P : Params) (l : Label) (s : State) : Decidable (OneStream P l s) := by
  unfold OneStream; infer_instance

theorem isOpen_iff : s.isOpen c = true ↔ ∃ d, s.net.conns c = some d ∧ d.phase = .opened := by
  simp only [State.isOpen, Option.any_eq_true, decide_eq_true_eq]

theorem queuedChunks_push (n : Net) (w' : ℕ) (job : Job) :
    queuedChunks x ((n.push w' job).workers w).queue =
      queuedChunks x (n.workers w).queue ++ if w = w' then (job.replyTo x).toList else [] := by
  by_cases hw : w = w'
  · subst hw
    rw [Net.push_queue, if_pos rfl]
    simp only [queuedChunks, List.filterMap_append, List.filterMap_cons, List.filterMap_nil]
    cases job.replyTo x <;> rfl
  · rw [Net.push_queue_ne hw, if_neg hw, List.append_nil]

theorem queuedChunks_push_none (n : Net) (w' : ℕ) {job : Job} (hj : job.replyTo x = none) :
    queuedChunks x ((n.push w' job).workers w).queue = queuedChunks x (n.workers w).queue := by
  rw [queuedChunks_push, hj, Option.toList_none, ite_self, List.append_nil]

theorem queuedChunks_pop {n : Net} {w' : ℕ} {g : Functor} {rest : List Functor}
    (hq : (n.workers w').batch = g :: rest) :
    queuedChunks x (n.workers w).queue = (if w = w' then (g.job.replyTo x).toList else []) ++
      queuedChunks x ((n.popBatch w' rest).workers w).queue := by
  by_cases hw : w = w'
  · subst hw
    simp only [Worker.queue, hq, Net.popBatch, Net.updWorker_apply, if_true, queuedChunks,
      List.cons_append, List.filterMap_cons]
    cases g.job.replyTo x <;> rfl
  · simp only [Net.popBatch, Net.updWorker_apply, if_neg hw, List.nil_append]

theorem queuedChunks_pop_sublist {n : Net} {w' : ℕ} {g : Functor} {rest : List Functor}
    (hq : (n.workers w').batch = g :: rest) :
    (queuedChunks x ((n.popBatch w' rest).workers w).queue).Sublist (queuedChunks x (n.workers w).queue) := by
  rw [queuedChunks_pop hq]
  exact List.sublist_append_right _ _

theorem chunksFor_append (c : ℕ) (f : Frame) (v : Int) (log : List Entry) :
    chunksFor x (.appended c f v :: log) = chunksFor x log ++ (f.replyTo x).toList := by
  simp only [chunksFor, List.filterMap_cons]
  cases f.replyTo x <;> simp

/-- **What a step does to the chunks for a context.** -/
inductive ChunkTurn (s : State) (l : Label) (s' : State) (w x : ℕ) : Prop
  | less (hs : (s'.chunks w x).Sublist (s.chunks w x))
  | chunk (o : Origin) (cmd : CmdType) (seq : UInt32) (body : Bytes)
      (hn : s.next l = some (o, .queueSendPacket x cmd seq body .chunk))
      (hs : s'.chunks w x = s.chunks w x ++ [o.pid])
  | expired (req : StreamRequest) (hp : s.takes l = some req)
      (hq : s.ai.pending = req :: s'.ai.pending) (hx : req.origin.ctx = x)
      (hs : s'.chunks w x = s.chunks w x ++ [req.origin.pid])

theorem chunkTurn_of_move (hwf : s.net.WF P) (h : Move P s l s')
    (hown : (s.net.ctxs x).ownerWorker = some w) : ChunkTurn s l s' w x := by
  have less : chunksFor x s'.log = chunksFor x s.log →
      (queuedChunks x (s'.net.workers w).queue).Sublist (queuedChunks x (s.net.workers w).queue) →
        ChunkTurn s l s' w x := by
    intro hlog hq
    refine .less ?_
    rw [State.chunks, State.chunks, hlog]
    exact (List.Sublist.refl _).append hq
  have same : chunksFor x s'.log = chunksFor x s.log →
      (s'.net.workers w).queue = (s.net.workers w).queue → ChunkTurn s l s' w x :=
    fun hlog hq => less hlog (by rw [hq])
  -- a frame is queued
  have pushed : ∀ (w' : ℕ) (f : Frame), chunksFor x s'.log = chunksFor x s.log →
      (s'.net.workers w).queue = ((s.net.push w' (.send f)).workers w).queue →
      (f.why = .chunk → f.ctx = x → s'.chunks w x = s.chunks w x ++ [f.origin.pid] →
        ChunkTurn s l s' w x) → ChunkTurn s l s' w x := by
    intro w' f hlog hq hnew
    have after : s'.chunks w x = s.chunks w x ++ if w = w' then ((Job.send f).replyTo x).toList else [] := by
      rw [State.chunks, hlog, hq, queuedChunks_push, ← List.append_assoc, State.chunks]
    by_cases hf : w = w' ∧ f.ctx = x ∧ f.why = .chunk
    · refine hnew hf.2.2 hf.2.1 ?_
      rw [after, if_pos hf.1, Job.replyTo, Frame.replyTo, if_pos hf.2.1, Frame.reply, if_pos hf.2.2]
      rfl
    · refine .less ?_
      have hnone : (if w = w' then ((Job.send f).replyTo x).toList else []) = [] := by
        simp only [Job.replyTo, Frame.replyTo, Frame.reply]
        split_ifs with h1 h2 h3
        · exact absurd ⟨h1, h2, h3⟩ hf
        all_goals rfl
      rw [after, hnone, List.append_nil]
  cases h with
  | accept fd h0 hfd =>
      refine less rfl ?_
      rw [show _ = _ from queuedChunks_push_none s.net _ rfl]
  | swap w' hb hq =>
      refine same rfl ?_
      simp only [Net.updWorker_apply]
      split_ifs with e
      · rw [e]
        simp [Worker.queue, hq]
      · rfl
  | add w' num fd rest hb hq =>
      refine less rfl ?_
      rw [addConnection_queue]
      exact queuedChunks_pop_sublist hq
  | sent w' num f rest c d hb hq ha =>
      have hmem : (⟨num, .send f⟩ : Functor) ∈ (s.net.workers w').queue := by simp [Worker.queue, hq]
      by_cases hf : f.ctx = x
      · -- the chunk goes from the head of the queue to the connection
        have hw : w = w' := Option.some.inj (hown.symm.trans (hf ▸ hwf.send_owner w' _ hmem f rfl))
        refine .less ?_
        rw [State.chunks, State.chunks, chunksFor_append, queuedChunks_pop hq, if_pos hw, List.append_assoc]
        exact List.Sublist.refl _
      · refine less ?_ (queuedChunks_pop_sublist hq)
        rw [chunksFor_append, Frame.replyTo, if_neg hf, Option.toList_none, List.append_nil]
  | lost w' num f rest hb hq ha => exact less rfl (queuedChunks_pop_sublist hq)
  | overflow w' num f rest c d hb hq ha hr =>
      refine less rfl ?_
      dsimp only
      rw [queuedChunks_push_none _ _ rfl]
      exact queuedChunks_pop_sublist hq
  | missed w' num fd kick rest hb hq hc => exact less rfl (queuedChunks_pop_sublist hq)
  | closed num kick rest c d hb hq hd hp =>
      refine less rfl ?_
      rw [leave_queue]
      exact queuedChunks_pop_sublist hq
  | drop c d hd hev => exact same rfl (leave_queue ..)
  | release c d hd hp => exact same rfl (Net.releaseContext_workers c d _).2.1
  | call i e t a k r s₁ hi hp ha =>
      have hn := next_thread e hi hp
      cases act_effect ha with
      | send y cmd seq body why w' hw =>
          refine pushed w' ⟨t.task.origin, y, cmd, seq, body, why⟩ rfl rfl fun hwhy hy hs => ?_
          obtain rfl : why = .chunk := hwhy
          obtain rfl : y = x := hy
          exact .chunk _ cmd seq body hn hs
      | kick old fd w' hw =>
          refine less rfl ?_
          dsimp only
          rw [queuedChunks_push_none _ _ rfl]
      | _ => exact same rfl rfl
  | expire req rest now w' f hq hw ho hx hy hold =>
      refine pushed w' f rfl rfl fun hwhy hf hs => ?_
      rw [ho] at hs
      rw [hx] at hf
      exact .expired req (by simp [State.takes, hq, hold]) hq hf hs
  | read | write | check | loadCancel | cancel | loadUnbind | unbind | closeFd | dequeue | finish | forget
  | activate | dispatch | drain | flush => exact same rfl rfl

/-! ## Connections and their packets -/

theorem received_of_appended (h : RunTo P db C s) :
    ∀ c f v, .appended c f v ∈ s.log → Received s f.origin := by
  refine run_invariant h (fun s => ∀ c f v, .appended c f v ∈ s.log → Received s f.origin)
    (fun _ _ _ ha => by cases ha) fun l s s' hr _ _ ih hm c f v ha => ?_
  rcases move_appended hm ha with ha | ⟨w, num, rest, d, -, -, hq, -⟩
  · exact (ih c f v ha).mono (move_log hm)
  · exact ((traced_of_run hr).frame w ⟨num, .send f⟩ (by simp [Worker.queue, hq]) f rfl).mono
      (move_log hm)

theorem open_back (hwf : s.net.WF P) (ht : Traced P s) (h : Move P s l s')
    (ho : s'.isOpen c = true) :
    (s.isOpen c = true ∧ ∃ d, s.net.conns c = some d) ∨ ∀ o, Received s' o → o.conn ≠ c := by
  obtain ⟨d, hd, hp⟩ := isOpen_iff.mp ho
  rcases opened_back h hd hp with hd₀ | ⟨rfl, num, rest, hq, -⟩
  · exact .inl ⟨isOpen_iff.mpr ⟨d, hd₀, hp⟩, d, hd₀⟩
  · refine .inr fun o ⟨hdr, body, hr⟩ he => ?_
    rcases move_received h hr with hr | ⟨-, d', hd', -⟩
    · obtain ⟨d', hd', -⟩ := ht.conn o hdr body hr
      have := hwf.conn_lt o.conn d' hd'
      omega
    · have := hwf.conn_lt o.conn d' hd'
      omega

/-! ## Replies in turn -/

/-- **The replies for a context come one after the other**: it has one unfinished request, whose chunks may
follow those on their way, and none of those that wait has a chunk on its way. -/
structure Replies (P : Params) (s : State) : Prop where
  alone : ∀ r ∈ s.unfinished P, ∀ r' ∈ s.unfinished P, r.origin.ctx = r'.origin.ctx → r = r'
  grouped : ∀ x w, (s.net.ctxs x).ownerWorker = some w → Grouped (s.chunks w x)
  going : ∀ r ∈ s.unfinished P, ∀ w, (s.net.ctxs r.origin.ctx).ownerWorker = some w →
    Grouped (s.chunks w r.origin.ctx ++ [r.origin.pid])
  waiting : ∀ r ∈ s.ai.pending, ∀ w, (s.net.ctxs r.origin.ctx).ownerWorker = some w →
    r.origin.pid ∉ s.chunks w r.origin.ctx
  known : ∀ x w, (s.net.ctxs x).ownerWorker = some w → ∀ pid ∈ s.chunks w x, Submitted s pid

theorem takes_of_starts {req : StreamRequest} (h : s.starts l = some req) : s.takes l = some req := by
  cases l with
  | schedule now =>
      simp only [State.starts] at h
      split at h
      · cases h
      · rename_i req' rest hq
        split_ifs at h with hc
        obtain rfl := Option.some.inj h
        simp [State.takes, hq, Int.not_lt.mp (not_or.mp hc).2]
  | _ => cases h

theorem Traced.received_unfinished (ht : Traced P s) {r : StreamRequest} (hr : r ∈ s.unfinished P) :
    Received s r.origin := by
  rcases (mem_unfinished ht).mp hr with hh | hm | ⟨i, hi⟩
  · exact ht.handoff r hh
  · exact ht.task _ hm
  · obtain ⟨t, -, -, hi, htask, -⟩ := running_eq_some.mp hi
    have := (ht.thread i t hi).received
    rwa [htask] at this

theorem unfinished_of_chunk (ht : Traced P s) {o : Origin} {cmd : CmdType} {seq : UInt32}
    {body : Bytes} (hn : s.next l = some (o, .queueSendPacket x cmd seq body .chunk)) :
    ∃ r ∈ s.unfinished P, r.origin = o ∧ r.origin.ctx = x := by
  obtain ⟨i, e, t, k, -, hi, rfl, hp⟩ := next_cases hn
  obtain ⟨req, htask⟩ := ht.stream_of_call hi hp rfl (by simp)
  refine ⟨req, (mem_unfinished ht).mpr (.inr (.inr ⟨i, ?_⟩)), by rw [htask]; rfl, ?_⟩
  · exact running_eq_some.mpr ⟨t, _, k, hi, htask, hp⟩
  · exact (stream_call ht hi hp htask ()).1.1.symm

section Step

variable (hwf : s.net.WF P) (ht : Traced P s) (hf : Fifo s) (hd : Distinct P s) (hC : OneStream P l s)
  (h : Move P s l s') (hr : Replies P s)

include hC h hr in
theorem replies_alone (r : StreamRequest) (hm : r ∈ s'.unfinished P) (r' : StreamRequest)
    (hm' : r' ∈ s'.unfinished P) (he : r.origin.ctx = r'.origin.ctx) : r = r' := by
  cases aiTurn_of_move h with
  | keep hp hu => exact hr.alone r (hu.subset hm) r' (hu.subset hm') he
  | submit o fd req hn hp hu => exact hr.alone r (hu.subset hm) r' (hu.subset hm') he
  | forget req hp hu => exact hr.alone r (hu.subset hm) r' (hu.subset hm') he
  | start req hp hs hent hu =>
      have hreq := hC req (takes_of_starts hs)
      rcases List.mem_cons.mp (hu.subset hm) with rfl | hm <;>
        rcases List.mem_cons.mp (hu.subset hm') with rfl | hm'
      · rfl
      · exact absurd he.symm (hreq r' hm')
      · exact absurd he (hreq r hm)
      · exact hr.alone r hm r' hm' he

include hwf ht h hr in
theorem replies_grouped (x w : ℕ) (hown : (s.net.ctxs x).ownerWorker = some w) :
    Grouped (s'.chunks w x) := by
  cases chunkTurn_of_move hwf h hown with
  | less hs => exact (hr.grouped x w hown).sublist hs
  | chunk o cmd seq body hn hs =>
      obtain ⟨r, hm, rfl, rfl⟩ := unfinished_of_chunk ht hn
      rw [hs]
      exact hr.going r hm w hown
  | expired req hp hq hx hs =>
      subst hx
      rw [hs]
      exact grouped_snoc (hr.grouped _ w hown) (hr.waiting req (by simp [hq]) w hown)

include hwf ht hC h hr in
theorem replies_going (r : StreamRequest) (hm : r ∈ s'.unfinished P) (w : ℕ)
    (hown : (s.net.ctxs r.origin.ctx).ownerWorker = some w) :
    Grouped (s'.chunks w r.origin.ctx ++ [r.origin.pid]) := by
  -- the request is unfinished, or the scheduler starts it now and no chunk of it is on its way
  have hcases : r ∈ s.unfinished P ∨ (s.takes l = some r ∧ r ∈ s.ai.pending) := by
    cases aiTurn_of_move h with
    | keep hp hu => exact .inl (hu.subset hm)
    | submit o fd req hn hp hu => exact .inl (hu.subset hm)
    | forget req hp hu => exact .inl (hu.subset hm)
    | start req hp hs hent hu =>
        rcases List.mem_cons.mp (hu.subset hm) with rfl | hm
        · exact .inr ⟨takes_of_starts hs, by simp [hp]⟩
        · exact .inl hm
  have hold : Grouped (s.chunks w r.origin.ctx ++ [r.origin.pid]) := by
    rcases hcases with hm | ⟨-, hm⟩
    · exact hr.going r hm w hown
    · exact grouped_snoc (hr.grouped _ w hown) (hr.waiting r hm w hown)
  cases chunkTurn_of_move hwf h hown with
  | less hs => exact hold.sublist (hs.append (List.Sublist.refl _))
  | chunk o cmd seq body hn hs =>
      obtain ⟨r₀, hm₀, rfl, hx⟩ := unfinished_of_chunk ht hn
      rcases hcases with hm | ⟨htk, -⟩
      · obtain rfl := hr.alone r hm r₀ hm₀ hx.symm
        rw [hs]
        exact grouped_double hold
      · exact absurd hx (hC r htk r₀ hm₀)
  | expired req hp hq hx hs =>
      rcases hcases with hm | ⟨htk, -⟩
      · exact absurd hx.symm (hC req hp r hm)
      · obtain rfl := Option.some.inj (htk.symm.trans hp)
        rw [hs]
        exact grouped_double hold

include hwf ht hf hd h hr in
theorem replies_waiting (r : StreamRequest) (hm : r ∈ s'.ai.pending) (w : ℕ)
    (hown : (s.net.ctxs r.origin.ctx).ownerWorker = some w) :
    r.origin.pid ∉ s'.chunks w r.origin.ctx := by
  have hcases : r ∈ s.ai.pending ∨ ∃ o fd, s.next l = some (o, .aiEnqueue fd r) ∧
      s'.ai.pending = s.ai.pending ++ [r] := by
    cases aiTurn_of_move h with
    | keep hp hu => exact .inl (by rwa [hp] at hm)
    | submit o fd req hn hp hu =>
        rw [hp, List.mem_append, List.mem_singleton] at hm
        rcases hm with hm | rfl
        · exact .inl hm
        · exact .inr ⟨o, fd, hn, hp⟩
    | forget req hp hu => exact .inl (by rw [hp]; exact List.mem_cons_of_mem _ hm)
    | start req hp hs hent hu => exact .inl (by rw [hp]; exact List.mem_cons_of_mem _ hm)
  have hold : r.origin.pid ∉ s.chunks w r.origin.ctx := by
    rcases hcases with hm | ⟨o, fd, hn, -⟩
    · exact hr.waiting r hm w hown
    · exact fun hp => (submit_fresh ht hf hd h hn).1 (hr.known _ w hown _ hp)
  have hnd := hd.nodup
  rw [List.map_append, List.nodup_append] at hnd
  cases chunkTurn_of_move hwf h hown with
  | less hs => exact fun hp => hold (hs.subset hp)
  | chunk o cmd seq body hn hs =>
      rw [hs, List.mem_append, List.mem_singleton]
      obtain ⟨r₀, hm₀, rfl, -⟩ := unfinished_of_chunk ht hn
      rintro (hp | hp)
      · exact hold hp
      rcases hcases with hm | ⟨o, fd, hn', -⟩
      · exact hnd.2.2 _ (List.mem_map_of_mem hm) _ (List.mem_map_of_mem hm₀) hp
      · rw [hn] at hn'
        cases hn'
  | expired req hp hq hx hs =>
      rw [hs, List.mem_append, List.mem_singleton]
      rintro (hp' | hp')
      · exact hold hp'
      · -- the request that has expired was the only one of its packet
        have hhead := hnd.1
        rw [hq, List.map_cons, List.nodup_cons] at hhead
        exact hhead.1 (hp' ▸ List.mem_map_of_mem hm)

include hwf ht hd h hr in
theorem replies_known (x w : ℕ) (hown : (s.net.ctxs x).ownerWorker = some w) (pid : ℕ)
    (hp : pid ∈ s'.chunks w x) : Submitted s' pid := by
  refine submitted_move ?_ h
  cases chunkTurn_of_move hwf h hown with
  | less hs => exact hr.known x w hown pid (hs.subset hp)
  | chunk o cmd seq body hn hs =>
      rw [hs, List.mem_append, List.mem_singleton] at hp
      rcases hp with hp | rfl
      · exact hr.known x w hown pid hp
      · obtain ⟨r, hm, rfl, -⟩ := unfinished_of_chunk ht hn
        exact hd.submitted r (List.mem_append_right _ hm)
  | expired req hp' hq hx hs =>
      rw [hs, List.mem_append, List.mem_singleton] at hp
      rcases hp with hp | rfl
      · exact hr.known x w hown pid hp
      · exact hd.submitted req (List.mem_append_left _ (by simp [hq]))

end Step

theorem chunks_init (w x : ℕ) : (State.init P db).chunks w x = [] := by
  simp [State.chunks, queuedChunks, chunksFor, State.init]

theorem replies_init : Replies P (State.init P db) where
  alone r hr := by
    rw [unfinished_init] at hr
    cases hr
  grouped x w _ := by
    rw [chunks_init]
    exact grouped_nil
  going r hr := by
    rw [unfinished_init] at hr
    cases hr
  waiting _ hr := by cases hr
  known x w _ _ hp := by
    rw [chunks_init] at hp
    cases hp

theorem replies_of_run (h : RunTo P db (OneStream P) s) : Replies P s := by
  refine h.invariant_reach (Replies P) replies_init fun l s s' hrun hC hr hs => ?_
  have hwf := wf_of_run hrun
  have ht := traced_of_run hrun
  have hm := move_of_step hwf hs
  have hd := distinct_of_run hrun
  have hown := hwf.owner_eq (wf_move hwf hm)
  exact ⟨replies_alone hC hm hr, fun x w hw => replies_grouped hwf ht hm hr x w (hown x ▸ hw),
    fun r hu w hw => replies_going hwf ht hC hm hr r hu w (hown _ ▸ hw),
    fun r hp w hw => replies_waiting hwf ht (fifo_of_run hrun) hd hm hr r hp w (hown _ ▸ hw),
    fun x w hw => replies_known hwf ht hd hm hr x w (hown x ▸ hw)⟩

/-- What a connection has been sent was sent for its context. -/
theorem sentChunks_sublist (h : RunTo P db C s) {d : Conn} (hd : s.net.conns c = some d) :
    (sentChunks c s.log).Sublist (chunksFor d.ctx s.log) := by
  refine List.Sublist.reverse ?_
  have hctx : ∀ f v, .appended c f v ∈ s.log → f.ctx = d.ctx := by
    intro f v ha
    obtain ⟨⟨d', hd', hx⟩, -⟩ := appended_ctx h c f v ha
    obtain rfl := Option.some.inj (hd.symm.trans hd')
    exact hx.symm
  generalize s.log = log at hctx ⊢
  induction log with
  | nil => exact List.Sublist.refl _
  | cons e log ih =>
      have ih := ih fun f v ha => hctx f v (List.mem_cons_of_mem _ ha)
      cases e with
      | appended c' f v =>
          by_cases hc : c' = c
          · subst hc
            have hx := hctx f v List.mem_cons_self
            simp only [List.filterMap_cons, if_pos, Frame.replyTo, hx]
            cases f.reply with
            | none => exact ih
            | some pid => exact ih.cons_cons pid
          · simp only [List.filterMap_cons, if_neg hc]
            cases f.replyTo d.ctx with
            | none => exact ih
            | some pid => exact ih.cons pid
      | _ => exact ih

/-- **One reply at a time.** In a run in which the scheduler takes a request only while no other request
with its context is unfinished, no two threads are at work on requests of one connection, and the chunks
that a connection is sent, whoever asked for them, never go back and forth between two replies. -/
theorem one_reply_at_a_time (h : RunTo P db (OneStream P) s) :
    (∀ i j req req', s.running i = some req → s.running j = some req' →
      req.origin.conn = req'.origin.conn → i = j) ∧ ∀ c, Grouped (sentChunks c s.log) := by
  have hr := replies_of_run h
  have ht := traced_of_run h
  refine ⟨fun i j req req' hi hj he => ?_, fun c => ?_⟩
  · have hm : req ∈ s.unfinished P := (mem_unfinished ht).mpr (.inr (.inr ⟨i, hi⟩))
    have hm' : req' ∈ s.unfinished P := (mem_unfinished ht).mpr (.inr (.inr ⟨j, hj⟩))
    have hx : req.origin.ctx = req'.origin.ctx := by
      obtain ⟨d, hd, hx⟩ := ht.conn_of_received (ht.received_unfinished hm)
      obtain ⟨d', hd', hx'⟩ := ht.conn_of_received (ht.received_unfinished hm')
      obtain rfl : d = d' := Option.some.inj (hd.symm.trans (he ▸ hd'))
      exact hx.symm.trans hx'
    obtain rfl := hr.alone req hm req' hm' hx
    exact running_inj ht (distinct_of_run h) hi hj rfl
  · by_cases hnil : sentChunks c s.log = []
    · rw [hnil]
      exact grouped_nil
    · obtain ⟨pid, hp⟩ := List.exists_mem_of_ne_nil _ hnil
      obtain ⟨e, he, hf⟩ := List.mem_filterMap.mp (List.mem_reverse.mp hp)
      split at hf
      · split_ifs at hf with hc
        subst hc
        obtain ⟨⟨d, hd, hx⟩, w, hown⟩ := appended_ctx h _ _ _ he
        refine (hr.grouped d.ctx w (hx ▸ hown)).sublist ?_
        exact (sentChunks_sublist h hd).trans (List.sublist_append_left _ _)
      · cases hf

set_option maxRecDepth 2000 in
/-- A client asks the AI user something, is answered, and asks again. -/
theorem one_reply_at_a_time_sample : ∃ s, RunTo Sample.params Sample.db (OneStream Sample.params) s ∧
    sentChunks 0 s.log = [0, 1] ∧ Grouped (sentChunks 0 s.log) := by
  obtain ⟨s, hr, hs⟩ := Sample.exists_run (OneStream Sample.params)
    (Sample.connect 5 ++ Sample.ask 0 0 ++ Sample.serve 0 8 ++ Sample.ask 0 0 ++ Sample.serve 0 8 ++
      [.swap 0, .functor 0, .functor 0])
    (fun s => sentChunks 0 s.log = [0, 1]) ⟨_, rfl, by decide⟩
  exact ⟨s, hr, hs, (one_reply_at_a_time hr).2 0⟩

/-- A client asks the AI user two things before the scheduler runs. Both streams are at work at the same
time, and a chunk of the second reply comes between two chunks of the first. -/
theorem two_streams : ∃ s, RunTo Sample.params Sample.db (fun _ _ => True) s ∧
    (∃ i j req req', i ≠ j ∧ s.running i = some req ∧ s.running j = some req' ∧
      req.origin.conn = req'.origin.conn ∧ s.isOpen req.origin.conn = true) ∧
    ∃ c, s.isOpen c = true ∧ ¬ Grouped (sentChunks c s.log) := by
  obtain ⟨s, hr, ⟨req, h₀, req', h₁, hc, ho⟩, ho', hs⟩ := Sample.exists_run (fun _ _ => True)
    (Sample.connect 5 ++ Sample.ask 0 0 ++ Sample.ask 0 0 ++
      [.schedule 0, .dispatch, .schedule 0, .dispatch,
        .dequeue 0 { chunks := [([65], true), ([66], true)] },
        .dequeue 1 { chunks := [([67], true)] }] ++
      List.replicate 6 (.thread 0 {}) ++ List.replicate 6 (.thread 1 {}) ++
      List.replicate 4 (.thread 0 {}) ++ [.swap 0, .functor 0, .functor 0, .functor 0])
    (fun s => (∃ req ∈ s.running 0, ∃ req' ∈ s.running 1, req.origin.conn = req'.origin.conn ∧
      s.isOpen req.origin.conn = true) ∧ s.isOpen 0 = true ∧ sentChunks 0 s.log = [0, 1, 0])
    ⟨_, rfl, by decide⟩
  refine ⟨s, hr, ⟨0, 1, req, req', by decide, h₀, h₁, hc, ho⟩, 0, ho', fun hg => ?_⟩
  rw [hs] at hg
  exact absurd (hg 0 1 (List.Sublist.refl _)) (by decide)

end AuraChat
