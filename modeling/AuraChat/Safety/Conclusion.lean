import AuraChat.Llama.Chunks
import AuraChat.Safety.Service

set_option autoImplicit false

/-!
# Every AI message is concluded

A request that the AI manager has accepted waits, streams, or is over. While its connection is open it ends
with one reply: numbered frames, the last of which is flagged, with the text that the language model has
delivered for this request, the fallback text, or the notice that it has waited too long.

* `Call.own`, `processStreamRequest_own`: a stream looks at no other context;
* `AiBook`: the server with the transfers that its streams have been given;
* `Whole`, `whole_of_stream`, `whole_expired`: complete replies;
* `AiStage`, **`accepted_of_book`**: how far a request has come, and what it has queued;
* **`streams_concluded`**: when the server is idle, the replies have been sent.
-/

namespace AuraChat

open Interleave Interleave.Prog

variable {P : Params} {db : Store} {C : Label → State → Prop} {s s' : State} {l : Label}

/-! ## What a stream looks at -/

/-- The call looks at no context but `x`. -/
def Call.own (x : ℕ) : Call → Prop
  | .loadFd y | .ownerWorker y => y = x
  | _ => True

section Own

variable {req : StreamRequest} {h : List (Event Reply)}

theorem sendStreamChunk_own (chunk : Bytes) (isLast : Bool) (streamSeq : Int)
    {Q : List (Event Reply) → Unit → Prop} (hQ : ∀ h, Q h ()) :
    Sat (fun _ a => a.own req.origin.ctx) h (sendStreamChunk P req chunk isLast streamSeq) Q := by
  simp only [sendStreamChunk, call, sat_bind, sat_perform, Call.own, true_and]
  intro w
  split_ifs
  · exact hQ _
  · exact hQ _
  · simp only [sat_bind, sat_perform, true_and]
    exact fun _ _ => hQ _

theorem onChunks_own (chunks : List (Bytes × Bool)) (b : StreamBuf)
    {Q : List (Event Reply) → StreamBuf → Prop} (hQ : ∀ h b, Q h b) :
    Sat (fun _ a => a.own req.origin.ctx) h (onChunks P req chunks b) Q := by
  induction chunks generalizing h b with
  | nil => exact hQ _ _
  | cons c rest ih =>
      obtain ⟨chunk, late⟩ := c
      simp only [onChunks, call, sat_bind, sat_perform, Call.own, true_and]
      intro fd
      split_ifs
      · exact ih _
      · rw [sat_bind]
        exact sendStreamChunk_own _ _ _ fun _ => ih _
      · exact ih _

theorem onComplete_own (b : StreamBuf) {Q : List (Event Reply) → StreamBuf → Prop} (hQ : ∀ h b, Q h b) :
    Sat (fun _ a => a.own req.origin.ctx) h (onComplete P req b) Q := by
  simp only [onComplete, call, sat_bind, sat_perform, Call.own, true_and]
  intro fd
  split_ifs
  · exact hQ _ _
  · rw [sat_bind]
    exact sendStreamChunk_own _ _ _ fun _ => hQ _ _

theorem sendPieces_own (ps : List Bytes) (streamSeq : Int) {Q : List (Event Reply) → Unit → Prop}
    (hQ : ∀ h, Q h ()) : Sat (fun _ a => a.own req.origin.ctx) h (sendPieces P req ps streamSeq) Q := by
  induction ps generalizing h streamSeq with
  | nil => exact hQ _
  | cons p rest ih =>
      simp only [sendPieces, call, sat_bind, sat_perform, Call.own, true_and]
      intro fd
      split_ifs
      · rw [sat_bind]
        exact sendStreamChunk_own _ _ _ fun _ => ih _
      · exact ih _

/-- **A stream looks at the context of its request only.** -/
theorem processStreamRequest_own (script : Script) :
    Sat (fun _ a => a.own req.origin.ctx) [] (processStreamRequest P req script) fun _ _ => True := by
  have ends : ∀ h : List (Event Reply), Sat (fun _ a => a.own req.origin.ctx) h
      (call (.eraseStream req.origin.ctx)) fun _ _ => True := by
    intro h
    simp only [call, sat_perform, Call.own, true_and, implies_true]
  have fin : ∀ (h : List (Event Reply)) (b : StreamBuf), Sat (fun _ a => a.own req.origin.ctx) h (do
      if script.success = false ∧ b.connLost = false then
        sendPieces P req (pieces (generateFallbackResponse req.prompt script.localTime)) b.streamSeq
      call (.eraseStream req.origin.ctx)) fun _ _ => True := by
    intro h b
    split_ifs
    · rw [sat_bind]
      exact sendPieces_own _ _ ends
    · exact ends h
  simp only [processStreamRequest, call, sat_bind, sat_perform, Call.own, true_and]
  intro fd
  split_ifs with hfd hs
  · exact ends _
  all_goals
    simp only [sat_bind, sat_perform, true_and]
    intro k
    refine onChunks_own _ _ fun h b => ?_
  · exact onComplete_own _ fin
  · exact fin h b

end Own

/-! ## Transfers -/

/-- The transfer from the language model that a step gives to a request: a thread starts its stream. -/
def State.gives (s : State) : Label → Option (StreamRequest × Script)
  | .dequeue _ script => match s.tasks with
      | .stream req :: _ => some (req, script)
      | _ => none
  | _ => none

/-- The server, with the transfers that its streams have been given. -/
structure AiBook where
  server : State
  given : List (StreamRequest × Script) := []

namespace AiBook

def step (P : Params) (l : Label) (b : AiBook) : Option AiBook :=
  (AuraChat.step P l b.server).map fun s => ⟨s, (b.server.gives l).toList ++ b.given⟩

/-- The states that a run reaches, from a start on the store `db`. -/
abbrev RunTo (P : Params) (db : Store) (C : Label → State → Prop) (b : AiBook) : Prop :=
  Reach (step P) (fun l b => C l b.server) { server := State.init P db } b

end AiBook

/-- The transfers that a request has been given. -/
def transfers (req : StreamRequest) (given : List (StreamRequest × Script)) : List Script :=
  (given.filter fun p => p.1 = req).map Prod.snd

theorem run_of_aiBook {b : AiBook} (h : AiBook.RunTo P db C b) : RunTo P db C b.server := by
  refine h.map AiBook.server fun l b b' hc hs => ?_
  obtain ⟨s', hs', rfl⟩ := Option.map_eq_some_iff.mp hs
  exact .tail .refl hc hs'

/-- Every run of the server can be booked. -/
theorem exists_aiBook (h : RunTo P db C s) : ∃ b, AiBook.RunTo P db C b ∧ b.server = s :=
  h.invariant (fun s => ∃ b, AiBook.RunTo P db C b ∧ b.server = s) ⟨_, .refl, rfl⟩ fun l s s' hc hb hs => by
    obtain ⟨b, hr, rfl⟩ := hb
    exact ⟨_, hr.tail (l := l) hc (by rw [AiBook.step, hs]; rfl), rfl⟩

theorem transfers_other {req : StreamRequest} {given : List (StreamRequest × Script)}
    (hno : ∀ script, s.gives l ≠ some (req, script)) :
    transfers req ((s.gives l).toList ++ given) = transfers req given := by
  rw [transfers, List.filter_append, List.filter_eq_nil_iff.mpr, List.nil_append, transfers]
  rintro ⟨r, script⟩ hm he
  obtain rfl : r = req := of_decide_eq_true he
  exact hno script (Option.mem_toList.mp hm)

theorem transfers_given {req : StreamRequest} {script : Script} {given : List (StreamRequest × Script)}
    (hg : s.gives l = some (req, script)) :
    transfers req ((s.gives l).toList ++ given) = script :: transfers req given := by
  simp [transfers, hg]

theorem gives_head {req : StreamRequest} {script : Script} (hg : s.gives l = some (req, script)) :
    ∃ rest, s.tasks = .stream req :: rest := by
  cases l with
  | dequeue i sc =>
      simp only [State.gives] at hg
      split at hg
      · rename_i r rest hq
        obtain ⟨rfl, -⟩ := Prod.mk.inj (Option.some.inj hg)
        exact ⟨rest, hq⟩
      · cases hg
  | _ => cases hg

/-! ## Complete replies -/

/-- The texts that a request may be replied to with, by the transfers that it has been given: what the language
model delivered, the fallback text after what was flushed of a failed transfer, or, without a transfer, the
notice that it has waited too long. -/
inductive ReplyText (req : StreamRequest) : List Script → Bytes → Prop
  | model (script : Script) (hs : script.success = true) :
      ReplyText req [script] (script.chunks.map Prod.fst).flatten
  | fallback (script : Script) (hs : script.success = false) :
      ReplyText req [script]
        ((flushed [] script.chunks).flatten ++ generateFallbackResponse req.prompt script.localTime)
  | late : ReplyText req [] (bytes "AI服务排队超时，请稍后再试")

/-- **A complete reply**: frames numbered from 0 without a gap, the last one flagged and no other, with the
text of the transfer. -/
def Whole (P : Params) (req : StreamRequest) (scripts : List Script) (bodies : List Bytes) : Prop :=
  ∃ fs : List StreamFrame, List.Forall₂
      (fun f body => ∃ now : Int, body = P.codec.serializeChatMessage (f.message req.uid now)) fs bodies ∧
    Numbered 0 fs ∧ Delimited fs ∧ ReplyText req scripts (contents fs)

theorem whole_expired (req : StreamRequest) (now : Int) : Whole P req [] [(expiredFrame P req now).body] :=
  ⟨[⟨bytes "AI服务排队超时，请稍后再试", true, 0⟩], .cons ⟨now, rfl⟩ .nil, numbered_cons.mpr ⟨rfl, numbered_nil _⟩,
    ⟨[], _, rfl, rfl, fun _ hf => absurd hf List.not_mem_nil⟩, by
      simpa [contents] using ReplyText.late⟩

/-- A stream that has run to its end while its connection was open has sent a complete reply. -/
theorem whole_of_stream {req : StreamRequest} {script : Script} {h : List (Event Reply)}
    (hp : Path (processStreamRequest P req script) h (.ret ())) (ho : StaysOpen h) :
    Whole P req [script] (chatBodies h) := by
  obtain ⟨fs, hf, hnum, hdel, htext⟩ := stream_frames hp ho
  refine ⟨fs, hf.imp fun _ _ ⟨now, _, e⟩ => ⟨now, e⟩, hnum, hdel, ?_⟩
  rw [htext]
  split_ifs with hs
  · exact .model script hs
  · exact .fallback script (eq_false_of_ne_true hs)

/-! ## How far a request has come -/

/-- The frame is a chunk of the reply to the packet `o`. -/
def Frame.chunkFor (o : Origin) (f : Frame) : Bool :=
  decide (f.origin = o ∧ f.ctx = o.ctx ∧ f.why = .chunk)

theorem bound_chunkFor (o : Origin) : Bound o (Frame.chunkFor o) := by
  intro f hf
  obtain ⟨ho, hx, -⟩ := of_decide_eq_true hf
  exact ⟨ho, hx⟩

/-- The chunks queued in reply to a packet, oldest first. -/
def chunksQueued (o : Origin) (log : List Entry) : List Bytes :=
  ((frames log).reverse.filter (Frame.chunkFor o)).map Frame.body

/-- The chunks appended to the send buffer of its connection, oldest first. -/
def chunksSent (o : Origin) (log : List Entry) : List Bytes :=
  ((acceptedFrames o.conn log).filter (Frame.chunkFor o)).map Frame.body

/-- The request waits: for the scheduler, in its hands, or on the pool. -/
def State.holds (s : State) (req : StreamRequest) : Prop :=
  req ∈ s.ai.pending ∨ s.ai.handoff = some req ∨ .stream req ∈ s.tasks

/-- **How far an accepted request has come**, the transfers that it has been given, and what has been queued in
reply to it. -/
inductive AiStage (P : Params) (s : State) (req : StreamRequest) : List Script → Prop
  | waits (hm : s.holds req) (hn : chunksQueued req.origin s.log = []) : AiStage P s req []
  | streams (i : ℕ) (t : Thread) (a : Call) (k : Reply a → Prog Reply Unit) (hi : s.threads i = some t)
      (ht : t.task = .stream req) (hp : t.prog = .call a k) (ho : StaysOpen t.hist)
      (hn : chunksQueued req.origin s.log = chatBodies t.hist) : AiStage P s req [t.script]
  | ended (scripts : List Script) (hw : Whole P req scripts (chunksQueued req.origin s.log))
      (hgone : ∀ r ∈ s.ai.pending ++ s.unfinished P, r.origin.pid ≠ req.origin.pid) :
      AiStage P s req scripts

/-- The step is taken for a request with the number `pid`. -/
def State.serves (s : State) (pid : ℕ) (l : Label) : Prop :=
  (∃ i e r, l = .thread i e ∧ s.running i = some r ∧ r.origin.pid = pid) ∨
  ∃ now r rest, l = .schedule now ∧ s.ai.pending = r :: rest ∧ r.origin.pid = pid

/-- A chunk is queued by a step for its request. -/
theorem serves_of_chunk (ht : Traced P s) {f : Frame} (hf : f ∈ s.queues P l) (hc : f.why = .chunk) :
    s.serves f.origin.pid l := by
  rcases List.mem_append.mp hf with hf | hf
  · split at hf
    · rename_i o a hn
      cases a with
      | queueSendPacket x cmd seq body why =>
          obtain rfl := List.mem_singleton.mp hf
          obtain rfl : why = .chunk := hc
          obtain ⟨i, e, t, k, rfl, hi, rfl, hp⟩ := next_cases hn
          obtain ⟨req, htask⟩ := ht.stream_of_call hi hp rfl (by simp)
          exact .inl ⟨i, e, req, rfl, running_eq_some.mpr ⟨t, _, k, hi, htask, hp⟩, by rw [htask]; rfl⟩
      | _ => cases hf
    · cases hf
  · cases l with
    | schedule now =>
        simp only [State.expires] at hf
        split at hf
        · rename_i req rest hq
          split_ifs at hf
          · rw [List.mem_singleton.mp hf]
            exact .inr ⟨now, req, rest, rfl, hq, rfl⟩
          · cases hf
        · cases hf
    | _ => cases hf

theorem chunksQueued_other (hwf : s.net.WF P) (ht : Traced P s) (hs : step P l s = some s') {o : Origin}
    (hno : ¬ s.serves o.pid l) : chunksQueued o s'.log = chunksQueued o s.log := by
  have hnil : (s.queues P l).reverse.filter (Frame.chunkFor o) = [] := by
    refine List.filter_eq_nil_iff.mpr fun f hf hc => hno ?_
    obtain ⟨rfl, -, hwhy⟩ := of_decide_eq_true hc
    exact serves_of_chunk ht (List.mem_reverse.mp hf) hwhy
  rw [chunksQueued, frames_step hwf hs, List.reverse_append, List.filter_append, hnil, List.append_nil,
    chunksQueued]

theorem Distinct.eq_of_pid (hd : Distinct P s) {r r' : StreamRequest} (hr : r ∈ s.ai.pending ++ s.unfinished P)
    (hr' : r' ∈ s.ai.pending ++ s.unfinished P) (he : r.origin.pid = r'.origin.pid) : r = r' :=
  List.inj_on_of_nodup_map hd.nodup hr hr' he

theorem holds_mem (ht : Traced P s) {req : StreamRequest} (hm : s.holds req) :
    req ∈ s.ai.pending ++ s.unfinished P := by
  rw [List.mem_append, mem_unfinished ht]
  rcases hm with hm | hm | hm
  · exact .inl hm
  · exact .inr (.inl hm)
  · exact .inr (.inr (.inl hm))

theorem running_mem (ht : Traced P s) {i : ℕ} {req : StreamRequest} (hi : s.running i = some req) :
    req ∈ s.ai.pending ++ s.unfinished P :=
  List.mem_append_right _ ((mem_unfinished ht).mpr (.inr (.inr ⟨i, hi⟩)))

theorem Distinct.not_holds (ht : Traced P s) (hd : Distinct P s) {i : ℕ} {req : StreamRequest}
    (hi : s.running i = some req) : ¬ s.holds req := by
  have hlt : i < P.poolThreads := by
    obtain ⟨t, -, -, hth, -⟩ := running_eq_some.mp hi
    exact ht.lt i t hth
  have hrun : req ∈ (List.range P.poolThreads).filterMap s.running :=
    List.mem_filterMap.mpr ⟨i, List.mem_range.mpr hlt, hi⟩
  have hnd : (s.ai.pending ++ s.unfinished P).Nodup := List.Nodup.of_map _ hd.nodup
  rw [State.unfinished, ← List.append_assoc] at hnd
  have hdisj := List.disjoint_of_nodup_append hnd
  rintro (hm | hm | hm)
  · exact hdisj (List.mem_append_left _ hm) hrun
  · exact hdisj (List.mem_append_right _ (List.mem_append_left _ (hm ▸ Option.mem_toList.mpr rfl))) hrun
  · exact hdisj (List.mem_append_right _ (List.mem_append_right _ (mem_requests.mpr hm))) hrun

/-! ## What a step does with a request -/

section Steps

variable {req : StreamRequest}

theorem serves_mem (ht : Traced P s) {pid : ℕ} (h : s.serves pid l) :
    ∃ r ∈ s.ai.pending ++ s.unfinished P, r.origin.pid = pid := by
  rcases h with ⟨i, e, r, -, hi, hpid⟩ | ⟨now, r, rest, -, hq, hpid⟩
  · exact ⟨r, running_mem ht hi, hpid⟩
  · exact ⟨r, List.mem_append_left _ (hq ▸ List.mem_cons_self), hpid⟩

theorem effect_ai {o : Origin} {a : Call} (h : Effect P o s a s') :
    (∀ r ∈ s.ai.pending, r ∈ s'.ai.pending) ∧ s'.ai.handoff = s.ai.handoff := by
  cases h with
  | ai _ ai' h =>
      rcases h with ⟨fd, r, -, rfl⟩ | ⟨-, rfl⟩ | ⟨x, -, rfl⟩
      · refine ⟨fun r' hr => ?_, (enqueue_rest s.ai fd r).1⟩
        simp only [AIManager.enqueue]
        split_ifs
        · exact hr
        · exact hr
        · exact List.mem_append_left _ hr
      · exact ⟨fun _ hr => hr, rfl⟩
      · obtain ⟨hp, hh, -⟩ := eraseStream_rest s.ai (s.net.ctxs x).fd
        exact ⟨fun _ hr => hp ▸ hr, hh⟩
  | _ => exact ⟨fun _ hr => hr, rfl⟩

/-- A waiting request that neither the scheduler nor a thread takes goes on waiting. -/
theorem holds_step (hwf : s.net.WF P) (hs : step P l s = some s') (hroom : TasksHaveRoom l s)
    (hm : s.holds req) (hno : ∀ now rest, l = .schedule now → s.ai.pending ≠ req :: rest)
    (hng : ∀ script, s.gives l ≠ some (req, script)) : s'.holds req := by
  have h := move_of_step hwf hs
  rcases hm with hm | hm | hm
  · -- the scheduler takes the one before it
    have later : ∀ {r : StreamRequest} {rest : List StreamRequest} {now : Int}, l = .schedule now →
        s.ai.pending = r :: rest → req ∈ rest := by
      intro r rest now hl hq
      rw [hq] at hm
      rcases List.mem_cons.mp hm with rfl | hm
      · exact absurd hq (hno now rest hl)
      · exact hm
    cases h with
    | expire r rest now w f hq hw ho hx hy => exact .inl (later rfl hq)
    | forget r rest now hq => exact .inl (later rfl hq)
    | activate r rest now hq hn hfd => exact .inl (later rfl hq)
    | call i e t a k r s₁ hi hp ha => exact .inl ((effect_ai (act_effect ha)).1 req hm)
    | _ => exact .inl hm
  · cases h with
    | expire | forget | activate => simp [step, hm] at hs
    | call i e t a k r s₁ hi hp ha => exact .inr (.inl ((effect_ai (act_effect ha)).2.trans hm))
    | dispatch r ts hh hts =>
        obtain rfl := Option.some.inj (hm.symm.trans hh)
        right
        right
        simp only [step, hh, State.enqueue, if_neg (Nat.not_lt.mpr hroom)] at hs
        rw [← congrArg State.tasks (Option.some.inj hs)]
        exact List.mem_append_right _ (List.mem_singleton_self _)
    | _ => exact .inr (.inl hm)
  · rcases move_tasks h with e | ⟨t, e⟩ | ⟨t, e, -⟩
    · exact .inr (.inr (e ▸ hm))
    · rw [e] at hm
      rcases List.mem_cons.mp hm with rfl | hm
      · obtain ⟨i, script, rfl, -⟩ := move_head h e
        exact absurd (by simp only [State.gives, e]) (hng script)
      · exact .inr (.inr hm)
    · exact .inr (.inr (e ▸ List.mem_append_left _ hm))

theorem gives_thread (h : Move P s l s') {script : Script} (hg : s.gives l = some (req, script)) :
    ∃ i, s'.threads i = some ⟨.stream req, script, [], Task.prog P script (.stream req)⟩ := by
  cases h with
  | dequeue i sc t rest hlt hi hq =>
      simp only [State.gives, hq] at hg
      cases t with
      | business => cases hg
      | stream r =>
          obtain ⟨rfl, rfl⟩ := Prod.mk.inj (Option.some.inj hg)
          exact ⟨i, Function.update_self ..⟩
  | _ => cases hg

/-- The scheduler takes the request of an open connection: it tells the client that the request has waited
too long, or it starts the stream. -/
theorem schedule_outcome {now : Int} {rest : List StreamRequest} (hs : step P (.schedule now) s = some s')
    (hq : s.ai.pending = req :: rest) (hfd : 0 ≤ (s.net.ctxs req.origin.ctx).fd)
    (hown : (s.net.ctxs req.origin.ctx).ownerWorker ≠ none) :
    (frames s'.log = expiredFrame P req now :: frames s.log ∧ s'.ai.pending = rest ∧
      s'.unfinished P = s.unfinished P) ∨
    (s'.ai.handoff = some req ∧ frames s'.log = frames s.log) := by
  obtain ⟨w, hw⟩ := Option.ne_none_iff_exists'.mp hown
  simp only [step, hq] at hs
  split at hs
  · rename_i req' rest' hh e
    obtain ⟨rfl, rfl⟩ := List.cons.inj e
    split_ifs at hs with hslots
    obtain rfl := Option.some.inj hs
    by_cases hold : 30 < now - req.timestamp
    · left
      simp only [State.schedule, if_pos hold, State.sendError, hw]
      exact ⟨rfl, rfl, rfl⟩
    · right
      simp only [State.schedule, if_neg hold, if_neg (Int.not_lt.mpr hfd)]
      exact ⟨rfl, trivial⟩
  · cases hs

theorem gives_holds {script : Script} (hg : s.gives l = some (req, script)) : s.holds req := by
  obtain ⟨rest, hq⟩ := gives_head hg
  exact .inr (.inr (hq ▸ List.mem_cons_self))

theorem aiStage_over (hwf : s.net.WF P) (ht : Traced P s) (hf : Fifo s) (hd : Distinct P s)
    (hs : step P l s = some s') (hsub : Submitted s req.origin.pid) {given : List (StreamRequest × Script)}
    (hw : Whole P req (transfers req given) (chunksQueued req.origin s.log))
    (hgone : ∀ r ∈ s.ai.pending ++ s.unfinished P, r.origin.pid ≠ req.origin.pid) :
    AiStage P s' req (transfers req ((s.gives l).toList ++ given)) := by
  have h := move_of_step hwf hs
  rw [transfers_other fun script hg => hgone req (holds_mem ht (gives_holds hg)) rfl]
  refine .ended _ ?_ fun r hr he => ?_
  · rwa [chunksQueued_other hwf ht hs]
    intro hserves
    obtain ⟨r, hr, he⟩ := serves_mem ht hserves
    exact hgone r hr he
  · rcases carried_back h hr with hr | ⟨o, fd, hn⟩
    · exact hgone r hr he
    · exact (submit_fresh ht hf hd h hn).1 (he ▸ hsub)

theorem aiStage_waits (hwf : s.net.WF P) (ht : Traced P s) (hd : Distinct P s)
    (hs : step P l s = some s') (hroom : TasksHaveRoom l s)
    (hfd : 0 ≤ (s.net.ctxs req.origin.ctx).fd) (hown : (s.net.ctxs req.origin.ctx).ownerWorker ≠ none)
    {given : List (StreamRequest × Script)} (hnone : transfers req given = [])
    (hm : s.holds req) (hn : chunksQueued req.origin s.log = []) :
    AiStage P s' req (transfers req ((s.gives l).toList ++ given)) := by
  by_cases hgives : ∃ script, s.gives l = some (req, script)
  -- a thread starts on it
  · obtain ⟨script, hg⟩ := hgives
    obtain ⟨i, hi⟩ := gives_thread (move_of_step hwf hs) hg
    rw [transfers_given hg, hnone]
    refine .streams i _ _ _ hi rfl rfl (fun _ he => by cases he) ?_
    rw [chunksQueued_other hwf ht hs, hn]
    · rfl
    rintro (⟨j, e, r, rfl, -⟩ | ⟨now, r, rest, rfl, -⟩) <;> cases hg
  rw [not_exists] at hgives
  rw [transfers_other hgives, hnone]
  by_cases htaken : ∃ now rest, l = .schedule now ∧ s.ai.pending = req :: rest
  · obtain ⟨now, rest, rfl, hq⟩ := htaken
    rcases schedule_outcome hs hq hfd hown with ⟨hfr, hp, hu⟩ | ⟨hh, hfr⟩
    · refine .ended [] ?_ fun r hr => ?_
      · have hmine : (expiredFrame P req now).chunkFor req.origin = true := decide_eq_true ⟨rfl, rfl, rfl⟩
        have hchunks : chunksQueued req.origin s'.log =
            chunksQueued req.origin s.log ++ [(expiredFrame P req now).body] := by
          rw [chunksQueued, hfr, List.reverse_cons, List.filter_append, List.map_append, chunksQueued]
          simp [hmine]
        rw [hchunks, hn]
        exact whole_expired req now
      · have hnd := hd.nodup
        rw [hq, List.cons_append, List.map_cons, List.nodup_cons] at hnd
        rw [hp, hu] at hr
        exact fun he => hnd.1 (he ▸ List.mem_map_of_mem hr)
    · refine .waits (.inr (.inl hh)) ?_
      rw [chunksQueued, hfr]
      exact hn
  · push Not at htaken
    refine .waits (holds_step hwf hs hroom hm htaken hgives) ?_
    rw [chunksQueued_other hwf ht hs, hn]
    rintro (⟨i, e, r, rfl, hi, he⟩ | ⟨now, r, rest, rfl, hq, he⟩)
    · obtain rfl := hd.eq_of_pid (running_mem ht hi) (holds_mem ht hm) he
      exact hd.not_holds ht hi hm
    · obtain rfl := hd.eq_of_pid (List.mem_append_left _ (hq ▸ List.mem_cons_self)) (holds_mem ht hm) he
      exact htaken now rest rfl hq

theorem stillOpen_of_act {a : Call} {e : Ext} {r : Reply a} {s₁ : State} (ha : a.own req.origin.ctx)
    (hfd : 0 ≤ (s.net.ctxs req.origin.ctx).fd) (hown : (s.net.ctxs req.origin.ctx).ownerWorker ≠ none)
    (hact : act P req.origin a e s = some (r, s₁)) : stillOpen ⟨a, r⟩ = true := by
  cases a with
  | loadFd x =>
      obtain rfl : x = req.origin.ctx := ha
      obtain ⟨rfl, -⟩ := Prod.mk.inj (Option.some.inj hact)
      exact decide_eq_true hfd
  | ownerWorker x =>
      obtain rfl : x = req.origin.ctx := ha
      obtain ⟨rfl, -⟩ := Prod.mk.inj (Option.some.inj hact)
      exact Option.isSome_iff_ne_none.mpr hown
  | _ => rfl

theorem chunks_of_call {a : Call} {h : List (Event Reply)} (hof : a.ofStream req)
    (hb : Backed P (.stream req) h a) (r : Reply a) :
    ((a.frame req.origin).reverse.filter (Frame.chunkFor req.origin)).map Frame.body =
      chatBodies [⟨a, r⟩] := by
  cases a with
  | queueSendPacket x cmd seq body why =>
      obtain ⟨rfl, -, rfl, -⟩ := hb
      obtain rfl : x = req.origin.ctx := hof
      simp [Call.frame, Frame.chunkFor, chatBodies]
  | _ => rfl

theorem erased_gone (ht' : Traced P s') (ht : Traced P s) (hd : Distinct P s) {i : ℕ}
    (hrun : s.running i = some req) {e : Ext} {r : Unit} {s₁ : State} {t : Thread} {log : List Entry}
    (ha : act P req.origin (.eraseStream req.origin.ctx) e s = some (r, s₁))
    (hs' : s' = { s₁ with
      threads := Function.update s₁.threads i (some t)
      log := log }) (hp : t.prog = .ret ()) : req ∉ s'.ai.pending ++ s'.unfinished P := by
  obtain ⟨-, rfl⟩ := Prod.mk.inj (Option.some.inj ha)
  obtain ⟨hpend, hhand, -⟩ := eraseStream_rest s.ai (s.net.ctxs req.origin.ctx).fd
  have hwaits := hd.not_holds ht hrun
  rw [List.mem_append, mem_unfinished ht']
  subst hs'
  rintro (hr | hr | hr | ⟨j, hr⟩)
  · exact hwaits (.inl (hpend ▸ hr))
  · exact hwaits (.inr (.inl (hhand ▸ hr)))
  · exact hwaits (.inr (.inr hr))
  · obtain ⟨t', a, k, hj, htask, hcall⟩ := running_eq_some.mp hr
    simp only [Function.update_apply] at hj
    split_ifs at hj with hji
    · obtain rfl := Option.some.inj hj
      rw [hp] at hcall
      cases hcall
    · exact hji (running_inj ht hd (running_eq_some.mpr ⟨t', a, k, hj, htask, hcall⟩) hrun rfl)

theorem aiStage_streams (hwf : s.net.WF P) (ht : Traced P s) (hd : Distinct P s)
    (hs : step P l s = some s') (hfd : 0 ≤ (s.net.ctxs req.origin.ctx).fd)
    (hown : (s.net.ctxs req.origin.ctx).ownerWorker ≠ none) {i : ℕ} {t : Thread} {a : Call}
    {k : Reply a → Prog Reply Unit} (hi : s.threads i = some t) (htask : t.task = .stream req)
    (hp : t.prog = .call a k) (ho : StaysOpen t.hist)
    (hn : chunksQueued req.origin s.log = chatBodies t.hist) {given : List (StreamRequest × Script)}
    (hgiven : transfers req given = [t.script]) :
    AiStage P s' req (transfers req ((s.gives l).toList ++ given)) := by
  have h := move_of_step hwf hs
  have hrun : s.running i = some req := running_eq_some.mpr ⟨t, a, k, hi, htask, hp⟩
  rw [transfers_other fun script hg => hd.not_holds ht hrun (gives_holds hg), hgiven]
  by_cases hl : ∃ e, l = .thread i e
  · obtain ⟨e, rfl⟩ := hl
    obtain ⟨r, s₁, ha, hs'⟩ := move_call h hi hp
    have hpath := ht.path i t hi
    rw [hp, htask] at hpath
    obtain ⟨hguard, hends⟩ := stream_call ht hi hp htask r
    have hbacked := ht.backed hi hp
    rw [htask] at ha hbacked
    have hopen : StaysOpen (t.hist ++ [⟨a, r⟩]) :=
      List.forall_mem_append.mpr ⟨ho, List.forall_mem_singleton.mpr
        (stillOpen_of_act (hpath.guard (processStreamRequest_own t.script)) hfd hown ha)⟩
    have hchunks : chunksQueued req.origin s'.log = chatBodies (t.hist ++ [⟨a, r⟩]) := by
      have hq : s.queues P (.thread i e) = a.frame req.origin ++ [] := by
        rw [State.queues, next_thread e hi hp, htask]
        rfl
      rw [chunksQueued, frames_step hwf hs, hq, List.append_nil, List.reverse_append, List.filter_append,
        List.map_append, chunks_of_call hguard.1 hbacked r, chatBodies_append]
      exact congrArg (· ++ _) hn
    have hthread : s'.threads i = some { t with hist := t.hist ++ [⟨a, r⟩], prog := k r } := by
      rw [hs']
      exact Function.update_self ..
    rcases hends with ⟨rfl, hk⟩ | ⟨-, b, k', hk⟩
    · -- the stream is over
      have hend := hpath.snoc r
      rw [hk] at hend
      refine .ended _ (by rw [hchunks]; exact whole_of_stream hend hopen) fun r' hr' he => ?_
      have hnext := next_thread e hi hp
      rcases carried_back h hr' with hold | ⟨o, fd, hn'⟩
      · obtain rfl := hd.eq_of_pid hold (running_mem ht hrun) he
        exact erased_gone (traced_move hwf ht h) ht hd hrun ha hs' hk hr'
      · rw [hnext] at hn'
        cases hn'
    · exact .streams i { t with hist := t.hist ++ [⟨a, r⟩], prog := k r } b k' hthread htask hk hopen hchunks
  · push Not at hl
    refine .streams i t a k (thread_kept h hi hl) htask hp ho ?_
    rw [chunksQueued_other hwf ht hs, hn]
    rintro (⟨j, e, r, rfl, hj, he⟩ | ⟨now, r, rest, rfl, hq, he⟩)
    · obtain rfl := running_inj ht hd hj hrun he
      exact hl e rfl
    · obtain rfl := hd.eq_of_pid (List.mem_append_left _ (hq ▸ List.mem_cons_self)) (running_mem ht hrun) he
      exact hd.not_holds ht hrun (.inl (hq ▸ List.mem_cons_self))

end Steps

/-! ## Every request is concluded -/

theorem submitted_of_chunk (h : RunTo P db C s) :
    ∀ f ∈ frames s.log, f.why = .chunk → Submitted s f.origin.pid := by
  refine h.invariant_reach (fun s => ∀ f ∈ frames s.log, f.why = .chunk → Submitted s f.origin.pid) nofun
    fun l s s' hr _ ih hs f hf hc => ?_
  have hwf := wf_of_run hr
  refine submitted_move ?_ (move_of_step hwf hs)
  rw [frames_step hwf hs, List.mem_append] at hf
  rcases hf with hf | hf
  · obtain ⟨r, hr', hpid⟩ := serves_mem (traced_of_run hr) (serves_of_chunk (traced_of_run hr) hf hc)
    exact hpid ▸ (distinct_of_run hr).submitted r hr'
  · exact ih f hf hc

theorem open_before (hwf : s.net.WF P) (ht : Traced P s) (h : Move P s l s') {o : Origin}
    (hr : Received s o) (ho : s'.isOpen o.conn = true) : s.isOpen o.conn = true := by
  rcases open_back hwf ht h ho with ⟨hopen, -⟩ | hnew
  · exact hopen
  · exact absurd rfl (hnew o (hr.mono (move_log h)))

/-- What is known of an accepted request. -/
structure Accepted (P : Params) (b : AiBook) (o : Origin) (req : StreamRequest) : Prop where
  origin : req.origin = o
  submitted : Submitted b.server o.pid
  stage : b.server.isOpen o.conn = true → AiStage P b.server req (transfers req b.given)

theorem given_submitted {b : AiBook} (h : AiBook.RunTo P db C b) :
    ∀ p ∈ b.given, Submitted b.server p.1.origin.pid := by
  refine h.invariant_reach (fun b => ∀ p ∈ b.given, Submitted b.server p.1.origin.pid) nofun
    fun l b b' hr _ ih hs p hp => ?_
  obtain ⟨s', hs', rfl⟩ := Option.map_eq_some_iff.mp hs
  have hrun := run_of_aiBook hr
  refine submitted_move ?_ (move_of_step (wf_of_run hrun) hs')
  rcases List.mem_append.mp hp with hp | hp
  · exact (distinct_of_run hrun).submitted _
      (holds_mem (traced_of_run hrun) (gives_holds (Option.mem_toList.mp hp)))
  · exact ih p hp

/-- A request that a step submits waits, and has been given nothing. -/
theorem accepted_new {b : AiBook} (hr : AiBook.RunTo P db C b) (hs : step P l b.server = some s') {o : Origin}
    {fd : Int} {req : StreamRequest} {i : ℕ} {e : Ext} {t : Thread} {k : Reply (.aiEnqueue fd req) → Prog Reply Unit}
    {s₁ : State} (hl : l = .thread i e) (hi : b.server.threads i = some t) (ho : t.task.origin = o)
    (hp : t.prog = .call (.aiEnqueue fd req) k)
    (ha : act P o (.aiEnqueue fd req) e b.server = some (true, s₁)) :
    Accepted P ⟨s', (b.server.gives l).toList ++ b.given⟩ o req := by
  have hrun := run_of_aiBook hr
  have hwf := wf_of_run hrun
  have ht := traced_of_run hrun
  have h := move_of_step hwf hs
  have hreq : req.origin = o := (ht.guard hi hp : req.origin = t.task.origin).trans ho
  subst hl
  have hn : b.server.next (.thread i e) = some (o, .aiEnqueue fd req) := ho ▸ next_thread e hi hp
  obtain ⟨hnew, hsub⟩ := submit_fresh ht (fifo_of_run hrun) (distinct_of_run hrun) h hn
  have hgiven : transfers req b.given = [] := by
    refine List.map_eq_nil_iff.mpr (List.filter_eq_nil_iff.mpr fun p hp' he => hnew ?_)
    have := given_submitted hr p hp'
    rwa [of_decide_eq_true he] at this
  refine ⟨hreq, hreq ▸ hsub, fun _ => ?_⟩
  show AiStage P s' req (transfers req ((b.server.gives (.thread i e)).toList ++ b.given))
  rw [transfers_other (fun script hg => by cases hg), hgiven]
  refine .waits (.inl ?_) ?_
  · obtain ⟨r, s₂, ha', rfl⟩ := move_call h hi hp
    rw [ho, ha, Option.some.injEq, Prod.mk.injEq] at ha'
    obtain ⟨-, rfl⟩ := ha'
    simp only [act, Option.some.injEq, Prod.mk.injEq] at ha
    obtain ⟨hyes, rfl⟩ := ha
    simp only [AIManager.enqueue] at hyes ⊢
    split_ifs at hyes ⊢
    exact List.mem_append_right _ (List.mem_singleton_self _)
  · have hq : b.server.queues P (.thread i e) = [] := by
      rw [State.queues, hn]
      rfl
    rw [chunksQueued, frames_step hwf hs, hq, List.nil_append]
    refine List.map_eq_nil_iff.mpr (List.filter_eq_nil_iff.mpr fun f hf hc => hnew ?_)
    obtain ⟨hfo, -, hwhy⟩ := of_decide_eq_true hc
    exact hfo ▸ submitted_of_chunk hrun f (List.mem_reverse.mp hf) hwhy

/-- **Every accepted request goes its way**, in a run in which the pools have room. -/
theorem accepted_of_book {b : AiBook} (h : AiBook.RunTo P db Roomy b) :
    ∀ o fd req, .did o ⟨.aiEnqueue fd req, true⟩ ∈ b.server.log → Accepted P b o req := by
  refine h.invariant_reach
    (fun b => ∀ o fd req, .did o ⟨.aiEnqueue fd req, true⟩ ∈ b.server.log → Accepted P b o req)
    (fun _ _ _ hd => by cases hd) fun l b b' hr hc ih hs o fd req hd => ?_
  obtain ⟨s', hs', rfl⟩ := Option.map_eq_some_iff.mp hs
  have hrun := run_of_aiBook hr
  have hwf := wf_of_run hrun
  have ht := traced_of_run hrun
  have hdis := distinct_of_run hrun
  have hm := move_of_step hwf hs'
  rcases move_did hm hd with hd | ⟨i, e, t, k, s₁, hl, hi, ho, hp, ha, -⟩
  · obtain ⟨rfl, hsub, hstage⟩ := ih o fd req hd
    refine ⟨rfl, submitted_move hsub hm, fun hopen => ?_⟩
    have hrec := received_of_did hrun _ _ hd
    have hbefore := open_before hwf ht hm hrec hopen
    obtain ⟨d, hdc, hph⟩ := isOpen_iff.mp hbefore
    obtain ⟨d', hd', hx⟩ := ht.conn_of_received hrec
    obtain rfl := Option.some.inj (hdc.symm.trans hd')
    have hfd : 0 ≤ (b.server.net.ctxs req.origin.ctx).fd := by
      rw [← hx, hwf.ctx_fd _ d hdc (Conn.holds_of_opened hph).live]
      exact hwf.fd_nonneg _ d hdc
    have hown : (b.server.net.ctxs req.origin.ctx).ownerWorker ≠ none := by
      have hpool := (pooled_of_run (hrun.mono fun _ _ hc => hc.1)).conn _ d hdc
      rw [← hx, (hwf.owner _ hpool).1]
      exact Option.some_ne_none _
    generalize hscripts : transfers req b.given = scripts at hstage
    cases hstage hbefore with
    | waits hw hn => exact aiStage_waits hwf ht hdis hs' hc.2 hfd hown hscripts hw hn
    | streams i t a k hi htask hp ho hn => exact aiStage_streams hwf ht hdis hs' hfd hown hi htask hp ho hn hscripts
    | ended _ hw hgone => exact aiStage_over hwf ht (fifo_of_run hrun) hdis hs' hsub (hscripts ▸ hw) hgone
  · exact accepted_new hr hs' hl hi ho hp ha

/-- **Every AI message is concluded.** In a run in which the pools have room and a new connection gets a
context that nothing is left to do for, when the server has nothing left to do and no request waits for the
AI, a message that the AI manager has accepted on a connection that is open has been replied to: one sequence
of frames has been appended to that connection for it, numbered from 0 without a gap, the last one flagged and
no other. Together they carry the text of the transfer that its stream was given, the fallback text where this
transfer has failed, or, where it was given none, the notice that it has waited too long. And all chunks that
were appended to the connection are such replies. -/
theorem streams_concluded (h : RunTo P db (fun l s => Roomy l s ∧ Unrecycled P l s) s) (hidle : Idle P s)
    (hnone : s.ai.pending = []) {c : ℕ} (hopen : s.isOpen c = true) :
    (∃ b, AiBook.RunTo P db (fun l s => Roomy l s ∧ Unrecycled P l s) b ∧ b.server = s) ∧
    ∀ b, AiBook.RunTo P db (fun l s => Roomy l s ∧ Unrecycled P l s) b → b.server = s →
      (∀ o fd req, .did o ⟨.aiEnqueue fd req, true⟩ ∈ s.log → o.conn = c →
        Whole P req (transfers req b.given) (chunksSent o s.log)) ∧
      ∀ f ∈ acceptedFrames c s.log, f.why = .chunk → f.origin.conn = c ∧ f.chunkFor f.origin = true ∧
        ∃ fd req, .did f.origin ⟨.aiEnqueue fd req, true⟩ ∈ s.log := by
  refine ⟨exists_aiBook h, fun b hb hbs => ?_⟩
  subst hbs
  refine ⟨fun o fd req ha hc => ?_, fun f hf hw => ?_⟩
  · subst hc
    obtain ⟨d, hd, hph⟩ := isOpen_iff.mp hopen
    have hx : d.ctx = o.ctx := by
      obtain ⟨d', hd', hx⟩ := (traced_of_run h).conn_of_received (received_of_did h o _ ha)
      exact Option.some.inj (hd.symm.trans hd') ▸ hx
    -- what was queued has got there
    have hsent : chunksQueued o b.server.log = chunksSent o b.server.log := by
      rcases carried_of_run h o d _ (bound_chunkFor o) hd hph hx with ⟨g, hg, -⟩ | he
      · rw [hidle.queue] at hg
        cases hg
      · rw [hidle.queue] at he
        rw [chunksQueued, he, chunksSent]
        exact congrArg _ (List.append_nil _)
    rw [← hsent]
    obtain ⟨rfl, -, hstage⟩ := accepted_of_book (hb.mono fun _ _ hc => hc.1) o fd req ha
    generalize transfers req b.given = scripts at hstage
    cases hstage hopen with
    | waits hm hn =>
        rcases hm with hm | hm | hm
        · rw [hnone] at hm
          cases hm
        · rw [hidle.handoff] at hm
          cases hm
        · rw [hidle.tasks] at hm
          cases hm
    | streams i t a k hi =>
        rw [hidle.threads i] at hi
        cases hi
    | ended _ hw hgone => exact hw
  · obtain ⟨uid, ha⟩ := mem_acceptedFrames hf
    obtain ⟨hx, fd, req, -, hd⟩ := chunk_asked h ha hw
    exact ⟨appended_own (h.mono fun _ _ hc => hc.2) ha hx, decide_eq_true ⟨rfl, hx, hw⟩, fd, req, hd⟩

/-- The requests that the AI manager has accepted. -/
def acceptedRequests (log : List Entry) : List (Origin × Int × StreamRequest) :=
  log.filterMap fun
    | .did o ⟨.aiEnqueue fd req, true⟩ => some (o, fd, req)
    | _ => none

theorem mem_acceptedRequests {log : List Entry} {o : Origin} {fd : Int} {req : StreamRequest}
    (h : (o, fd, req) ∈ acceptedRequests log) : .did o ⟨.aiEnqueue fd req, true⟩ ∈ log := by
  obtain ⟨e, he, heq⟩ := List.mem_filterMap.mp h
  split at heq
  · cases heq
    exact he
  · cases heq

/-- A client asks the AI user something, and the reply has been written. -/
theorem streams_concluded_sample : ∃ b o req,
    AiBook.RunTo Sample.params Sample.db (fun l s => Roomy l s ∧ Unrecycled Sample.params l s) b ∧
    transfers req b.given = [{ chunks := [([65], true)] }] ∧
    Whole Sample.params req [{ chunks := [([65], true)] }] (chunksSent o b.server.log) := by
  have hrun : ∃ b, AiBook.RunTo Sample.params Sample.db (fun l s => Roomy l s ∧ Unrecycled Sample.params l s) b ∧
      b.server.finished Sample.params ∧ ∃ a ∈ acceptedRequests b.server.log, b.server.isOpen a.1.conn = true ∧
        transfers a.2.2 b.given = [{ chunks := [([65], true)] }] :=
    exists_reach (Sample.connect 5 ++ Sample.ask 0 0 ++
      [.schedule 0, .dispatch, .dequeue 0 { chunks := [([65], true)] }] ++
      List.replicate 12 (.thread 0 {}) ++ [.swap 0, .functor 0, .functor 0, .write 0 200]) (by decide)
  obtain ⟨b, hr, hidle, ⟨⟨o, fd, req⟩, hreq, hopen, hgiven⟩⟩ := hrun
  have hs := run_of_aiBook hr
  have hw := ((streams_concluded hs (idle_of_finished hs hidle) hidle.2.2.2.1 hopen).2 b hr rfl).1 o fd req
    (mem_acceptedRequests hreq) rfl
  rw [hgiven] at hw
  exact ⟨b, o, req, hr, hgiven, hw⟩

end AuraChat
