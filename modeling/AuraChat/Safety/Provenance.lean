import AuraChat.Model.Sample
import AuraChat.Server.Backed
import AuraChat.Server.Identity
import AuraChat.Server.Messages

set_option autoImplicit false

/-!
# Where chat messages come from

The server makes no chat message up. What it appends to a send buffer as a `CHAT` packet has been
received in a `CHAT` packet, with the same recipient and the same content, or it was in the store at the
start, or it is a chunk of the AI for the context that asked. The uid that a message is sent under is the one
that the context of its packet had when it was handled, and that uid was verified or registered with
this context.

* `Vouched`, **`uid_vouched`**: the uids of the contexts;
* `Asked`, **`asked_of_run`**: the AI requests come from packets to the AI;
* `Meant`, **`meant_of_run`**: what the queued packets say;
* `Sent`, `Store.texts`, **`texts_of_run`**: what the store keeps;
* `Genuine`, **`chat_unforged`**.
-/

namespace AuraChat

open Interleave

variable {P : Params} {db : Store} {C : Label → State → Prop} {s s' : State} {l : Label}

/-! ## The uids of contexts -/

/-- A `LOGIN` received with the context `x` was verified as the user `u`, or a `REGISTER` made the user. -/
def Vouched (P : Params) (log : List Entry) (x : ℕ) (u : Int) : Prop :=
  ∃ o hdr body, o.ctx = x ∧ .received o hdr body ∈ log ∧
    ((hdr.cmd = CmdType.login.code ∧ ∃ req, P.codec.parseLoginRequest body = some req ∧
        .did o ⟨.verifyLogin req.username req.password, .ok u⟩ ∈ log) ∨
      (hdr.cmd = CmdType.register.code ∧ ∃ req, P.codec.parseRegisterRequest body = some req ∧
        .did o ⟨.registerUser req.username req.password, .ok u⟩ ∈ log))

theorem Vouched.mono {log log' : List Entry} {x : ℕ} {u : Int} (h : Vouched P log x u)
    (hlog : log ⊆ log') : Vouched P log' x u := by
  obtain ⟨o, hdr, body, hx, hr, h⟩ := h
  refine ⟨o, hdr, body, hx, hlog hr, ?_⟩
  rcases h with ⟨hc, req, hreq, hd⟩ | ⟨hc, req, hreq, hd⟩
  · exact .inl ⟨hc, req, hreq, hlog hd⟩
  · exact .inr ⟨hc, req, hreq, hlog hd⟩

theorem Traced.vouched (ht : Traced P s) {o : Origin} {uid : Int} {x : ℕ}
    (hb : s.binds l = some (o, uid, x)) : Vouched P s.log x uid := by
  obtain ⟨hx, hdr, body, hr, h⟩ := ht.binds_received hb
  exact ⟨o, hdr, body, hx, hr, h⟩

/-- **The uid of a context was verified or registered with it**, if it has one. -/
theorem uid_vouched (h : RunTo P db C s) (x : ℕ) :
    (s.net.ctxs x).uid = 0 ∨ Vouched P s.log x (s.net.ctxs x).uid := by
  refine run_invariant h (fun s => ∀ x, (s.net.ctxs x).uid = 0 ∨ Vouched P s.log x (s.net.ctxs x).uid)
    (fun x => .inl ?_) (fun l s s' hr hwf _ ih hm x => ?_) x
  · simp only [State.init, Net.init]
    split_ifs <;> rfl
  · have hlog := move_log hm
    have keep : (s'.net.ctxs x).uid = (s.net.ctxs x).uid →
        (s'.net.ctxs x).uid = 0 ∨ Vouched P s'.log x (s'.net.ctxs x).uid := by
      intro e
      rw [e]
      exact (ih x).imp_right fun hv => hv.mono hlog
    cases change_of_move hwf hm with
    | same hc hu hs hf => exact keep (hu x)
    | bind o uid y hb hc hu hs hf =>
        by_cases e : x = y
        · subst e
          rw [hu, if_pos rfl]
          exact .inr (((traced_of_run hr).vouched hb).mono hlog)
        · exact keep (by rw [hu, if_neg e])
    | opens w fd y hc hx hnew hu hux hs hf =>
        by_cases e : x = y
        · subst e
          rcases hux with h0 | ⟨h1, -⟩
          · exact .inl h0
          · exact keep h1
        · exact keep (hu x e)
    | goes c d ph hd he hc hu hs hf => exact keep (hu x)
    | unbind c d v hl hd hp hc hu hs hf => exact keep (hu x)
    | release c d hd hp hc hu hs hf =>
        by_cases e : x = d.ctx ∧ P.pooled d.ctx
        · exact .inl (by rw [hu, if_pos e])
        · exact keep (by rw [hu, if_neg e])

theorem loaded_vouched (h : RunTo P db C s) {o : Origin} {x : ℕ} {u : Int}
    (hd : .did o ⟨.loadUid x, u⟩ ∈ s.log) : u = 0 ∨ Vouched P s.log x u := by
  refine run_invariant h (fun s => ∀ o x (u : Int), .did o ⟨.loadUid x, u⟩ ∈ s.log →
    u = 0 ∨ Vouched P s.log x u) (fun _ _ _ hd => by cases hd)
    (fun l s s' hr _ _ ih hm o x u hd => ?_) o x u hd
  have hlog := move_log hm
  rcases move_did hm hd with hd | ⟨i, e, t, k, s₁, -, -, -, -, ha, -⟩
  · exact (ih o x u hd).imp_right fun hv => hv.mono hlog
  · simp only [act, Option.some.injEq, Prod.mk.injEq] at ha
    obtain ⟨rfl, -⟩ := ha
    exact (uid_vouched hr x).imp_right fun hv => hv.mono hlog

/-! ## AI requests -/

/-- A message to the AI was received, handled under the uid of the request, and taken by the AI manager. -/
def Asked (P : Params) (log : List Entry) (req : StreamRequest) : Prop :=
  (∃ hdr body msg, .received req.origin hdr body ∈ log ∧ hdr.cmd = CmdType.chat.code ∧
    P.codec.parseChatMessage body = some msg ∧ msg.toUid = 9999 ∧ msg.content = req.prompt ∧
    .did req.origin ⟨.loadUid req.origin.ctx, req.uid⟩ ∈ log) ∧
  ∃ fd, .did req.origin ⟨.aiEnqueue fd req, true⟩ ∈ log

theorem Asked.mono {log log' : List Entry} {req : StreamRequest} (h : Asked P log req)
    (hlog : log ⊆ log') : Asked P log' req := by
  obtain ⟨⟨hdr, body, msg, hr, hc, hp, h9, hm, hd⟩, fd, ha⟩ := h
  exact ⟨⟨hdr, body, msg, hlog hr, hc, hp, h9, hm, hlog hd⟩, fd, hlog ha⟩

/-- All AI requests have been asked for, wherever they are. -/
structure AllAsked (P : Params) (s : State) : Prop where
  held : ∀ req, (req ∈ s.ai.pending ∨ s.ai.handoff = some req ∨ ∃ p ∈ s.ai.active, p.2 = req) →
    Asked P s.log req
  task : ∀ req, .stream req ∈ s.tasks → Asked P s.log req
  thread : ∀ i t req, s.threads i = some t → t.task = .stream req → Asked P s.log req

theorem allAsked_move (ht : Traced P s) (ha : AllAsked P s) (hm : Move P s l s') : AllAsked P s' := by
  have hlog := move_log hm
  refine ⟨fun req hr => ?_, fun req hr => ?_, fun i t req hi htask => ?_⟩
  · rcases move_request hm hr with hr | ⟨o, fd, hn⟩
    · exact (ha.held req hr).mono hlog
    · obtain ⟨i, e, t, k, rfl, hi, rfl, hp⟩ := next_cases hn
      obtain ⟨r, s₁, hact, rfl⟩ := move_call hm hi hp
      have hb := ht.backed hi hp
      have hk := ht.thread i t hi
      have hh := ht.hist i t hi
      cases r with
      | false =>
          -- a request that is turned down was there before
          obtain ⟨hno, rfl⟩ := Prod.mk.inj (Option.some.inj hact)
          refine (ha.held req ?_).mono hlog
          rwa [show (s.ai.enqueue fd req).2 = s.ai from enqueue_refused hno] at hr
      | true =>
          cases htask : t.task with
          | business o hdr body =>
              rw [htask] at hb hk hh hlog
              obtain ⟨rfl, msg, ⟨hc, hpar, hu⟩, h9, hprompt⟩ := hb
              exact ⟨⟨hdr, body, msg, hlog hk, hc, hpar, h9, hprompt.symm, hlog (hh _ hu)⟩, fd,
                List.mem_cons_self⟩
          | stream req' =>
              rw [htask] at hb
              exact hb.elim
  · rcases move_task hm hr with hr | ⟨o, hdr, body, e, -⟩ | ⟨req', e, hh⟩
    · exact (ha.task req hr).mono hlog
    · cases e
    · obtain rfl := Task.stream.inj e
      exact (ha.held req (.inr (.inl hh))).mono hlog
  · rcases move_thread hm hi with hi | ⟨-, t₀, hmem, script, rfl⟩ | ⟨e, t₀, a, k, r, -, hi₀, -, rfl, -⟩
    · exact (ha.thread i t req hi htask).mono hlog
    · obtain rfl : t₀ = .stream req := htask
      exact (ha.task req hmem).mono hlog
    · exact (ha.thread i t₀ req hi₀ htask).mono hlog

/-- **The AI requests come from packets to the AI**, in every state that a run reaches. -/
theorem asked_of_run (h : RunTo P db C s) : AllAsked P s := by
  refine run_invariant h (AllAsked P) ⟨fun req hr => ?_, fun _ ht => (by cases ht), fun _ _ _ ht => (by cases ht)⟩
    fun _ _ _ hr _ _ ha hm => allAsked_move (traced_of_run hr) ha hm
  rcases hr with hr | hr | ⟨p, hp, -⟩
  · cases hr
  · cases hr
  · cases hp

/-! ## What the packets say -/

/-- What the packet of a frame says is backed by the record. -/
inductive Meant (P : Params) (s : State) (f : Frame) : Prop
  | said (t : Task) (h : List (Event Reply)) (ho : t.origin = f.origin) (hk : Known s t)
      (ha : ∀ req, t = .stream req → Asked P s.log req) (hh : ∀ e ∈ h, .did f.origin e ∈ s.log)
      (hb : Backed P t h (.queueSendPacket f.ctx f.cmd f.seq f.body f.why))
      (hg : Guard P t h (.queueSendPacket f.ctx f.cmd f.seq f.body f.why))
  | expired (req : StreamRequest) (chunk : Bytes) (now : Int) (ha : Asked P s.log req)
      (hf : f = ⟨req.origin, req.origin.ctx, .chat, 0,
        P.codec.serializeChatMessage (chunkMessage req.uid chunk true 0 now), .chunk⟩)

theorem Meant.mono {f : Frame} (h : Meant P s f) (hlog : s.log ⊆ s'.log) : Meant P s' f := by
  cases h with
  | said t h ho hk ha hh hb hg =>
      exact .said t h ho (hk.mono hlog) (fun req e => (ha req e).mono hlog) (fun e he => hlog (hh e he)) hb hg
  | expired req chunk now ha hf => exact .expired req chunk now (ha.mono hlog) hf

theorem queued_by_schedule (ha : AllAsked P s) {now : Int} (hs : step P (.schedule now) s = some s') {w : ℕ} {f : Functor}
    {fr : Frame} (hf : f ∈ (s'.net.workers w).queue) (hjob : f.job = .send fr) :
    f ∈ (s.net.workers w).queue ∨ Meant P s fr := by
  simp only [step] at hs
  split at hs
  · split_ifs at hs
    obtain rfl := Option.some.inj hs
    rename_i req rest _ hpending _
    simp only [State.schedule] at hf
    split_ifs at hf
    · simp only [State.sendError] at hf
      split at hf
      · exact .inl hf
      · rcases Net.mem_push.mp hf with hf | ⟨-, rfl⟩
        · exact .inl hf
        · obtain rfl := Job.send.inj hjob
          exact .inr (.expired req _ now (ha.held req (.inl (by simp [hpending]))) rfl)
    · exact .inl hf
    · exact .inl hf
  · cases hs

/-- A frame that another step queues is sent by a thread. -/
theorem queued_by_thread (hwf' : s'.net.WF P) (h : Move P s l s') (hl : ∀ now, l ≠ .schedule now)
    {w : ℕ} {f : Functor} {fr : Frame} (hf : f ∈ (s'.net.workers w).queue) (hjob : f.job = .send fr) :
    f ∈ (s.net.workers w).queue ∨ ∃ o x cmd seq body why,
      s.next l = some (o, .queueSendPacket x cmd seq body why) ∧ fr = ⟨o, x, cmd, seq, body, why⟩ := by
  rcases move_queue h hf with hf' | ⟨hnum, -⟩
  · exact .inl hf'
  -- a step that queues nothing leaves the counter of the functors alone
  have hlt := hwf'.num_lt w f hf
  cases h with
  | accept fd h0 hfd =>
      rcases Net.mem_push.mp hf with hf | ⟨-, rfl⟩
      · exact .inl hf
      · cases hjob
  | overflow w' num f' rest c d hb hq ha hr =>
      rcases Net.mem_push.mp hf with hf | ⟨-, rfl⟩
      · exact .inl (popBatch_queue_subset hq w hf)
      · cases hjob
  | call i e t a k r s₁ hi hp ha =>
      have hn := next_thread e hi hp
      cases act_effect ha with
      | send x cmd seq body why w' hw =>
          rcases Net.mem_push.mp hf with hf | ⟨-, rfl⟩
          · exact .inl hf
          · exact .inr ⟨_, x, cmd, seq, body, why, hn, (Job.send.inj hjob).symm⟩
      | kick old fd w' hw =>
          rcases Net.mem_push.mp hf with hf | ⟨-, rfl⟩
          · exact .inl hf
          · cases hjob
      | _ => exact absurd hnum (Nat.ne_of_lt hlt)
  | expire _ _ now | forget _ _ now | activate _ _ now => exact absurd rfl (hl now)
  | add w' num fd rest hb hq =>
      rw [addConnection_queue] at hf
      exact .inl (popBatch_queue_subset hq w hf)
  | release c d hd hp =>
      rw [(Net.releaseContext_static c d).2.2.1] at hlt
      exact absurd hnum (Nat.ne_of_lt hlt)
  | _ => exact absurd hnum (Nat.ne_of_lt hlt)

/-- The frames that are queued, and those that have been appended. -/
structure AllMeant (P : Params) (s : State) : Prop where
  queue : ∀ w, ∀ f ∈ (s.net.workers w).queue, ∀ fr, f.job = .send fr → Meant P s fr
  appended : ∀ c f uid, .appended c f uid ∈ s.log → Meant P s f

theorem allMeant_step (hwf : s.net.WF P) (ht : Traced P s) (hask : AllAsked P s) (ha : AllMeant P s)
    (hs : step P l s = some s') : AllMeant P s' := by
  have hm := move_of_step hwf hs
  have hlog := move_log hm
  refine ⟨fun w f hf fr hjob => ?_, fun c f uid hr => ?_⟩
  · by_cases hl : ∃ now, l = .schedule now
    · obtain ⟨now, rfl⟩ := hl
      rcases queued_by_schedule hask hs hf hjob with hf | hmeant
      · exact (ha.queue w f hf fr hjob).mono hlog
      · exact hmeant.mono hlog
    · rcases queued_by_thread (wf_move hwf hm) hm (by simpa using hl) hf hjob with hf | ⟨o, x, cmd, seq, body,
        why, hn, rfl⟩
      · exact (ha.queue w f hf fr hjob).mono hlog
      · obtain ⟨i, e, t, k, rfl, hi, rfl, hp⟩ := next_cases hn
        exact .said t.task t.hist rfl ((ht.thread i t hi).mono hlog)
          (fun req e => (hask.thread i t req hi e).mono hlog) (fun ev hev => hlog (ht.hist i t hi ev hev)) (ht.backed hi hp) (ht.guard hi hp)
  · rcases move_appended hm hr with hr | ⟨w, num, rest, d, -, -, hq, -, -⟩
    · exact (ha.appended c f uid hr).mono hlog
    · exact (ha.queue w ⟨num, .send f⟩ (by simp [Worker.queue, hq]) f rfl).mono hlog

/-- **What the packets say is backed by the record**, in every state that a run reaches. -/
theorem meant_of_run (h : RunTo P db C s) : AllMeant P s :=
  h.invariant_reach (AllMeant P) ⟨fun w f hf => by simp [State.init] at hf, fun _ _ _ hr => by cases hr⟩
    fun _ _ _ hr _ ha hs => allMeant_step (wf_of_run hr) (traced_of_run hr) (asked_of_run hr) ha hs

/-! ## What the store keeps -/

/-- Sender, recipient and content of the messages in the store: those in the table, those in the hands of
the writer and those in its queue. -/
def Store.texts (st : Store) : List (Int × Int × Bytes) :=
  st.messages.map FileMessage.payload ++ (st.batch ++ st.queue).map DBChatMessage.payload

/-- A packet with this content for this recipient was received, and handled under this uid. -/
def Sent (P : Params) (log : List Entry) (x : Int × Int × Bytes) : Prop :=
  ∃ o hdr body msg, .received o hdr body ∈ log ∧ hdr.cmd = CmdType.chat.code ∧
    P.codec.parseChatMessage body = some msg ∧ .did o ⟨.loadUid o.ctx, x.1⟩ ∈ log ∧
    msg.toUid = x.2.1 ∧ msg.content = x.2.2

theorem Sent.mono {log log' : List Entry} {x : Int × Int × Bytes} (h : Sent P log x)
    (hlog : log ⊆ log') : Sent P log' x := by
  obtain ⟨o, hdr, body, msg, hr, hc, hp, hd, ht, hm⟩ := h
  exact ⟨o, hdr, body, msg, hlog hr, hc, hp, hlog hd, ht, hm⟩

/-- A message that is in the store was in it, or this step has submitted it. -/
theorem move_texts (h : Move P s l s') {x : Int × Int × Bytes} (hx : x ∈ s'.db.texts) :
    x ∈ s.db.texts ∨ ∃ o m, s.next l = some (o, .submit m) ∧ x = m.payload := by
  cases h with
  | call i e t a k r s₁ hi hp ha =>
      have hn := next_thread e hi hp
      cases act_effect ha with
      | submit m =>
          simp only [Store.texts, Store.submit, ← List.append_assoc, List.map_append, List.mem_append,
            List.map_cons, List.map_nil, List.mem_singleton] at hx ⊢
          rcases hx with hx | rfl
          · exact .inl hx
          · exact .inr ⟨_, m, hn, rfl⟩
      | mark uid maxId =>
          refine .inl ?_
          simp only [Store.texts, markDelivered_payloads] at hx
          exact hx
      | _ => exact .inl hx
  | drain hb =>
      refine .inl ?_
      simpa only [Store.texts, Store.drain, List.append_assoc, List.take_append_drop] using hx
  | flush ok hn =>
      refine .inl ?_
      simp only [Store.texts, flush_batch, flush_messages, List.nil_append, List.map_append,
        List.mem_append] at hx ⊢
      rcases hx with (hx | hx) | hx
      · exact .inl hx
      · split_ifs at hx
        · rw [payload_rowsOf] at hx
          exact .inr (.inl hx)
        · cases hx
      · exact .inr (.inr hx)
  | _ => exact .inl hx

/-- **What the store keeps was in it at the start or has been sent.** -/
theorem texts_of_run (h : RunTo P db C s) {x : Int × Int × Bytes} (hx : x ∈ s.db.texts) :
    x ∈ db.texts ∨ Sent P s.log x := by
  refine run_invariant h (fun s => ∀ x ∈ s.db.texts, x ∈ db.texts ∨ Sent P s.log x)
    (fun x hx => .inl hx) (fun l s s' hr _ _ ih hm x hx => ?_) x hx
  have hlog := move_log hm
  rcases move_texts hm hx with hx | ⟨o, m, hn, rfl⟩
  · exact (ih x hx).imp_right fun hs => hs.mono hlog
  · have ht := traced_of_run hr
    obtain ⟨i, e, t, k, rfl, hi, rfl, hp⟩ := next_cases hn
    have hb := ht.backed hi hp
    have hk := ht.thread i t hi
    have hh := ht.hist i t hi
    right
    cases htask : t.task with
    | business o hdr body =>
        rw [htask] at hb hk hh
        obtain ⟨msg, ⟨hc, hpar, hu⟩, hto, hcontent⟩ := hb
        exact ⟨o, hdr, body, msg, hlog hk, hc, hpar, hlog (hh _ hu), hto.symm, hcontent.symm⟩
    | stream req =>
        rw [htask] at hb
        exact hb.elim

theorem queried_texts (h : RunTo P db C s) {o : Origin} {uid : Int} {rows : List DBChatMessage}
    (hd : .did o ⟨.queryOfflineMessages uid, .ok rows⟩ ∈ s.log) {m : DBChatMessage} (hm : m ∈ rows) :
    m.toUid = uid ∧ (m.payload ∈ db.texts ∨ Sent P s.log m.payload) := by
  refine run_invariant h (fun s => ∀ o uid rows,
    .did o ⟨.queryOfflineMessages uid, .ok rows⟩ ∈ s.log → ∀ m ∈ rows,
      m.toUid = uid ∧ (m.payload ∈ db.texts ∨ Sent P s.log m.payload)) (fun _ _ _ hd => by cases hd)
    (fun l s s' hr _ _ ih hmove o uid rows hd m hm => ?_) o uid rows hd m hm
  have hlog := move_log hmove
  have keep : m.payload ∈ db.texts ∨ Sent P s.log m.payload →
      m.payload ∈ db.texts ∨ Sent P s'.log m.payload := fun hp => hp.imp_right fun hs => hs.mono hlog
  rcases move_did hmove hd with hd | ⟨i, e, t, k, s₁, -, -, -, -, ha, -⟩
  · exact ⟨(ih o uid rows hd m hm).1, keep (ih o uid rows hd m hm).2⟩
  · obtain ⟨rfl, -⟩ := query_rows ha (List.ne_nil_of_mem hm)
    simp only [Store.queryOfflineMessages, List.mem_map, List.mem_filter, Store.undelivered,
      Bool.and_eq_true, beq_iff_eq] at hm
    obtain ⟨r, ⟨hr', hto, -⟩, rfl⟩ := hm
    refine ⟨hto, keep (texts_of_run hr ?_)⟩
    exact List.mem_append_left _ (List.mem_map_of_mem (f := FileMessage.payload) hr')

/-! ## No forgery -/

/-- A `CHAT` frame that the server has reason to send. -/
inductive Genuine (P : Params) (db : Store) (log : List Entry) (f : Frame) : Prop
  /-- It forwards the message of a packet, to a context that had the session of the user it is for. -/
  | forwarded (hdr : PacketHeader) (body : Bytes) (msg : ChatMessage) (fromUid : Int)
      (hw : f.why = .forward msg.toUid) (hr : .received f.origin hdr body ∈ log)
      (hc : hdr.cmd = CmdType.chat.code) (hp : P.codec.parseChatMessage body = some msg)
      (hto : .did f.origin ⟨.sessionGet msg.toUid, some f.ctx⟩ ∈ log)
      (hb : f.body = P.codec.serializeChatMessage { msg with fromUid := fromUid })
      (hv : fromUid = 0 ∨ Vouched P log f.origin.ctx fromUid)
  /-- It delivers a stored message, to the context that has been verified as the user it is for. -/
  | delivered (hdr : PacketHeader) (body : Bytes) (req : LoginRequest) (m : DBChatMessage) (now : Int)
      (hw : f.why = .offline m.id) (hr : .received f.origin hdr body ∈ log)
      (hc : hdr.cmd = CmdType.login.code) (hp : P.codec.parseLoginRequest body = some req)
      (hto : f.ctx = f.origin.ctx) (h0 : 0 < m.toUid)
      (hl : .did f.origin ⟨.verifyLogin req.username req.password, .ok m.toUid⟩ ∈ log)
      (hm : m.payload ∈ db.texts ∨ Sent P log m.payload)
      (hb : f.body = P.codec.serializeChatMessage
        { fromUid := m.fromUid, toUid := m.toUid, content := m.content, timestamp := now })
  /-- It is a chunk of the AI, for the context of a packet to the AI that was received and taken. -/
  | streamed (req : StreamRequest) (chunk : Bytes) (isLast : Bool) (streamSeq now : Int) (hw : f.why = .chunk)
      (ho : f.origin = req.origin) (ha : Asked P log req) (hto : f.ctx = req.origin.ctx)
      (hv : req.uid = 0 ∨ Vouched P log req.origin.ctx req.uid)
      (hb : f.body = P.codec.serializeChatMessage (chunkMessage req.uid chunk isLast streamSeq now))

theorem genuine_chunk (h : RunTo P db C s) {f : Frame} {req : StreamRequest} (ha : Asked P s.log req)
    (ho : f.origin = req.origin) (hw : f.why = .chunk) (hto : f.ctx = req.origin.ctx) {chunk : Bytes}
    {isLast : Bool} {streamSeq now : Int}
    (hb : f.body = P.codec.serializeChatMessage (chunkMessage req.uid chunk isLast streamSeq now)) :
    Genuine P db s.log f := by
  have ⟨⟨_, _, _, _, _, _, _, _, hd⟩, _⟩ := ha
  exact .streamed req chunk isLast streamSeq now hw ho ha hto (loaded_vouched h hd) hb

theorem genuine_of_run (h : RunTo P db C s) {c : ℕ} {f : Frame} {uid : Int}
    (hf : .appended c f uid ∈ s.log) (hcmd : f.cmd = .chat) : Genuine P db s.log f := by
  cases (meant_of_run h).appended c f uid hf with
  | expired req chunk now ha hf =>
      subst hf
      exact genuine_chunk h ha rfl rfl rfl rfl
  | said t hist ho hk ha hh hb hg =>
      obtain ⟨origin, x, cmd, seq, b, why⟩ := f
      obtain rfl : cmd = .chat := hcmd
      cases t with
      | stream req =>
          obtain ⟨rfl, -, -, chunk, isLast, streamSeq, now, rfl⟩ := hb
          exact genuine_chunk h (ha req rfl) ho.symm rfl hg rfl
      | business o hdr body =>
          obtain rfl : o = origin := ho
          cases why with
          | reply => cases hb.2
          | notify u => cases hb.2.1
          | chunk => exact hb.elim
          | forward toUid =>
              obtain ⟨-, -, msg, fromUid, ⟨hc, hp, hu⟩, rfl, rfl⟩ := hb
              exact .forwarded hdr body msg fromUid rfl hk hc hp (hh _ hg) rfl (loaded_vouched h (hh _ hu))
          | offline id =>
              obtain ⟨-, -, req, u, rows, m, now, hc, hp, h0, hv, hq, hm, rfl, rfl⟩ := hb
              obtain ⟨rfl, hsrc⟩ := queried_texts h (hh _ hq) hm
              exact .delivered hdr body req m now rfl hk hc hp hg.1 h0 (hh _ hv) hsrc rfl

end AuraChat
