import AuraChat.Model.Server

set_option autoImplicit false

/-!
# What a thread has done before a call

`Guard P t h a` is what the calls and replies `h` of a thread must contain when it makes the call
`a` for the task `t`. The programs of the source meet it on every path, whatever the replies are:
a bind comes after a verified password and binds the context of the packet, a kick names the entry
that this bind has found, a packet marked as delivered has been forwarded before, stored messages
are queued in the order of the query and marked after the last one.

* `sat_run_sys`, `sat_withWriter`, `sat_sessionBind`, `sat_deliverOfflineMessages`: rules for the
  handlers, under any guard;
* `Verified`, `offlineIds`, `Guard`;
* **`processStreamRequest_guard`**: a stream draws its client once and ends with the erase of its entry;
* **`task_guard`**: the program of every task is guarded.
-/

namespace AuraChat

open Interleave Interleave.Prog

/-! ## Rules for the handlers -/

section Rules

variable {G : List (Event Reply) → Call → Prop} {h : List (Event Reply)} {α : Type}
  {Q : List (Event Reply) → Except Unit α → Prop}

theorem sat_run_sys (a : Call) (f : Reply a → Biz α) :
    Sat G h (sys a >>= f).run Q ↔ G h a ∧ ∀ r, Sat G (h ++ [⟨a, r⟩]) (f r).run Q := by
  rw [sat_run_bind, sys, sat_run_lift]
  exact Iff.rfl

/-- Without the batch writer a handler refuses; with it, it goes on. -/
theorem sat_withWriter {refusal rest : Biz α} (hG : G h .dbWriter)
    (hno : Sat G (h ++ [⟨.dbWriter, false⟩]) refusal.run Q)
    (hyes : Sat G (h ++ [⟨.dbWriter, true⟩]) rest.run Q) :
    Sat G h (do if !(← sys .dbWriter) then refusal else rest : Biz α).run Q := by
  rw [sat_run_sys]
  refine ⟨hG, ?_⟩
  rintro (_ | _)
  · exact hno
  · exact hyes

theorem sat_sessionBind {uid : Int} {x : ℕ} {R : List (Event Reply) → Unit → Prop}
    (henter : ∀ h, G h (.bindEnter uid x)) (hfd : ∀ h y, G h (.loadFd y))
    (hclose : ∀ h old fd, G h (.queueCloseConnection old fd)) (hstore : ∀ h, G h (.bindStore uid x))
    (hR : ∀ h, R h ()) : Sat G h (sessionBind uid x) R := by
  simp only [sessionBind, call, sat_bind, sat_perform]
  refine ⟨henter _, ?_⟩
  rintro (_ | old)
  · exact hR _
  simp only [sat_bind, sat_perform]
  refine ⟨hfd _ _, fun fd => ?_⟩
  split_ifs
  · simp only [sat_bind, sat_perform]
    exact ⟨hfd _ _, fun fd' => ⟨hclose _ _ _, fun _ => ⟨hstore _, fun _ => hR _⟩⟩⟩
  · exact ⟨hstore _, fun _ => hR _⟩

theorem sat_deliverOfflineMessages {P : Params} {o : Origin} {uid : Int}
    {R : List (Event Reply) → Except Unit Unit → Prop} (hdb : ∀ h, G h .dbWriter)
    (hquery : ∀ h, G h (.queryOfflineMessages uid)) (hclock : ∀ h, G h .systemClock)
    (hsend : ∀ h b id, G h (.queueSendPacket o.ctx .chat 0 b (.offline id)))
    (hmark : ∀ h, G h (.markDelivered uid int64Max)) (hR : ∀ h r, R h r) :
    Sat G h (deliverOfflineMessages P o uid).run R := by
  simp only [deliverOfflineMessages, sys, store, call, sat_run_bind, sat_run_lift, sat_perform]
  refine ⟨hdb _, ?_⟩
  rintro (_ | _)
  · exact hR _ _
  simp only [if_true, sat_run_bind, sat_run_mk, sat_perform]
  refine ⟨hquery _, ?_⟩
  rintro (_ | rows)
  · exact hR _ _
  dsimp only
  split_ifs
  · simp only [run, sat_run_bind, sat_run_lift, sat_run_mk, sat_perform]
    refine (sat_forM (fun _ _ => True) _ (fun h' m rest _ => ?_) rows _ trivial).mono
      (fun _ _ hg => hg) fun h' _ _ => ⟨hmark _, fun _ => hR _ _⟩
    simp only [deliverOffline, call, sat_bind, sat_perform]
    exact ⟨hclock _, fun _ => ⟨hsend _ _ _, fun _ => trivial⟩⟩
  · exact hR _ _

end Rules

/-- The store has accepted the password of a `LOGIN`, or made the user of a `REGISTER`. -/
def Verified (P : Params) (t : Task) (h : List (Event Reply)) (uid : Int) : Prop :=
  match t with
  | .business _ hdr body =>
      (hdr.cmd = CmdType.login.code ∧ 0 < uid ∧ ∃ req, P.codec.parseLoginRequest body = some req ∧
        ⟨.verifyLogin req.username req.password, .ok uid⟩ ∈ h) ∨
      (hdr.cmd = CmdType.register.code ∧ 0 ≤ uid ∧
        ∃ req, P.codec.parseRegisterRequest body = some req ∧
        ⟨.registerUser req.username req.password, .ok uid⟩ ∈ h)
  | .stream _ => False

/-- The stored message that a call queues. -/
def offlineId : Call → Option Int
  | .queueSendPacket _ _ _ _ (.offline id) => some id
  | _ => none

/-- The stored messages queued so far. -/
def offlineIds (h : List (Event Reply)) : List Int := h.filterMap fun e => offlineId e.1

/-- The stored messages that a thread has been given and has not marked yet, after one more call. -/
def track (w : Option (Int × List DBChatMessage)) : Event Reply → Option (Int × List DBChatMessage)
  | ⟨.queryOfflineMessages uid, .ok rows⟩ => if rows = [] then none else some (uid, rows)
  | ⟨.markDelivered _ _, _⟩ => none
  | _ => w

/-- The stored messages, and their user, that a thread has been given and has not marked yet. -/
def window (h : List (Event Reply)) : Option (Int × List DBChatMessage) := h.foldl track none

/-- The call has nothing to do with stored messages. -/
def Call.quiet : Call → Bool
  | .queryOfflineMessages _ | .markDelivered _ _ | .queueSendPacket _ _ _ _ (.offline _) => false
  | _ => true

/-- No stored message has been asked for. -/
def Quiet (h : List (Event Reply)) : Prop := ∀ e ∈ h, e.1.quiet = true

/-- The task is for a `LOGIN` packet. -/
def Task.isLogin : Task → Prop
  | .business _ hdr _ => hdr.cmd = CmdType.login.code
  | .stream _ => False

/-- What has come before a call. -/
def Guard (P : Params) (t : Task) (h : List (Event Reply)) : Call → Prop
  | .bindEnter uid x => x = t.origin.ctx ∧ Verified P t h uid
  | .bindStore uid x => x = t.origin.ctx ∧ Verified P t h uid ∧
      ∃ old, ⟨.bindEnter uid t.origin.ctx, some old⟩ ∈ h
  | .queueCloseConnection old _ => ∃ uid, ⟨.bindEnter uid t.origin.ctx, some old⟩ ∈ h
  | .queueSendPacket x _ _ _ why => match why with
      | .reply => x = t.origin.ctx
      | .chunk => x = t.origin.ctx
      | .forward toUid => ⟨.sessionGet toUid, some x⟩ ∈ h
      | .notify uid => ⟨.sessionGet uid, some x⟩ ∈ h
      | .offline id => x = t.origin.ctx ∧ ∃ uid rows,
          window h = some (uid, rows) ∧ offlineIds h ++ [id] <+: rows.map DBChatMessage.id
  | .queryOfflineMessages _ => t.isLogin ∧ Quiet h
  | .markDelivered uid maxId => maxId = int64Max ∧ ∃ rows, window h = some (uid, rows) ∧
      offlineIds h = rows.map DBChatMessage.id
  | .submit m => m.delivered = true → ∃ (x : ℕ) (msg : ChatMessage) (fromUid : Int),
      ⟨.queueSendPacket x .chat 0
        (P.codec.serializeChatMessage { msg with fromUid := fromUid }) (.forward m.toUid), ()⟩ ∈ h ∧
      msg.toUid = m.toUid ∧ msg.content = m.content
  | .aiEnqueue _ req => req.origin = t.origin
  | _ => True

theorem offlineIds_append (h h' : List (Event Reply)) :
    offlineIds (h ++ h') = offlineIds h ++ offlineIds h' := List.filterMap_append

theorem window_snoc (h : List (Event Reply)) (e : Event Reply) :
    window (h ++ [e]) = track (window h) e := by
  simp [window]

theorem track_quiet (w : Option (Int × List DBChatMessage)) {a : Call} (r : Reply a)
    (ha : a.quiet = true ∨ (offlineId a).isSome) : track w ⟨a, r⟩ = w := by
  cases a <;> simp_all [track, Call.quiet, offlineId]

@[simp] theorem quiet_nil : Quiet [] := fun _ he => absurd he List.not_mem_nil

@[simp] theorem quiet_cons (e : Event Reply) (h : List (Event Reply)) :
    Quiet (e :: h) ↔ e.1.quiet = true ∧ Quiet h := List.forall_mem_cons

@[simp] theorem quiet_append (h h' : List (Event Reply)) :
    Quiet (h ++ h') ↔ Quiet h ∧ Quiet h' := List.forall_mem_append

theorem offlineId_quiet {a : Call} (h : a.quiet = true) : offlineId a = none := by
  unfold offlineId
  split
  · cases h
  · rfl

theorem Quiet.offlineIds {h : List (Event Reply)} (hq : Quiet h) : offlineIds h = [] :=
  List.filterMap_eq_nil_iff.mpr fun e he => offlineId_quiet (hq e he)

theorem Quiet.window {h : List (Event Reply)} (hq : Quiet h) : window h = none := by
  have keep : ∀ w, h.foldl track w = w := by
    induction h with
    | nil => exact fun _ => rfl
    | cons e h ih =>
        intro w
        rw [quiet_cons] at hq
        rw [List.foldl_cons, track_quiet w e.2 (.inl hq.1), ih hq.2]
  exact keep none

theorem Verified.mono {P : Params} {t : Task} {h h' : List (Event Reply)} {uid : Int}
    (hv : Verified P t h uid) (hs : h ⊆ h') : Verified P t h' uid := by
  cases t with
  | business o hdr body =>
      rcases hv with ⟨hc, h0, req, hreq, hm⟩ | ⟨hc, h0, req, hreq, hm⟩
      · exact .inl ⟨hc, h0, req, hreq, hs hm⟩
      · exact .inr ⟨hc, h0, req, hreq, hs hm⟩
  | stream req => exact hv

/-! ## The handlers -/

section Handlers

variable {P : Params} {hdr : PacketHeader} {body : Bytes} {h : List (Event Reply)} {t : Task}

theorem reply_guard (r : Response) {Q : List (Event Reply) → Unit → Prop}
    (hQ : ∀ body, Q (h ++ [⟨.queueSendPacket t.origin.ctx .ack hdr.seq body .reply, ()⟩]) ()) :
    Sat (Guard P t) h (reply P t.origin hdr r) Q := by
  simp only [reply, call, sat_perform, Guard, true_and]
  exact fun _ => hQ _

theorem runReply_guard (r : Response) :
    Sat (Guard P t) h (run (reply P t.origin hdr r)).run fun _ _ => True := by
  simp only [run, sat_run_lift]
  exact reply_guard r fun _ => trivial

theorem sessionBind_guard {uid : Int} (hv : Verified P t h uid) (hq : Quiet h)
    {Q : List (Event Reply) → Unit → Prop} (hQ : ∀ h', Quiet h' → Q h' ()) :
    Sat (Guard P t) h (sessionBind uid t.origin.ctx) Q := by
  simp only [sessionBind, call, sat_bind, sat_perform, Guard, true_and]
  refine ⟨hv, ?_⟩
  rintro (_ | old)
  · exact hQ _ (by simp [hq, Call.quiet])
  simp only [sat_bind, sat_perform, Guard, true_and]
  intro fd
  split_ifs
  · simp only [sat_bind, sat_perform, Guard, true_and]
    refine fun fd' => ⟨⟨uid, by simp⟩, fun _ => ⟨⟨hv.mono (by simp), old, by simp⟩, fun _ => ?_⟩⟩
    exact hQ _ (by simp [hq, Call.quiet])
  · simp only [sat_perform, Guard, true_and]
    exact ⟨⟨hv.mono (by simp), old, by simp⟩, fun _ => hQ _ (by simp [hq, Call.quiet])⟩

/-- The loop over the stored messages queues them in the order of the query. -/
theorem deliverOffline_guard (uid : Int) (rows : List DBChatMessage)
    (hr : window h = some (uid, rows)) (hi : offlineIds h = [])
    {Q : List (Event Reply) → Unit → Prop}
    (hQ : ∀ h', window h' = some (uid, rows) → offlineIds h' = rows.map DBChatMessage.id → Q h' ()) :
    Sat (Guard P t) h (rows.forM (deliverOffline P t.origin)) Q := by
  -- the messages queued and those to come are the rows
  let I (h' : List (Event Reply)) (rest : List DBChatMessage) : Prop :=
    window h' = some (uid, rows) ∧
      offlineIds h' ++ rest.map DBChatMessage.id = rows.map DBChatMessage.id
  refine (sat_forM I _ (fun h' m rest hI => ?_) rows h ⟨hr, by simp [hi]⟩).mono (fun _ _ hg => hg)
    fun h' _ hI => hQ h' hI.1 (by simpa using hI.2)
  obtain ⟨hm, hp⟩ := hI
  simp only [deliverOffline, call, sat_bind, sat_perform, Guard, true_and]
  refine fun now => ⟨⟨uid, rows, (window_snoc ..).trans hm,
    rest.map DBChatMessage.id, ?_⟩, fun _ => ⟨?_, ?_⟩⟩
  · simpa [offlineIds_append, offlineIds, offlineId] using hp
  · rw [window_snoc, window_snoc]
    exact hm
  · simpa [offlineIds_append, offlineIds, offlineId] using hp

theorem deliverOfflineMessages_guard (uid : Int) (hl : t.isLogin) (hq : Quiet h)
    {Q : List (Event Reply) → Except Unit Unit → Prop} (hQ : ∀ h r, window h = none → Q h r) :
    Sat (Guard P t) h (deliverOfflineMessages P t.origin uid).run Q := by
  simp only [deliverOfflineMessages, sys, store, call, sat_run_bind, sat_run_lift, sat_perform, Guard,
    true_and]
  rintro (_ | _)
  · exact hQ _ _ (by rw [window_snoc]; exact hq.window)
  simp only [if_true, sat_run_bind, sat_run_mk, sat_perform]
  refine ⟨⟨hl, by simp [hq, Call.quiet]⟩, ?_⟩
  rintro (_ | rows)
  · exact hQ _ _ (by rw [window_snoc, window_snoc]; exact hq.window)
  simp only
  split_ifs with hne
  · simp only [run, sat_run_bind, sat_run_lift, sat_run_mk, sat_perform]
    refine deliverOffline_guard uid rows ?_ ?_ fun h' hr hi => ?_
    · rw [window_snoc]
      exact if_neg hne
    · rw [offlineIds_append, offlineIds_append, hq.offlineIds]
      rfl
    · exact ⟨⟨rfl, rows, hr, hi⟩, fun _ => hQ _ _ (by rw [window_snoc]; rfl)⟩
  · refine hQ _ _ ?_
    rw [window_snoc]
    exact if_pos (not_not.mp hne)

/-- A `LOGIN` marks the stored messages that it has been given before it ends. -/
theorem handleLogin_guard (o : Origin) (hc : hdr.cmd = CmdType.login.code) :
    Sat (Guard P (.business o hdr body)) [] (handleLogin P o hdr body).run
      fun h _ => window h = none := by
  unfold handleLogin
  split
  · rfl
  rename_i req hreq
  -- the answer of the store goes on to the bind
  have rest : ∀ h uid, Quiet h →
      (0 < uid → Verified P (.business o hdr body) h uid) →
      Sat (Guard P (.business o hdr body)) h (if 0 < uid then (do
          run (sessionBind uid o.ctx)
          deliverOfflineMessages P o uid
          run (reply P o hdr { success := true, uid := uid, msg := "login success" }) : Biz Unit)
        else run (reply P o hdr { msg := "用户名或密码错误" })).run fun h _ => window h = none := by
    intro h uid hq hv
    split_ifs with h0
    · simp only [run, sat_run_bind, sat_run_lift]
      refine sessionBind_guard (t := .business o hdr body) (hv h0) hq fun h' hq' => ?_
      refine deliverOfflineMessages_guard (t := .business o hdr body) uid hc hq' ?_
      rintro h'' (_ | _) hw
      · exact hw
      · exact reply_guard (t := .business o hdr body) _ fun e => (window_snoc ..).trans hw
    · simp only [run, sat_run_lift]
      exact reply_guard (t := .business o hdr body) _ fun e => (window_snoc ..).trans hq.window
  simp only [sys, call, sat_run_bind, sat_run_lift, sat_perform, Guard, true_and]
  rintro (_ | _)
  · exact rest [⟨.dbWriter, false⟩] (-1) (by simp [Call.quiet]) (by omega)
  · simp only [if_true, store, sat_run_bind, sat_run_mk, sat_perform, Guard, true_and]
    rintro (_ | uid)
    · rfl
    · exact rest _ uid (by simp [Call.quiet]) fun h0 => .inl ⟨hc, h0, req, hreq, by simp⟩

theorem submitStreamRequest_guard (uid : Int) (prompt : Bytes) {Q : List (Event Reply) → Bool → Prop}
    (hQ : ∀ h b, Q h b) : Sat (Guard P t) h (submitStreamRequest t.origin uid prompt) Q := by
  simp only [submitStreamRequest, call, sat_bind, sat_perform, Guard, true_and]
  intro w
  split_ifs
  · exact hQ _ _
  simp only [sat_bind, sat_perform, Guard, true_and]
  intro fd
  split_ifs
  · exact hQ _ _
  · simp only [sat_bind, sat_perform, Guard, true_and]
    exact fun now r => hQ _ _

theorem handleAiChat_guard (msg : ChatMessage) :
    Sat (Guard P t) h (handleAiChat P t.origin hdr msg).run fun _ _ => True := by
  simp only [handleAiChat, sys, call, sat_run_bind, sat_run_lift, sat_perform, Guard, true_and]
  intro uid
  rw [run, sat_run_lift]
  refine submitStreamRequest_guard uid _ fun h' b => ?_
  dsimp only
  split_ifs
  · exact runReply_guard _
  · trivial

theorem forwardChat_guard (msg : ChatMessage) (target : ℕ)
    (hg : ⟨.sessionGet msg.toUid, some target⟩ ∈ h) :
    Sat (Guard P t) h (forwardChat P t.origin hdr msg target).run fun _ _ => True := by
  simp only [forwardChat, reply, sys, run, call, sat_run_bind, sat_run_lift, sat_perform, Guard,
    true_and]
  refine fun uid => ⟨by simp [hg], fun _ ackUid _ => ?_⟩
  rintro (_ | _)
  · trivial
  · simp only [if_true, sat_run_bind, sat_run_lift, sat_perform, Guard, true_and]
    exact fun uid' => ⟨fun _ => ⟨target, msg, uid, by simp⟩, fun _ => trivial⟩

theorem storeChat_guard (msg : ChatMessage) :
    Sat (Guard P t) h (storeChat P t.origin hdr msg).run fun _ _ => True := by
  simp only [storeChat, reply, sys, run, call, sat_run_bind, sat_run_lift, sat_perform, Guard,
    true_and]
  rintro (_ | _)
  · simp only [Bool.false_eq_true, if_false, sat_run_bind, sat_run_lift, sat_perform, Guard, true_and,
      implies_true]
  · simp only [if_true, sat_run_bind, sat_run_lift, sat_perform, Guard, true_and, Bool.false_eq_true,
      false_imp_iff, implies_true]

theorem handleChat_guard : Sat (Guard P t) h (handleChat P t.origin hdr body).run fun _ _ => True := by
  unfold handleChat
  split
  · trivial
  split_ifs
  · exact handleAiChat_guard _
  · simp only [sys, call, sat_run_bind, sat_run_lift, sat_perform, Guard, true_and]
    rintro (_ | target)
    · exact storeChat_guard _
    · exact forwardChat_guard _ target (by simp)

theorem handleRegister_guard (o : Origin) (hc : hdr.cmd = CmdType.register.code) :
    Sat (Guard P (.business o hdr body)) [] (handleRegister P o hdr body).run fun _ _ => True := by
  unfold handleRegister
  split
  · trivial
  rename_i req hreq
  split_ifs
  · exact runReply_guard (t := .business o hdr body) _
  refine sat_withWriter trivial (runReply_guard (t := .business o hdr body) _) ?_
  simp only [store, call, sat_run_bind, sat_run_mk, sat_perform, Guard, true_and]
  rintro (_ | uid)
  · trivial
  dsimp only
  split_ifs
  · exact runReply_guard (t := .business o hdr body) _
  · exact runReply_guard (t := .business o hdr body) _
  · simp only [run, sat_run_bind, sat_run_lift]
    refine sessionBind_guard (t := .business o hdr body) (.inr ⟨hc, by omega, req, hreq, by simp⟩)
      (by simp [Call.quiet]) fun h' _ => ?_
    exact reply_guard (t := .business o hdr body) _ fun _ => trivial

theorem handleHeartbeat_guard :
    Sat (Guard P t) h (handleHeartbeat P t.origin hdr).run fun _ _ => True := by
  simp only [handleHeartbeat, sys, call, sat_run_bind, sat_run_lift, sat_perform, Guard, true_and]
  exact fun _ => runReply_guard _

theorem notifyFriend_guard (uid : Int) (text : String)
    {Q : List (Event Reply) → Except Unit Unit → Prop} (hQ : ∀ h r, Q h r) :
    Sat (Guard P t) h (notifyFriend P uid text).run Q := by
  simp only [notifyFriend, sys, call, sat_run_bind, sat_run_lift, sat_perform, Guard, true_and]
  rintro (_ | target)
  · exact hQ _ _
  · simp only [sat_run_lift, sat_perform, Guard]
    exact ⟨by simp, fun _ => hQ _ _⟩

theorem notify_reply_guard (uid : Int) (text : String) (r : Response) :
    Sat (Guard P t) h (do notifyFriend P uid text; run (reply P t.origin hdr r) : Biz Unit).run
      fun _ _ => True := by
  rw [sat_run_bind]
  refine notifyFriend_guard _ _ ?_
  rintro h' (_ | _)
  · trivial
  · exact runReply_guard _

theorem handleAddFriend_guard :
    Sat (Guard P t) h (handleAddFriend P t.origin hdr body).run fun _ _ => True := by
  unfold handleAddFriend
  split
  · trivial
  refine (sat_run_sys (.loadUid t.origin.ctx) _).mpr ⟨trivial, fun uid => ?_⟩
  split_ifs
  · exact runReply_guard _
  refine sat_withWriter trivial (runReply_guard _) ?_
  simp only [store, call, sat_run_bind, sat_run_mk, sat_perform, Guard, true_and]
  rintro (_ | ret)
  · trivial
  dsimp only
  split_ifs
  · exact runReply_guard _
  · exact runReply_guard _
  · exact runReply_guard _
  · exact notify_reply_guard _ _ _

theorem handleAcceptFriend_guard :
    Sat (Guard P t) h (handleAcceptFriend P t.origin hdr body).run fun _ _ => True := by
  unfold handleAcceptFriend
  split
  · trivial
  refine (sat_run_sys (.loadUid t.origin.ctx) _).mpr ⟨trivial, fun uid => ?_⟩
  refine sat_withWriter trivial (runReply_guard _) ?_
  simp only [store, call, sat_run_bind, sat_run_mk, sat_perform, Guard, true_and]
  rintro (_ | ret)
  · trivial
  dsimp only
  split_ifs
  · exact runReply_guard _
  · exact notify_reply_guard _ _ _

theorem withOnline_guard (users : List (Int × String))
    {Q : List (Event Reply) → List FriendInfo → Prop} (hQ : ∀ h l, Q h l) :
    Sat (Guard P t) h (withOnline users) Q := by
  induction users generalizing h Q with
  | nil => exact hQ _ _
  | cons u us ih =>
      simp only [withOnline, call, sat_bind, sat_perform, Guard, true_and]
      exact fun _ => ih fun _ _ => hQ _ _

theorem replyUsers_guard (cmd : CmdType) (users : List (Int × String)) :
    Sat (Guard P t) h (replyUsers P t.origin hdr cmd users).run fun _ _ => True := by
  simp only [replyUsers, run, sys, call, sat_run_bind, sat_run_lift]
  refine withOnline_guard users fun h' infos => ?_
  simp only [sat_perform, Guard, true_and, implies_true]

theorem handleFriendList_guard :
    Sat (Guard P t) h (handleFriendList P t.origin hdr).run fun _ _ => True := by
  unfold handleFriendList
  refine sat_withWriter trivial (runReply_guard _) ?_
  simp only [sys, store, call, sat_run_bind, sat_run_lift, sat_run_mk, sat_perform, Guard, true_and]
  rintro uid (_ | users)
  · trivial
  · exact replyUsers_guard _ _

theorem handleSearchUser_guard :
    Sat (Guard P t) h (handleSearchUser P t.origin hdr body).run fun _ _ => True := by
  unfold handleSearchUser
  split
  · trivial
  refine sat_withWriter trivial (runReply_guard _) ?_
  simp only [store, call, sat_run_bind, sat_run_mk, sat_perform, Guard, true_and]
  rintro (_ | users)
  · trivial
  · exact replyUsers_guard _ _

theorem handleFriendRequests_guard :
    Sat (Guard P t) h (handleFriendRequests P t.origin hdr).run fun _ _ => True := by
  unfold handleFriendRequests
  refine sat_withWriter trivial (runReply_guard _) ?_
  simp only [sys, store, call, sat_run_bind, sat_run_lift, sat_run_mk, sat_perform, Guard, true_and]
  rintro uid (_ | requests)
  · trivial
  · simp only [implies_true]

theorem dispatch_guard (o : Origin)
    (hlogin : hdr.cmd ≠ CmdType.chat.code → h = []) :
    Sat (Guard P (.business o hdr body)) h (dispatch P o hdr body).run
      fun h _ => hdr.cmd = CmdType.login.code → window h = none := by
  have other : ∀ {p : Biz Unit}, hdr.cmd ≠ CmdType.login.code →
      Sat (Guard P (.business o hdr body)) h p.run (fun _ _ => True) →
      Sat (Guard P (.business o hdr body)) h p.run
        fun h _ => hdr.cmd = CmdType.login.code → window h = none :=
    fun hn hs => hs.mono (fun _ _ hg => hg) fun _ _ _ hc => absurd hc hn
  unfold dispatch
  split_ifs with h1 h2 h3
  · rw [hlogin (by rw [h1]; decide)]
    exact (handleLogin_guard o h1).mono (fun _ _ hg => hg) fun _ _ hw _ => hw
  · exact other h1 (handleChat_guard (t := .business o hdr body))
  · rw [hlogin h2]
    exact (handleRegister_guard o h3).mono (fun _ _ hg => hg) fun _ _ _ hc => absurd hc h1
  · exact other h1 (handleHeartbeat_guard (t := .business o hdr body))
  · exact other h1 (handleAddFriend_guard (t := .business o hdr body))
  · exact other h1 (handleAcceptFriend_guard (t := .business o hdr body))
  · exact other h1 (handleFriendList_guard (t := .business o hdr body))
  · exact other h1 (handleSearchUser_guard (t := .business o hdr body))
  · exact other h1 (handleFriendRequests_guard (t := .business o hdr body))
  · exact fun hc => absurd hc h1

theorem processBusiness_guard (o : Origin) :
    Sat (Guard P (.business o hdr body)) [] (processBusiness P o hdr body)
      fun h _ => hdr.cmd = CmdType.login.code → window h = none := by
  have body_guard : Sat (Guard P (.business o hdr body)) [] (businessBody P o hdr body).run
      fun h _ => hdr.cmd = CmdType.login.code → window h = none := by
    unfold businessBody
    split_ifs with hc
    · have hn : hdr.cmd ≠ CmdType.login.code := by rw [hc]; decide
      simp only [sys, call, sat_run_bind, sat_run_lift, sat_perform, Guard, true_and]
      intro now late
      split_ifs
      · exact (runReply_guard (t := .business o hdr body) _).mono (fun _ _ hg => hg)
          fun _ _ _ hl => absurd hl hn
      · exact dispatch_guard o fun hn => absurd hc hn
    · exact dispatch_guard o fun _ => rfl
  rw [processBusiness, sat_bind]
  refine body_guard.mono (fun _ _ hg => hg) ?_
  rintro h' (_ | _) hw
  · exact reply_guard (t := .business o hdr body) _ fun e hl => (window_snoc ..).trans (hw hl)
  · exact hw

end Handlers

/-! ## AI streams -/

section Stream

/-- The calls of `process_stream_request`. -/
def Call.ofStream (req : StreamRequest) : Call → Prop
  | .ownerWorker _ | .systemClock | .loadFd _ | .nextClient | .eraseStream _ => True
  | .queueSendPacket x _ _ _ .chunk => x = req.origin.ctx
  | _ => False

/-- The calls of a stream between the draw of its client and its end. -/
def Call.ofTransfer (req : StreamRequest) : Call → Prop
  | .ownerWorker _ | .systemClock | .loadFd _ => True
  | .queueSendPacket x _ _ _ .chunk => x = req.origin.ctx
  | _ => False

variable {P : Params} {req : StreamRequest} {h : List (Event Reply)}

theorem sendStreamChunk_calls (chunk : Bytes) (isLast : Bool) (streamSeq : Int)
    {Q : List (Event Reply) → Unit → Prop} (hQ : ∀ h, Q h ()) :
    Sat (fun _ a => a.ofTransfer req) h (sendStreamChunk P req chunk isLast streamSeq) Q := by
  simp only [sendStreamChunk, call, sat_bind, sat_perform, Call.ofTransfer, true_and]
  intro w
  split_ifs
  · exact hQ _
  · exact hQ _
  · simp only [sat_bind, sat_perform, true_and]
    exact fun _ _ => hQ _

theorem onChunks_calls (chunks : List (Bytes × Bool)) (b : StreamBuf)
    {Q : List (Event Reply) → StreamBuf → Prop} (hQ : ∀ h b, Q h b) :
    Sat (fun _ a => a.ofTransfer req) h (onChunks P req chunks b) Q := by
  induction chunks generalizing h b with
  | nil => exact hQ _ _
  | cons c rest ih =>
      obtain ⟨chunk, late⟩ := c
      simp only [onChunks, call, sat_bind, sat_perform, Call.ofTransfer, true_and]
      intro fd
      split_ifs
      · exact ih _
      · rw [sat_bind]
        exact sendStreamChunk_calls _ _ _ fun _ => ih _
      · exact ih _

theorem onComplete_calls (b : StreamBuf) {Q : List (Event Reply) → StreamBuf → Prop}
    (hQ : ∀ h b, Q h b) : Sat (fun _ a => a.ofTransfer req) h (onComplete P req b) Q := by
  simp only [onComplete, call, sat_bind, sat_perform, Call.ofTransfer, true_and]
  intro fd
  split_ifs
  · exact hQ _ _
  · rw [sat_bind]
    exact sendStreamChunk_calls _ _ _ fun _ => hQ _ _

theorem sendPieces_calls (ps : List Bytes) (streamSeq : Int)
    {Q : List (Event Reply) → Unit → Prop} (hQ : ∀ h, Q h ()) :
    Sat (fun _ a => a.ofTransfer req) h (sendPieces P req ps streamSeq) Q := by
  induction ps generalizing h streamSeq with
  | nil => exact hQ _
  | cons p rest ih =>
      simp only [sendPieces, call, sat_bind, sat_perform, Call.ofTransfer, true_and]
      intro fd
      split_ifs
      · rw [sat_bind]
        exact sendStreamChunk_calls _ _ _ fun _ => ih _
      · exact ih _

/-- The stream is not over: its entry has not been erased. -/
def Going (h : List (Event Reply)) : Prop := ∀ e ∈ h, ∀ x, e.1 ≠ .eraseStream x

/-- What has come before a call of a stream: the erase of its entry is the last call, and the client is
drawn once. -/
def StreamGuard (req : StreamRequest) (h : List (Event Reply)) (a : Call) : Prop :=
  a.ofStream req ∧ Going h ∧ (∀ x, a = .eraseStream x → x = req.origin.ctx) ∧
    (a = .nextClient → ∀ e ∈ h, e.1 ≠ .nextClient)

theorem ofTransfer_guard {a : Call} (ha : a.ofTransfer req) (hg : Going h) :
    StreamGuard req h a ∧ ∀ r, Going (h ++ [⟨a, r⟩]) := by
  have hne : ∀ x, a ≠ .eraseStream x := by
    rintro x rfl
    exact ha
  refine ⟨⟨?_, hg, fun x e => absurd e (hne x), ?_⟩, fun r =>
    List.forall_mem_append.mpr ⟨hg, List.forall_mem_singleton.mpr hne⟩⟩
  · unfold Call.ofTransfer at ha
    split at ha
    all_goals first | exact ha | trivial
  · rintro rfl
    exact absurd ha id

/-- **A stream ends with the erase of its entry**, and only so. -/
theorem processStreamRequest_guard (script : Script) :
    Sat (StreamGuard req) [] (processStreamRequest P req script)
      fun h _ => ∃ e ∈ h, ∃ x, e.1 = .eraseStream x := by
  have transfer : ∀ {α : Type} {h : List (Event Reply)} {p : Prog Reply α}
      {Q : List (Event Reply) → α → Prop}, Going h →
      Sat (fun _ a => a.ofTransfer req) h p (fun _ _ => True) → (∀ h x, Going h → Q h x) →
      Sat (StreamGuard req) h p Q := fun hg hs hQ =>
    hs.keep Going hg (fun _ _ ha hg => (ofTransfer_guard ha hg).1)
      (fun _ _ r ha hg => (ofTransfer_guard ha hg).2 r) hQ
  have ends : ∀ {h : List (Event Reply)}, Going h →
      Sat (StreamGuard req) h (call (.eraseStream req.origin.ctx))
        fun h _ => ∃ e ∈ h, ∃ x, e.1 = .eraseStream x := by
    intro h hg
    rw [call, sat_perform]
    refine ⟨⟨trivial, hg, fun x e => ?_, fun e => by cases e⟩, fun r => ?_⟩
    · exact (Call.eraseStream.inj e).symm
    · exact ⟨⟨.eraseStream req.origin.ctx, r⟩, by simp, _, rfl⟩
  have fin : ∀ h (b : StreamBuf), Going h → Sat (StreamGuard req) h (do
      if script.success = false ∧ b.connLost = false then
        sendPieces P req (pieces (generateFallbackResponse req.prompt script.localTime)) b.streamSeq
      call (.eraseStream req.origin.ctx)) fun h _ => ∃ e ∈ h, ∃ x, e.1 = .eraseStream x := by
    intro h b hg
    split_ifs
    · rw [sat_bind]
      exact transfer hg (sendPieces_calls _ _ fun _ => trivial) fun _ _ hg => ends hg
    · exact ends hg
  have going : ∀ fd k, Going [⟨.loadFd req.origin.ctx, fd⟩, ⟨.nextClient, k⟩] := by
    intro fd k e he x hx
    simp only [List.mem_cons, List.not_mem_nil, or_false] at he
    rcases he with rfl | rfl <;> cases hx
  simp only [processStreamRequest, call, sat_bind, sat_perform]
  refine ⟨⟨trivial, by simp [Going], by simp, by simp⟩, fun fd => ?_⟩
  split_ifs with hfd hs
  · exact ends (by simp [Going])
  all_goals
    simp only [sat_bind, sat_perform]
    refine ⟨⟨trivial, by simp [Going], by simp, by simp⟩, fun k => ?_⟩
    refine transfer (going fd k) (onChunks_calls _ _ fun _ _ => trivial) fun h b hg => ?_
  · exact transfer hg (onComplete_calls _ fun _ _ => trivial) fun h b hg => fin h b hg
  · exact fin h b hg

theorem processStreamRequest_calls (script : Script) :
    Sat (fun _ a => a.ofStream req) [] (processStreamRequest P req script) fun _ _ => True :=
  (processStreamRequest_guard script).mono (fun _ _ hg => hg.1) fun _ _ _ => trivial

theorem guard_of_ofStream {a : Call} (ha : a.ofStream req) : Guard P (.stream req) h a := by
  unfold Call.ofStream at ha
  split at ha
  all_goals first | exact ha | trivial

end Stream

/-- **The program of every task is guarded**, and a `LOGIN` ends with nothing left to mark. -/
theorem task_guard (P : Params) (t : Task) (script : Script) :
    Sat (Guard P t) [] (t.prog P script) fun h _ => t.isLogin → window h = none := by
  cases t with
  | business o hdr body => exact processBusiness_guard o
  | stream req =>
      exact (processStreamRequest_calls script).mono (fun _ _ ha => guard_of_ofStream ha)
        fun _ _ _ hl => absurd hl id

end AuraChat
