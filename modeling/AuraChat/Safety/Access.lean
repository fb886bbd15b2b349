import AuraChat.Model.Sample
import AuraChat.Server.Footprint

set_option autoImplicit false

/-!
# What a client can do without a login

`process_business` never reads `logged_in`. A packet of a client that has not logged in is handled
like any other: a chat message is forwarded and stored, or given to the AI manager, and friend
requests are sent and accepted under the uid of the context (`stranger_acts`). The other commands
leave nothing behind, and of the three that do we say exactly what.

* `asks`: the request that a packet makes, if it passes the checks of its handler;
* `Acts`: what is done for a request;
* **`business_footprint`**: what a packet other than `LOGIN` and `REGISTER` does.
-/

namespace AuraChat

open Interleave Prog

variable {P : Params} {o : Origin} {hdr : PacketHeader} {body : Bytes}

/-! ## Requests -/

/-- The context in which a user is online. -/
def State.onlineCtx (s : State) (uid : Int) : List ℕ := ((s.sessions uid).map Session.ctx).toList

/-- Who is told about a friend request, by the answer of the store: nobody when it was refused. -/
def State.notified (s : State) (answer uid : Int) : List ℕ :=
  if answer < 0 then [] else s.onlineCtx uid

/-- What a packet can ask for. -/
inductive Request
  | ai (msg : ChatMessage)
  | chat (msg : ChatMessage)
  | addFriend (req : AddFriendRequest)
  | acceptFriend (req : AcceptFriendRequest)

/-- What a packet asks for: a chat message within the rate limit at the time `now`, a friend request
to another uid than that of the context, or the acceptance of a friend request. -/
def asks (P : Params) (o : Origin) (hdr : PacketHeader) (body : Bytes) (now : Int) (s : State) :
    Option Request :=
  if hdr.cmd = CmdType.chat.code then
    if ((s.net.ctxs o.ctx).rateTick P.cfg now).2 then none
    else (P.codec.parseChatMessage body).map fun msg =>
      if msg.toUid = 9999 then .ai msg else .chat msg
  else if hdr.cmd = CmdType.addFriend.code then
    (P.codec.parseAddFriendRequest body).bind fun req =>
      if req.toUid = (s.net.ctxs o.ctx).uid then none else some (.addFriend req)
  else if hdr.cmd = CmdType.acceptFriend.code then
    (P.codec.parseAcceptFriendRequest body).map .acceptFriend
  else none

/-- The message that the batch writer is given for a chat message. -/
def State.chatRow (s : State) (o : Origin) (msg : ChatMessage) : DBChatMessage where
  fromUid := (s.net.ctxs o.ctx).uid
  toUid := msg.toUid
  content := msg.content
  delivered := (s.sessions msg.toUid).isSome

/-- **What is done for a packet that asks for this**, under the uid of its context. -/
def Acts (o : Origin) (s s' : State) : Option Request → Prop
  | none => Footprint s s.db s.ai [] [o.ctx] s'
  | some (.ai msg) => ∃ time, Footprint s s.db
      (if (s.net.ctxs o.ctx).fd < 0 then s.ai
        else (s.ai.enqueue (s.net.ctxs o.ctx).fd ⟨o, (s.net.ctxs o.ctx).uid, msg.content, time⟩).2)
      [] [o.ctx] s'
  | some (.chat msg) => Footprint s (s.db.submit (s.chatRow o msg)) s.ai [.submit (s.chatRow o msg)]
      (o.ctx :: s.onlineCtx msg.toUid) s'
  | some (.addFriend req) => ∃ answer,
      (s.db.useFileStorage = true →
        answer = (s.db.addFriendRequest (s.net.ctxs o.ctx).uid req.toUid req.message).1) ∧
      Footprint s (requested (s.net.ctxs o.ctx).uid req.toUid req.message s.db) s.ai
        [.addFriendRequest (s.net.ctxs o.ctx).uid req.toUid req.message]
        (o.ctx :: s.notified answer req.toUid) s'
  | some (.acceptFriend req) => ∃ answer,
      (s.db.useFileStorage = true →
        answer = (s.db.acceptFriendRequest req.requestId (s.net.ctxs o.ctx).uid).1) ∧
      Footprint s (accepted req.requestId (s.net.ctxs o.ctx).uid s.db) s.ai
        [.acceptFriendRequest req.requestId (s.net.ctxs o.ctx).uid]
        (o.ctx :: s.notified answer answer) s'

section Handlers

variable {s s₁ : State} {db : Store} {ai : AIManager} {calls : List Call} {xs : List ℕ} {σ : ℕ → Ext}

theorem wp_withOnline (us : List (Int × String)) (hf : Footprint s db ai calls xs s₁)
    {Q : List FriendInfo → (ℕ → Ext) → State → Prop}
    (hQ : ∀ infos σ s₂, Footprint s db ai calls xs s₂ → Q infos σ s₂) :
    wp (actRecorded P o) (withOnline us) Q σ s₁ := by
  induction us generalizing σ s₁ Q with
  | nil => exact hQ _ _ _ hf
  | cons u us ih =>
      simp only [withOnline, wp_bind]
      refine wp_read hf rfl fun target σ s₂ _ hf => ?_
      rw [wp_bind]
      exact ih hf fun infos σ s₃ hf => hQ _ _ _ hf

theorem wp_replyUsers (cmd : CmdType) (us : List (Int × String)) (hx : o.ctx ∈ xs)
    (hf : Footprint s db ai calls xs s₁) :
    wp (actRecorded P o) (replyUsers P o hdr cmd us).run
      (fun _ _ s' => Footprint s db ai calls xs s') σ s₁ := by
  simp only [replyUsers, run, sys, wp_run_bind, wp_run_lift]
  exact wp_withOnline us hf fun infos σ s₂ hf => wp_send hf hx _ _ _ _ fun _ _ hf => hf

theorem wp_notifyFriend (uid : Int) (text : String) (hf : Footprint s db ai calls xs s₁)
    (hx : s.onlineCtx uid ⊆ xs) {Q : Except Unit Unit → (ℕ → Ext) → State → Prop}
    (hQ : ∀ σ s₂, Footprint s db ai calls xs s₂ → Q (.ok ()) σ s₂) :
    wp (actRecorded P o) (notifyFriend P uid text).run Q σ s₁ := by
  simp only [notifyFriend, sys, wp_run_bind, wp_run_lift]
  refine wp_read hf rfl fun target σ s₂ htarget hf => ?_
  rcases target with _ | target
  · exact hQ _ _ hf
  · simp only [wp_run_lift]
    refine wp_send hf (hx ?_) _ _ _ _ hQ
    rw [State.onlineCtx, ← htarget]
    exact List.mem_singleton_self target

theorem handleAiChat_acts (msg : ChatMessage) (hf : Footprint s s.db s.ai [] [o.ctx] s₁) :
    wp (actRecorded P o) (handleAiChat P o hdr msg).run
      (fun _ _ s' => Acts o s s' (some (.ai msg))) σ s₁ := by
  have hmem : o.ctx ∈ [o.ctx] := List.mem_singleton_self _
  simp only [handleAiChat, submitStreamRequest, sys, run, wp_run_bind, wp_run_lift, wp_bind]
  refine wp_read hf rfl fun uid σ s₂ huid hf => wp_read hf rfl fun w σ s₃ hw hf => ?_
  obtain rfl : uid = _ := huid
  obtain rfl : w = _ := hw
  split_ifs with hnull
  · simp only [wp_pure, Bool.not_false, if_true, wp_run_lift]
    exact wp_reply_null hf (Option.isNone_iff_eq_none.mp hnull) _
  simp only [wp_bind]
  refine wp_read hf rfl fun fd σ s₄ hfd hf => ?_
  obtain rfl : fd = _ := hfd
  split_ifs with hneg
  · simp only [wp_pure, Bool.not_false, if_true, wp_run_lift]
    refine wp_reply hf hmem _ fun σ s₅ hf => ⟨0, ?_⟩
    rw [if_pos hneg]
    exact hf
  simp only [wp_bind]
  refine wp_read hf rfl fun time σ s₅ _ hf => wp_aiEnqueue hf _ _ fun b σ s₆ hf => ?_
  cases b with
  | false =>
      simp only [Bool.not_false, if_true, wp_run_lift]
      refine wp_reply hf hmem _ fun σ s₇ hf => ⟨time, ?_⟩
      rw [if_neg hneg]
      exact hf
  | true =>
      refine ⟨time, ?_⟩
      rw [if_neg hneg]
      exact hf

theorem chatRow_eq {msg : ChatMessage} {target : Option ℕ}
    (h : Answer s (.sessionGet msg.toUid) target) :
    s.chatRow o msg = ⟨0, (s.net.ctxs o.ctx).uid, msg.toUid, msg.content, target.isSome⟩ := by
  rw [State.chatRow, show target = _ from h, Option.isSome_map]

theorem handleChat_acts (hf : Footprint s s.db s.ai [] [o.ctx] s₁) :
    wp (actRecorded P o) (handleChat P o hdr body).run
      (fun _ _ s' => Acts o s s' ((P.codec.parseChatMessage body).map fun msg =>
        if msg.toUid = 9999 then .ai msg else .chat msg)) σ s₁ := by
  unfold handleChat
  split
  · rename_i hparse
    rw [hparse]
    exact hf
  rename_i msg hparse
  rw [hparse, Option.map_some]
  split_ifs with hai
  · exact handleAiChat_acts msg hf
  have hmem : o.ctx ∈ o.ctx :: s.onlineCtx msg.toUid := List.mem_cons_self
  simp only [sys, wp_run_bind, wp_run_lift]
  refine wp_read (hf.widen (s.onlineCtx msg.toUid)) rfl fun target σ s₂ htarget hf => ?_
  rcases target with _ | target
  · -- the user is offline
    simp only [storeChat, sys, run, wp_run_bind, wp_run_lift]
    refine wp_read hf rfl fun b σ s₃ hb hf => ?_
    obtain rfl : b = true := hb
    simp only [if_true, wp_run_bind, wp_run_lift]
    refine wp_read hf rfl fun uid σ s₄ huid hf => wp_submit hf _ fun σ s₅ hf => ?_
    refine wp_read hf rfl fun ackUid σ s₆ _ hf => wp_reply hf hmem _ fun σ s₇ hf => ?_
    rw [Acts, chatRow_eq htarget, ← huid]
    exact hf
  · simp only [forwardChat, sys, run, wp_run_bind, wp_run_lift]
    have hto : target ∈ o.ctx :: s.onlineCtx msg.toUid := by
      rw [State.onlineCtx, ← htarget]
      exact List.mem_cons_of_mem _ (List.mem_singleton_self target)
    refine wp_read hf rfl fun fromUid σ s₃ _ hf => wp_send hf hto _ _ _ _ fun σ s₄ hf => ?_
    refine wp_read hf rfl fun ackUid σ s₅ _ hf => wp_reply hf hmem _ fun σ s₆ hf => ?_
    refine wp_read hf rfl fun b σ s₇ hb hf => ?_
    obtain rfl : b = true := hb
    simp only [if_true, wp_run_bind, wp_run_lift]
    refine wp_read hf rfl fun uid σ s₈ huid hf => wp_submit hf _ fun σ s₉ hf => ?_
    rw [Acts, chatRow_eq htarget, ← huid]
    exact hf

theorem handleAddFriend_acts (hf : Footprint s s.db s.ai [] [o.ctx] s₁) :
    wp (actRecorded P o) (handleAddFriend P o hdr body).run
      (fun _ _ s' => Acts o s s' ((P.codec.parseAddFriendRequest body).bind fun req =>
        if req.toUid = (s.net.ctxs o.ctx).uid then none else some (.addFriend req))) σ s₁ := by
  unfold handleAddFriend
  split
  · rename_i hparse
    rw [hparse]
    exact hf
  rename_i req hparse
  have hmem : o.ctx ∈ [o.ctx] := List.mem_singleton_self _
  rw [hparse, Option.bind_some]
  simp only [sys, wp_run_bind, wp_run_lift]
  refine wp_read hf rfl fun uid σ s₂ huid hf => ?_
  obtain rfl : uid = _ := huid
  split_ifs with hself
  · exact wp_runReply hf hmem _
  simp only [wp_run_bind, wp_run_lift]
  refine wp_read hf rfl fun b σ s₃ hb hf => ?_
  obtain rfl : b = true := hb
  simp only [Bool.not_true, Bool.false_eq_true, if_false, store, wp_run_bind, wp_run_mk]
  refine wp_addFriendRequest hf _ _ _ fun r σ s₄ hr hf => ?_
  rcases r with _ | ret
  · exact ⟨_, fun _ => rfl, hf.widen _⟩
  -- every way on ends in a reply
  refine wp_mono _ (Q := fun _ _ s' => Footprint s _ s.ai _ (o.ctx :: s.notified ret req.toUid) s') ?_
    fun _ _ _ hf => ⟨ret, hr ret rfl, hf⟩
  have hmem' : o.ctx ∈ o.ctx :: s.notified ret req.toUid := List.mem_cons_self
  replace hf := hf.widen (s.notified ret req.toUid)
  split_ifs with h2 h3 hneg
  · exact wp_runReply hf hmem' _
  · exact wp_runReply hf hmem' _
  · exact wp_runReply hf hmem' _
  · simp only [run, wp_run_bind, wp_run_lift]
    refine wp_notifyFriend req.toUid _ hf ?_ fun σ s₅ hf => wp_reply hf hmem' _ fun _ _ hf => hf
    rw [State.notified, if_neg hneg]
    exact List.subset_cons_self _ _

theorem handleAcceptFriend_acts (hf : Footprint s s.db s.ai [] [o.ctx] s₁) :
    wp (actRecorded P o) (handleAcceptFriend P o hdr body).run
      (fun _ _ s' => Acts o s s' ((P.codec.parseAcceptFriendRequest body).map .acceptFriend))
      σ s₁ := by
  unfold handleAcceptFriend
  split
  · rename_i hparse
    rw [hparse]
    exact hf
  rename_i req hparse
  rw [hparse, Option.map_some]
  simp only [sys, wp_run_bind, wp_run_lift]
  refine wp_read hf rfl fun uid σ s₂ huid hf => ?_
  obtain rfl : uid = _ := huid
  refine wp_read hf rfl fun b σ s₃ hb hf => ?_
  obtain rfl : b = true := hb
  simp only [Bool.not_true, Bool.false_eq_true, if_false, store, wp_run_bind, wp_run_mk]
  refine wp_acceptFriendRequest hf _ _ fun r σ s₄ hr hf => ?_
  rcases r with _ | ret
  · exact ⟨_, fun _ => rfl, hf.widen _⟩
  refine wp_mono _ (Q := fun _ _ s' => Footprint s _ s.ai _ (o.ctx :: s.notified ret ret) s') ?_
    fun _ _ _ hf => ⟨ret, hr ret rfl, hf⟩
  have hmem' : o.ctx ∈ o.ctx :: s.notified ret ret := List.mem_cons_self
  replace hf := hf.widen (s.notified ret ret)
  split_ifs with hneg
  · exact wp_runReply hf hmem' _
  · simp only [run, wp_run_bind, wp_run_lift]
    refine wp_notifyFriend ret _ hf ?_ fun σ s₅ hf => wp_reply hf hmem' _ fun _ _ hf => hf
    rw [State.notified, if_neg hneg]
    exact List.subset_cons_self _ _

theorem handleFriendList_inert (hf : Footprint s s.db s.ai [] [o.ctx] s₁) :
    wp (actRecorded P o) (handleFriendList P o hdr).run (fun _ _ s' => Acts o s s' none) σ s₁ := by
  simp only [handleFriendList, sys, wp_run_bind, wp_run_lift]
  refine wp_read hf rfl fun b σ s₂ hb hf => ?_
  obtain rfl : b = true := hb
  simp only [Bool.not_true, Bool.false_eq_true, if_false, store, wp_run_bind, wp_run_lift, wp_run_mk]
  refine wp_read hf rfl fun uid σ s₃ _ hf => wp_read hf rfl fun r σ s₄ _ hf => ?_
  rcases r with _ | friends
  · exact hf
  · exact wp_replyUsers _ friends (List.mem_singleton_self _) hf

theorem handleSearchUser_inert (hf : Footprint s s.db s.ai [] [o.ctx] s₁) :
    wp (actRecorded P o) (handleSearchUser P o hdr body).run (fun _ _ s' => Acts o s s' none)
      σ s₁ := by
  unfold handleSearchUser
  split
  · exact hf
  simp only [sys, wp_run_bind, wp_run_lift]
  refine wp_read hf rfl fun b σ s₂ hb hf => ?_
  obtain rfl : b = true := hb
  simp only [Bool.not_true, Bool.false_eq_true, if_false, store, wp_run_bind, wp_run_mk]
  refine wp_read hf rfl fun r σ s₃ _ hf => ?_
  rcases r with _ | users
  · exact hf
  · exact wp_replyUsers _ users (List.mem_singleton_self _) hf

theorem handleFriendRequests_inert (hf : Footprint s s.db s.ai [] [o.ctx] s₁) :
    wp (actRecorded P o) (handleFriendRequests P o hdr).run (fun _ _ s' => Acts o s s' none) σ s₁ := by
  simp only [handleFriendRequests, sys, wp_run_bind, wp_run_lift]
  refine wp_read hf rfl fun b σ s₂ hb hf => ?_
  obtain rfl : b = true := hb
  simp only [Bool.not_true, Bool.false_eq_true, if_false, store, wp_run_bind, wp_run_lift, wp_run_mk]
  refine wp_read hf rfl fun uid σ s₃ _ hf => wp_read hf rfl fun r σ s₄ _ hf => ?_
  rcases r with _ | requests
  · exact hf
  · exact wp_send hf (List.mem_singleton_self _) _ _ _ _ fun _ _ hf => hf

theorem handleHeartbeat_inert (hf : Footprint s s.db s.ai [] [o.ctx] s₁) :
    wp (actRecorded P o) (handleHeartbeat P o hdr).run (fun _ _ s' => Acts o s s' none) σ s₁ := by
  simp only [handleHeartbeat, sys, run, wp_run_bind, wp_run_lift]
  exact wp_read hf rfl fun uid σ s₂ _ hf =>
    wp_reply hf (List.mem_singleton_self _) _ fun _ _ hf => hf

theorem reply_acts {req : Option Request} (h : Acts o s s₁ req) (r : Response) :
    wp (actRecorded P o) (reply P o hdr r) (fun _ _ s' => Acts o s s' req) σ s₁ := by
  rcases req with _ | msg | msg | req | req
  · exact wp_reply h (List.mem_singleton_self _) r fun _ _ hf => hf
  · obtain ⟨time, hf⟩ := h
    exact wp_reply hf (List.mem_singleton_self _) r fun _ _ hf => ⟨time, hf⟩
  · exact wp_reply h List.mem_cons_self r fun _ _ hf => hf
  · obtain ⟨answer, ha, hf⟩ := h
    exact wp_reply hf List.mem_cons_self r fun _ _ hf => ⟨answer, ha, hf⟩
  · obtain ⟨answer, ha, hf⟩ := h
    exact wp_reply hf List.mem_cons_self r fun _ _ hf => ⟨answer, ha, hf⟩

theorem dispatch_acts (hl : hdr.cmd ≠ CmdType.login.code) (hr : hdr.cmd ≠ CmdType.register.code)
    (hc : hdr.cmd ≠ CmdType.chat.code) (now : Int) (hf : Footprint s s.db s.ai [] [o.ctx] s₁) :
    wp (actRecorded P o) (dispatch P o hdr body).run
      (fun _ _ s' => Acts o s s' (asks P o hdr body now s)) σ s₁ := by
  rw [dispatch, if_neg hl, if_neg hc, if_neg hr, asks, if_neg hc]
  by_cases hadd : hdr.cmd = CmdType.addFriend.code
  · rw [if_neg (by rw [hadd]; decide), if_pos hadd, if_pos hadd]
    exact handleAddFriend_acts hf
  rw [if_neg hadd, if_neg hadd]
  by_cases hacc : hdr.cmd = CmdType.acceptFriend.code
  · rw [if_neg (by rw [hacc]; decide), if_pos hacc, if_pos hacc]
    exact handleAcceptFriend_acts hf
  rw [if_neg hacc, if_neg hacc]
  split_ifs
  · exact handleHeartbeat_inert hf
  · exact handleFriendList_inert hf
  · exact handleSearchUser_inert hf
  · exact handleFriendRequests_inert hf
  · exact hf

theorem businessBody_acts (hl : hdr.cmd ≠ CmdType.login.code)
    (hr : hdr.cmd ≠ CmdType.register.code) :
    wp (actRecorded P o) (businessBody P o hdr body).run
      (fun _ _ s' => Acts o s s' (asks P o hdr body (σ 0).clock s)) σ s := by
  have hf := Footprint.refl s [o.ctx]
  unfold businessBody
  split_ifs with hc
  · rw [asks, if_pos hc]
    simp only [sys, run, wp_run_bind, wp_run_lift]
    refine wp_recorded fun now s₁ hact => ?_
    simp only [act, Option.some.injEq, Prod.mk.injEq] at hact
    obtain ⟨rfl, rfl⟩ := hact
    have hf₁ : Footprint s s.db s.ai [] [o.ctx]
        { s with log := .did o ⟨.steadyClock, (σ 0).clock⟩ :: s.log } := { hf with }
    refine wp_rateTick hf₁ o.ctx _ fun σ s₂ hf => ?_
    split_ifs
    · simp only [wp_run_lift]
      exact wp_reply hf (List.mem_singleton_self _) _ fun _ _ hf => hf
    · rw [dispatch, if_neg hl, if_pos hc]
      exact handleChat_acts hf
  · exact dispatch_acts hl hr hc _ hf

end Handlers

/-- No request changes the users, the stored messages or the batch of the writer. -/
theorem acts_tables {s s' : State} {req : Option Request} (h : Acts o s s' req) :
    s'.db.users = s.db.users ∧ s'.db.messages = s.db.messages ∧ s'.db.batch = s.db.batch := by
  rcases req with _ | msg | msg | req | req
  · rw [h.db]
    exact ⟨rfl, rfl, rfl⟩
  · obtain ⟨time, hf⟩ := h
    rw [hf.db]
    exact ⟨rfl, rfl, rfl⟩
  · rw [h.db]
    exact ⟨rfl, rfl, rfl⟩
  · obtain ⟨answer, -, hf⟩ := h
    rw [hf.db]
    unfold requested Store.addFriendRequest
    split_ifs <;> exact ⟨rfl, rfl, rfl⟩
  · obtain ⟨answer, -, hf⟩ := h
    rw [hf.db]
    unfold accepted Store.acceptFriendRequest
    dsimp only
    split_ifs <;> exact ⟨rfl, rfl, rfl⟩

/-- **What a packet does without a login.** The handler of a packet other than `LOGIN` and
`REGISTER` does not look at `logged_in`. It leaves the users and the stored messages as they are. A
packet that asks for nothing leaves the rest of the store, the AI manager and the sessions as they
are too, and has packets queued to its own context only; one that asks for something has that done,
and nothing else. -/
theorem business_footprint {σ : ℕ → Ext} {s s' : State} (hl : hdr.cmd ≠ CmdType.login.code)
    (hr : hdr.cmd ≠ CmdType.register.code) (h : runBusiness P o hdr body σ s = some s') :
    s'.db.users = s.db.users ∧ s'.db.messages = s.db.messages ∧ s'.db.batch = s.db.batch ∧
      Acts o s s' (asks P o hdr body (σ 0).clock s) := by
  have hacts : Acts o s s' (asks P o hdr body (σ 0).clock s) := by
    simp only [runBusiness, Option.map_eq_some_iff] at h
    obtain ⟨⟨x, s₁⟩, hx, rfl⟩ := h
    refine exec_wp (actRecorded P o) ?_ hx
      (Q := fun _ s' => Acts o s s' (asks P o hdr body (σ 0).clock s))
    rw [processBusiness, wp_bind]
    refine wp_mono _ (businessBody_acts hl hr) fun r σ s₂ h2 => ?_
    rcases r with _ | _
    · exact reply_acts h2 _
    · exact h2
  obtain ⟨husers, hmessages, hbatch⟩ := acts_tables hacts
  exact ⟨husers, hmessages, hbatch, hacts⟩

/-- Two clients connect. On the second connection user `b` logs in and sends a friend request to
uid 0. -/
def Sample.onlineB : List Label :=
  Sample.connect 5 ++ Sample.connect 6 ++ [Sample.packet 1 .login Sample.loginB] ++
    Sample.work 0 7 ++ [Sample.packet 1 .addFriend []] ++ Sample.work 0 6

/-- The first client, without a login, looks for `a`. -/
theorem business_footprint_sample : ∃ s s', RunTo Sample.params Sample.db (fun _ _ => True) s ∧
    (s.net.ctxs 2).loggedIn = false ∧
    runBusiness Sample.params ⟨2, 0, 2⟩ (Sample.header .searchUser [0x0A, 1, 0x61] 1)
      [0x0A, 1, 0x61] (fun _ => {}) s = some s' ∧
    s'.db.users = s.db.users ∧ s'.db.messages = s.db.messages ∧ s'.db.batch = s.db.batch ∧
    Footprint s s.db s.ai [] [2] s' := by
  obtain ⟨s, hr, hlog, hsome⟩ := Sample.exists_run (fun _ _ => True) Sample.onlineB
    (fun s => (s.net.ctxs 2).loggedIn = false ∧ (runBusiness Sample.params ⟨2, 0, 2⟩
      (Sample.header .searchUser [0x0A, 1, 0x61] 1) [0x0A, 1, 0x61] (fun _ => {}) s).isSome = true)
    (by decide)
  obtain ⟨s', hs'⟩ := Option.isSome_iff_exists.mp hsome
  exact ⟨s, s', hr, hlog, hs', business_footprint (by decide) (by decide) hs'⟩

/-- The first client, without a login, has a message to `b` forwarded and stored, asks the AI, makes a
friend request and accepts one. -/
theorem stranger_acts : ∃ s, RunTo Sample.params Sample.db (fun _ _ => True) s ∧
    (s.net.ctxs 2).loggedIn = false ∧
    (∃ s' ∈ runBusiness Sample.params ⟨2, 0, 2⟩ (Sample.header .chat Sample.chatToB 1)
      Sample.chatToB (fun _ => {}) s,
      s'.db.queue ≠ s.db.queue ∧ ∃ f ∈ frames s'.log, f ∉ frames s.log ∧ f.ctx ≠ 2) ∧
    (∃ s' ∈ runBusiness Sample.params ⟨2, 0, 2⟩
      (Sample.header .chat [0x10, 0x8F, 0x4E, 0x1A, 2, 0x68, 0x69] 1)
      [0x10, 0x8F, 0x4E, 0x1A, 2, 0x68, 0x69] (fun _ => {}) s, s'.ai.pending ≠ s.ai.pending) ∧
    (∃ s' ∈ runBusiness Sample.params ⟨2, 0, 2⟩ (Sample.header .addFriend [0x08, 0xE9, 0x07] 1)
      [0x08, 0xE9, 0x07] (fun _ => {}) s, s'.db.friendReqs ≠ s.db.friendReqs) ∧
    ∃ s' ∈ runBusiness Sample.params ⟨2, 0, 2⟩ (Sample.header .acceptFriend [0x08, 1] 1)
      [0x08, 1] (fun _ => {}) s, s'.db.friends ≠ s.db.friends :=
  Sample.exists_run (fun _ _ => True) Sample.onlineB _ (by decide)

end AuraChat
