import AuraChat.Server.Trace

set_option autoImplicit false

/-!
# One AI request for a packet

Only a chat message to the AI user is handed to the AI manager, and it is handed over once. Nothing
else that is done for a packet works on the state of the AI manager.

* `Unsubmitted`: no call so far hands a request over;
* **`processBusiness_submits`**: a packet is handed over at most once.
-/

namespace AuraChat

open Interleave Interleave.Prog

/-- The call works on the state of the AI manager or sends a chunk. -/
def Call.ofAi : Call → Bool
  | .aiEnqueue _ _ | .nextClient | .eraseStream _ | .queueSendPacket _ _ _ _ .chunk => true
  | _ => false

/-- No call so far hands a request to the AI manager. -/
def Unsubmitted (h : List (Event Reply)) : Prop := ∀ e ∈ h, e.1.ofAi = false

/-- A call to the AI manager hands a request over, and it is the first one. -/
def SubmitsOnce (h : List (Event Reply)) (a : Call) : Prop :=
  a.ofAi = true → (∃ fd req, a = .aiEnqueue fd req) ∧ Unsubmitted h

section Handlers

variable {P : Params} {o : Origin} {hdr : PacketHeader} {body : Bytes} {h : List (Event Reply)}

theorem reply_calls (r : Response) :
    Sat (fun _ a => a.ofAi = false) h (reply P o hdr r) fun _ _ => True := by
  simp only [reply, call, sat_perform, Call.ofAi, implies_true, and_self]

theorem runReply_calls (r : Response) :
    Sat (fun _ a => a.ofAi = false) h (run (reply P o hdr r)).run fun _ _ => True := by
  simp only [run, sat_run_lift]
  exact reply_calls r

theorem sessionBind_calls (uid : Int) (x : ℕ) {Q : List (Event Reply) → Unit → Prop}
    (hQ : ∀ h, Q h ()) : Sat (fun _ a => a.ofAi = false) h (sessionBind uid x) Q :=
  sat_sessionBind (fun _ => rfl) (fun _ _ => rfl) (fun _ _ _ => rfl) (fun _ => rfl) hQ

theorem deliverOfflineMessages_calls (uid : Int) {Q : List (Event Reply) → Except Unit Unit → Prop}
    (hQ : ∀ h r, Q h r) :
    Sat (fun _ a => a.ofAi = false) h (deliverOfflineMessages P o uid).run Q :=
  sat_deliverOfflineMessages (fun _ => rfl) (fun _ => rfl) (fun _ => rfl) (fun _ _ _ => rfl)
    (fun _ => rfl) hQ

theorem handleLogin_calls :
    Sat (fun _ a => a.ofAi = false) h (handleLogin P o hdr body).run fun _ _ => True := by
  unfold handleLogin
  split
  · trivial
  have rest : ∀ h (uid : Int), Sat (fun _ a => a.ofAi = false) h (if 0 < uid then (do
          run (sessionBind uid o.ctx)
          deliverOfflineMessages P o uid
          run (reply P o hdr { success := true, uid := uid, msg := "login success" }) : Biz Unit)
        else run (reply P o hdr { msg := "用户名或密码错误" })).run fun _ _ => True := by
    intro h uid
    split_ifs
    · rw [sat_run_bind, run, sat_run_lift]
      refine sessionBind_calls _ _ fun h' => ?_
      rw [sat_run_bind]
      refine deliverOfflineMessages_calls uid ?_
      rintro h'' (_ | _)
      · trivial
      · exact runReply_calls _
    · exact runReply_calls _
  simp only [sys, call, sat_run_bind, sat_run_lift, sat_perform, Call.ofAi, true_and]
  rintro (_ | _)
  · exact rest _ (-1)
  · simp only [if_true, store, sat_run_bind, sat_run_mk, sat_perform, true_and]
    rintro (_ | uid)
    · trivial
    · exact rest _ uid

theorem handleRegister_calls :
    Sat (fun _ a => a.ofAi = false) h (handleRegister P o hdr body).run fun _ _ => True := by
  unfold handleRegister
  split
  · trivial
  split_ifs
  · exact runReply_calls _
  refine sat_withWriter rfl (runReply_calls _) ?_
  simp only [store, call, sat_run_bind, sat_run_mk, sat_perform, Call.ofAi, true_and]
  rintro (_ | uid)
  · trivial
  dsimp only
  split_ifs
  · exact runReply_calls _
  · exact runReply_calls _
  · rw [sat_run_bind, run, sat_run_lift]
    exact sessionBind_calls _ _ fun h' => runReply_calls _

theorem handleHeartbeat_calls :
    Sat (fun _ a => a.ofAi = false) h (handleHeartbeat P o hdr).run fun _ _ => True := by
  simp only [handleHeartbeat, sys, call, sat_run_bind, sat_run_lift, sat_perform, Call.ofAi,
    true_and]
  exact fun _ => runReply_calls _

theorem notifyFriend_calls (uid : Int) (text : String)
    {Q : List (Event Reply) → Except Unit Unit → Prop} (hQ : ∀ h r, Q h r) :
    Sat (fun _ a => a.ofAi = false) h (notifyFriend P uid text).run Q := by
  simp only [notifyFriend, sys, call, sat_run_bind, sat_run_lift, sat_perform, Call.ofAi, true_and]
  rintro (_ | target)
  · exact hQ _ _
  · simp only [sat_run_lift, sat_perform, true_and]
    exact fun _ => hQ _ _

theorem notify_reply_calls (uid : Int) (text : String) (r : Response) :
    Sat (fun _ a => a.ofAi = false) h
      (do notifyFriend P uid text; run (reply P o hdr r) : Biz Unit).run fun _ _ => True := by
  rw [sat_run_bind]
  refine notifyFriend_calls _ _ ?_
  rintro h' (_ | _)
  · trivial
  · exact runReply_calls _

theorem handleAddFriend_calls :
    Sat (fun _ a => a.ofAi = false) h (handleAddFriend P o hdr body).run fun _ _ => True := by
  unfold handleAddFriend
  split
  · trivial
  refine (sat_run_sys (.loadUid o.ctx) _).mpr ⟨rfl, fun uid => ?_⟩
  split_ifs
  · exact runReply_calls _
  refine sat_withWriter rfl (runReply_calls _) ?_
  simp only [store, call, sat_run_bind, sat_run_mk, sat_perform, Call.ofAi, true_and]
  rintro (_ | ret)
  · trivial
  dsimp only
  split_ifs
  · exact runReply_calls _
  · exact runReply_calls _
  · exact runReply_calls _
  · exact notify_reply_calls _ _ _

theorem handleAcceptFriend_calls :
    Sat (fun _ a => a.ofAi = false) h (handleAcceptFriend P o hdr body).run fun _ _ => True := by
  unfold handleAcceptFriend
  split
  · trivial
  refine (sat_run_sys (.loadUid o.ctx) _).mpr ⟨rfl, fun uid => ?_⟩
  refine sat_withWriter rfl (runReply_calls _) ?_
  simp only [store, call, sat_run_bind, sat_run_mk, sat_perform, Call.ofAi, true_and]
  rintro (_ | ret)
  · trivial
  dsimp only
  split_ifs
  · exact runReply_calls _
  · exact notify_reply_calls _ _ _

theorem withOnline_calls (users : List (Int × String)) {Q : List (Event Reply) → List FriendInfo → Prop}
    (hQ : ∀ h l, Q h l) : Sat (fun _ a => a.ofAi = false) h (withOnline users) Q := by
  induction users generalizing h Q with
  | nil => exact hQ _ _
  | cons u us ih =>
      simp only [withOnline, call, sat_bind, sat_perform, Call.ofAi, true_and]
      exact fun _ => ih fun _ _ => hQ _ _

theorem replyUsers_calls (cmd : CmdType) (users : List (Int × String)) :
    Sat (fun _ a => a.ofAi = false) h (replyUsers P o hdr cmd users).run fun _ _ => True := by
  simp only [replyUsers, run, sys, call, sat_run_bind, sat_run_lift]
  refine withOnline_calls users fun h' infos => ?_
  simp only [sat_perform, Call.ofAi, implies_true, and_self]

theorem handleFriendList_calls :
    Sat (fun _ a => a.ofAi = false) h (handleFriendList P o hdr).run fun _ _ => True := by
  unfold handleFriendList
  refine sat_withWriter rfl (runReply_calls _) ?_
  simp only [sys, store, call, sat_run_bind, sat_run_lift, sat_run_mk, sat_perform, Call.ofAi, true_and]
  rintro uid (_ | users)
  · trivial
  · exact replyUsers_calls _ _

theorem handleSearchUser_calls :
    Sat (fun _ a => a.ofAi = false) h (handleSearchUser P o hdr body).run fun _ _ => True := by
  unfold handleSearchUser
  split
  · trivial
  refine sat_withWriter rfl (runReply_calls _) ?_
  simp only [store, call, sat_run_bind, sat_run_mk, sat_perform, Call.ofAi, true_and]
  rintro (_ | users)
  · trivial
  · exact replyUsers_calls _ _

theorem handleFriendRequests_calls :
    Sat (fun _ a => a.ofAi = false) h (handleFriendRequests P o hdr).run fun _ _ => True := by
  unfold handleFriendRequests
  refine sat_withWriter rfl (runReply_calls _) ?_
  simp only [sys, store, call, sat_run_bind, sat_run_lift, sat_run_mk, sat_perform, Call.ofAi, true_and]
  rintro uid (_ | requests)
  · trivial
  · exact fun _ => trivial

theorem Unsubmitted.snoc {a : Call} (hu : Unsubmitted h) (ha : a.ofAi = false) (r : Reply a) :
    Unsubmitted (h ++ [⟨a, r⟩]) :=
  List.forall_mem_append.mpr ⟨hu, List.forall_mem_singleton.mpr ha⟩

theorem Sat.submitsOnce {α : Type} {p : Prog Reply α} (hu : Unsubmitted h)
    (hs : Sat (fun _ a => a.ofAi = false) h p fun _ _ => True) :
    Sat SubmitsOnce h p fun _ _ => True := by
  refine hs.keep Unsubmitted hu (fun _ a ha _ ht => ?_) (fun h a r ha hu => hu.snoc ha r)
    fun _ _ _ => trivial
  rw [ha] at ht
  cases ht

theorem runReply_submits (r : Response) :
    Sat SubmitsOnce h (run (reply P o hdr r)).run fun _ _ => True :=
  (runReply_calls r).mono (fun _ _ ha ht => by rw [ha] at ht; cases ht) fun _ _ _ => trivial

theorem handleAiChat_submits (msg : ChatMessage) (hu : Unsubmitted h) :
    Sat SubmitsOnce h (handleAiChat P o hdr msg).run fun _ _ => True := by
  have last : ∀ h (uid : Int) (b : Bool), Sat SubmitsOnce h (if (!b) = true then
      run (reply P o hdr { uid := uid, msg := "AI服务繁忙，请稍后再试" }) else pure ()).run
      fun _ _ => True := by
    rintro h uid (_ | _)
    · exact runReply_submits _
    · trivial
  simp only [handleAiChat, submitStreamRequest, sys, run, call, sat_run_bind, sat_run_lift, sat_bind,
    sat_perform]
  refine ⟨fun e => (by cases e), fun uid => ⟨fun e => (by cases e), fun w => ?_⟩⟩
  split_ifs
  · exact last _ uid false
  rw [sat_bind, sat_perform]
  refine ⟨fun e => (by cases e), fun fd => ?_⟩
  split_ifs
  · exact last _ uid false
  simp only [sat_bind, sat_perform]
  refine ⟨fun e => (by cases e), fun now => ⟨fun _ => ⟨⟨fd, _, rfl⟩, ?_⟩, fun b => last _ uid b⟩⟩
  -- what comes before the submission loads and looks up
  have huid := hu.snoc (a := .loadUid o.ctx) rfl uid
  have hworker := huid.snoc (a := .ownerWorker o.ctx) rfl w
  exact (hworker.snoc (a := .loadFd o.ctx) rfl fd).snoc rfl now

theorem forwardChat_calls (msg : ChatMessage) (target : ℕ) :
    Sat (fun _ a => a.ofAi = false) h (forwardChat P o hdr msg target).run fun _ _ => True := by
  simp only [forwardChat, reply, sys, run, call, sat_run_bind, sat_run_lift, sat_perform,
    Call.ofAi, true_and]
  rintro uid - ackUid - (_ | _)
  · trivial
  · simp only [if_true, sat_run_bind, sat_run_lift, sat_perform, implies_true, and_self]

theorem storeChat_calls (msg : ChatMessage) :
    Sat (fun _ a => a.ofAi = false) h (storeChat P o hdr msg).run fun _ _ => True := by
  simp only [storeChat, reply, sys, run, call, sat_run_bind, sat_run_lift, sat_perform,
    Call.ofAi, true_and]
  rintro (_ | _)
  · simp only [Bool.false_eq_true, if_false, sat_run_bind, sat_run_lift, sat_perform, implies_true,
      and_self]
  · simp only [if_true, sat_run_bind, sat_run_lift, sat_perform, implies_true, and_self]

theorem handleChat_submits (hu : Unsubmitted h) :
    Sat SubmitsOnce h (handleChat P o hdr body).run fun _ _ => True := by
  unfold handleChat
  split
  · trivial
  split_ifs
  · exact handleAiChat_submits _ hu
  · refine Sat.submitsOnce hu ?_
    simp only [sys, call, sat_run_bind, sat_run_lift, sat_perform, Call.ofAi, true_and]
    rintro (_ | target)
    · exact storeChat_calls _
    · exact forwardChat_calls _ target

theorem dispatch_submits (hu : Unsubmitted h) :
    Sat SubmitsOnce h (dispatch P o hdr body).run fun _ _ => True := by
  unfold dispatch
  split_ifs
  · exact Sat.submitsOnce hu handleLogin_calls
  · exact handleChat_submits hu
  · exact Sat.submitsOnce hu handleRegister_calls
  · exact Sat.submitsOnce hu handleHeartbeat_calls
  · exact Sat.submitsOnce hu handleAddFriend_calls
  · exact Sat.submitsOnce hu handleAcceptFriend_calls
  · exact Sat.submitsOnce hu handleFriendList_calls
  · exact Sat.submitsOnce hu handleSearchUser_calls
  · exact Sat.submitsOnce hu handleFriendRequests_calls
  · trivial

/-- **A packet is handed to the AI manager at most once.** -/
theorem processBusiness_submits (P : Params) (o : Origin) (hdr : PacketHeader) (body : Bytes) :
    Sat SubmitsOnce [] (processBusiness P o hdr body) fun _ _ => True := by
  have hnil : Unsubmitted [] := fun e he => by cases he
  have hbody : Sat SubmitsOnce [] (businessBody P o hdr body).run fun _ _ => True := by
    unfold businessBody
    split_ifs
    · simp only [sys, call, sat_run_bind, sat_run_lift, sat_perform]
      refine ⟨fun e => (by cases e), fun now => ⟨fun e => (by cases e), fun late => ?_⟩⟩
      split_ifs
      · exact runReply_submits _
      · refine dispatch_submits fun e he => ?_
        simp only [List.nil_append, List.mem_append, List.mem_singleton] at he
        rcases he with rfl | rfl <;> rfl
    · exact dispatch_submits hnil
  rw [processBusiness, sat_bind]
  refine hbody.mono (fun _ _ hg => hg) ?_
  rintro h' (_ | _) -
  · exact (reply_calls _).mono (fun _ _ ha ht => by rw [ha] at ht; cases ht) fun _ _ _ => trivial
  · trivial

end Handlers

end AuraChat
