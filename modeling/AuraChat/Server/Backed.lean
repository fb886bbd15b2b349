import AuraChat.Server.Trace

set_option autoImplicit false

/-!
# What the packets of the server say

Every packet that the server queues says something: that a login has succeeded, who is a friend, what
somebody has written. `Backed P t h a` is what the calls and replies `h` of a thread must contain when it
makes the call `a` for the task `t`: what the packet says is what the thread has been told.

* `Denied`, `Told`, `Notice`, `Written`, `Saved`: what the packets say, by their purpose;
* **`task_backed`**: the program of every task queues backed packets only, and gives the writer and the
  AI only what its packet says.
-/

namespace AuraChat

open Interleave Interleave.Prog

/-- The list of users that the store has given, with their sessions looked up one after the other. -/
def Listed (h : List (Event Reply)) (users : List (Int × String)) (infos : List FriendInfo) : Prop :=
  infos.map (fun i => (i.uid, i.username)) = users ∧
    ∀ i ∈ infos, ∃ target, ⟨.sessionGet i.uid, target⟩ ∈ h ∧ i.online = target.isSome

/-- The call into the store has ended with an exception. -/
def Threw : Event Reply → Prop
  | ⟨.verifyLogin _ _, .error _⟩ | ⟨.registerUser _ _, .error _⟩ | ⟨.queryOfflineMessages _, .error _⟩
  | ⟨.markDelivered _ _, .error _⟩ | ⟨.searchUsers _, .error _⟩ | ⟨.addFriendRequest _ _ _, .error _⟩
  | ⟨.acceptFriendRequest _ _, .error _⟩ | ⟨.getFriends _, .error _⟩
  | ⟨.getPendingRequests _, .error _⟩ => True
  | _ => False

/-- `submit_stream_request` has not taken the message. -/
def TurnedDown (o : Origin) (h : List (Event Reply)) : Prop :=
  ⟨.ownerWorker o.ctx, none⟩ ∈ h ∨ (∃ fd : Int, fd < 0 ∧ ⟨.loadFd o.ctx, fd⟩ ∈ h) ∨
    ∃ fd req, ⟨.aiEnqueue fd req, false⟩ ∈ h

/-- An answer without success, and why it is given. -/
inductive Denied (P : Params) (o : Origin) (hdr : PacketHeader) (body : Bytes)
    (h : List (Event Reply)) : Response → Prop
  | tooFast (now : Int) (hc : hdr.cmd = CmdType.chat.code) (he : ⟨.rateTick o.ctx now, true⟩ ∈ h) :
      Denied P o hdr body h { msg := "消息发送过快，请稍后再试" }
  | wrongPassword (req : LoginRequest) (uid : Int) (hc : hdr.cmd = CmdType.login.code)
      (hp : P.codec.parseLoginRequest body = some req) (h0 : uid ≤ 0)
      (he : ⟨.dbWriter, false⟩ ∈ h ∨ ⟨.verifyLogin req.username req.password, .ok uid⟩ ∈ h) :
      Denied P o hdr body h { msg := "用户名或密码错误" }
  | emptyField (req : RegisterRequest) (hc : hdr.cmd = CmdType.register.code)
      (hp : P.codec.parseRegisterRequest body = some req) (he : req.username = "" ∨ req.password = "") :
      Denied P o hdr body h { msg := "用户名和密码不能为空" }
  | noWriter (uid : Int) (he : ⟨.dbWriter, false⟩ ∈ h) :
      Denied P o hdr body h { uid := uid, msg := "服务暂不可用" }
  | nameTaken (req : RegisterRequest) (hc : hdr.cmd = CmdType.register.code)
      (hp : P.codec.parseRegisterRequest body = some req)
      (he : ⟨.registerUser req.username req.password, .ok (-2)⟩ ∈ h) :
      Denied P o hdr body h { msg := "用户名已存在" }
  | notRegistered (req : RegisterRequest) (uid : Int) (hc : hdr.cmd = CmdType.register.code)
      (hp : P.codec.parseRegisterRequest body = some req) (h0 : uid < 0) (h2 : uid ≠ -2)
      (he : ⟨.registerUser req.username req.password, .ok uid⟩ ∈ h) :
      Denied P o hdr body h { msg := "注册失败，请稍后再试" }
  | busy (msg : ChatMessage) (uid : Int) (hc : hdr.cmd = CmdType.chat.code)
      (hp : P.codec.parseChatMessage body = some msg) (ht : msg.toUid = 9999) (he : TurnedDown o h) :
      Denied P o hdr body h { uid := uid, msg := "AI服务繁忙，请稍后再试" }
  | notOnline (msg : ChatMessage) (uid : Int) (hc : hdr.cmd = CmdType.chat.code)
      (hp : P.codec.parseChatMessage body = some msg) (he : ⟨.sessionGet msg.toUid, none⟩ ∈ h)
      (hs : ⟨.dbWriter, false⟩ ∈ h ∨ ∃ m : DBChatMessage, ⟨.submit m, ()⟩ ∈ h ∧
        m.toUid = msg.toUid ∧ m.content = msg.content ∧ m.delivered = false) :
      Denied P o hdr body h { uid := uid, msg := "用户" ++ toString msg.toUid ++ "不在线，消息已存储" }
  | self (req : AddFriendRequest) (hc : hdr.cmd = CmdType.addFriend.code)
      (hp : P.codec.parseAddFriendRequest body = some req) (hu : ⟨.loadUid o.ctx, req.toUid⟩ ∈ h) :
      Denied P o hdr body h { uid := req.toUid, msg := "不能添加自己为好友" }
  | alreadyFriends (req : AddFriendRequest) (fromUid : Int) (hc : hdr.cmd = CmdType.addFriend.code)
      (hp : P.codec.parseAddFriendRequest body = some req) (hu : ⟨.loadUid o.ctx, fromUid⟩ ∈ h)
      (he : ⟨.addFriendRequest fromUid req.toUid req.message, .ok (-2)⟩ ∈ h) :
      Denied P o hdr body h { uid := fromUid, msg := "已经是好友了" }
  | alreadyAsked (req : AddFriendRequest) (fromUid : Int) (hc : hdr.cmd = CmdType.addFriend.code)
      (hp : P.codec.parseAddFriendRequest body = some req) (hu : ⟨.loadUid o.ctx, fromUid⟩ ∈ h)
      (he : ⟨.addFriendRequest fromUid req.toUid req.message, .ok (-3)⟩ ∈ h) :
      Denied P o hdr body h { uid := fromUid, msg := "已发送过好友请求，请等待对方处理" }
  | notAsked (req : AddFriendRequest) (fromUid id : Int) (hc : hdr.cmd = CmdType.addFriend.code)
      (hp : P.codec.parseAddFriendRequest body = some req) (h0 : id < 0) (h2 : id ≠ -2) (h3 : id ≠ -3)
      (hu : ⟨.loadUid o.ctx, fromUid⟩ ∈ h)
      (he : ⟨.addFriendRequest fromUid req.toUid req.message, .ok id⟩ ∈ h) :
      Denied P o hdr body h { uid := fromUid, msg := "发送失败，请稍后再试" }
  | notAccepted (req : AcceptFriendRequest) (acceptorUid fromUid : Int)
      (hc : hdr.cmd = CmdType.acceptFriend.code)
      (hp : P.codec.parseAcceptFriendRequest body = some req) (h0 : fromUid < 0)
      (hu : ⟨.loadUid o.ctx, acceptorUid⟩ ∈ h)
      (he : ⟨.acceptFriendRequest req.requestId acceptorUid, .ok fromUid⟩ ∈ h) :
      Denied P o hdr body h { uid := acceptorUid, msg := "处理失败，请求可能已过期" }
  | failed (e : Event Reply) (he : e ∈ h) (ht : Threw e) :
      Denied P o hdr body h { msg := "服务器内部错误" }

/-- What the answer to a packet says, and the replies that it rests on. -/
inductive Told (P : Params) (o : Origin) (hdr : PacketHeader) (body : Bytes) (h : List (Event Reply)) :
    CmdType → Bytes → Prop
  | refused (r : Response) (hr : Denied P o hdr body h r) :
      Told P o hdr body h .ack (P.codec.serializeResponse r)
  | loggedIn (req : LoginRequest) (uid : Int) (hc : hdr.cmd = CmdType.login.code)
      (hp : P.codec.parseLoginRequest body = some req) (h0 : 0 < uid)
      (he : ⟨.verifyLogin req.username req.password, .ok uid⟩ ∈ h) :
      Told P o hdr body h .ack
        (P.codec.serializeResponse { success := true, uid := uid, msg := "login success" })
  | registered (req : RegisterRequest) (uid : Int) (hc : hdr.cmd = CmdType.register.code)
      (hp : P.codec.parseRegisterRequest body = some req) (h0 : 0 ≤ uid)
      (he : ⟨.registerUser req.username req.password, .ok uid⟩ ∈ h) :
      Told P o hdr body h .ack (P.codec.serializeResponse
        { success := true, uid := uid, msg := "注册成功，您的UID是" ++ toString uid })
  | alive (uid : Int) (hc : hdr.cmd = CmdType.heartbeat.code) (he : ⟨.loadUid o.ctx, uid⟩ ∈ h) :
      Told P o hdr body h .ack
        (P.codec.serializeResponse { success := true, uid := uid, msg := "PONG" })
  | forwarded (msg : ChatMessage) (x : ℕ) (fromUid uid : Int) (hc : hdr.cmd = CmdType.chat.code)
      (hp : P.codec.parseChatMessage body = some msg)
      (he : ⟨.queueSendPacket x .chat 0
        (P.codec.serializeChatMessage { msg with fromUid := fromUid }) (.forward msg.toUid), ()⟩ ∈ h) :
      Told P o hdr body h .ack (P.codec.serializeResponse
        { success := true, uid := uid, msg := "消息已发送给用户" ++ toString msg.toUid })
  | asked (req : AddFriendRequest) (fromUid id : Int) (hc : hdr.cmd = CmdType.addFriend.code)
      (hp : P.codec.parseAddFriendRequest body = some req) (h0 : 0 ≤ id)
      (hu : ⟨.loadUid o.ctx, fromUid⟩ ∈ h)
      (he : ⟨.addFriendRequest fromUid req.toUid req.message, .ok id⟩ ∈ h) :
      Told P o hdr body h .ack
        (P.codec.serializeResponse { success := true, uid := fromUid, msg := "好友请求已发送" })
  | accepted (req : AcceptFriendRequest) (acceptorUid fromUid : Int)
      (hc : hdr.cmd = CmdType.acceptFriend.code)
      (hp : P.codec.parseAcceptFriendRequest body = some req) (h0 : 0 ≤ fromUid)
      (hu : ⟨.loadUid o.ctx, acceptorUid⟩ ∈ h)
      (he : ⟨.acceptFriendRequest req.requestId acceptorUid, .ok fromUid⟩ ∈ h) :
      Told P o hdr body h .ack
        (P.codec.serializeResponse { success := true, uid := acceptorUid, msg := "已添加为好友" })
  | friends (uid : Int) (users : List (Int × String)) (infos : List FriendInfo)
      (hc : hdr.cmd = CmdType.friendList.code) (hu : ⟨.loadUid o.ctx, uid⟩ ∈ h)
      (he : ⟨.getFriends uid, .ok users⟩ ∈ h) (hl : Listed h users infos) :
      Told P o hdr body h .friendList (P.codec.serializeUserList ⟨infos⟩)
  | found (req : SearchUserRequest) (users : List (Int × String)) (infos : List FriendInfo)
      (hc : hdr.cmd = CmdType.searchUser.code)
      (hp : P.codec.parseSearchUserRequest body = some req)
      (he : ⟨.searchUsers req.keyword, .ok users⟩ ∈ h) (hl : Listed h users infos) :
      Told P o hdr body h .searchUser (P.codec.serializeUserList ⟨infos⟩)
  | requests (uid : Int) (requests : List FriendRequestInfo)
      (hc : hdr.cmd = CmdType.friendRequests.code) (hu : ⟨.loadUid o.ctx, uid⟩ ∈ h)
      (he : ⟨.getPendingRequests uid, .ok requests⟩ ∈ h) :
      Told P o hdr body h .friendRequests (P.codec.serializeFriendRequestList ⟨requests⟩)

/-- What the notification of the user `uid` says. -/
inductive Notice (P : Params) (o : Origin) (hdr : PacketHeader) (body : Bytes) (h : List (Event Reply))
    (uid : Int) : Bytes → Prop
  | asked (req : AddFriendRequest) (fromUid id : Int) (hc : hdr.cmd = CmdType.addFriend.code)
      (hp : P.codec.parseAddFriendRequest body = some req) (hto : req.toUid = uid) (h0 : 0 ≤ id)
      (hu : ⟨.loadUid o.ctx, fromUid⟩ ∈ h)
      (he : ⟨.addFriendRequest fromUid uid req.message, .ok id⟩ ∈ h) :
      Notice P o hdr body h uid
        (P.codec.serializeResponse { success := true, msg := "收到新的好友请求" })
  | accepted (req : AcceptFriendRequest) (acceptorUid : Int) (hc : hdr.cmd = CmdType.acceptFriend.code)
      (hp : P.codec.parseAcceptFriendRequest body = some req) (h0 : 0 ≤ uid)
      (hu : ⟨.loadUid o.ctx, acceptorUid⟩ ∈ h)
      (he : ⟨.acceptFriendRequest req.requestId acceptorUid, .ok uid⟩ ∈ h) :
      Notice P o hdr body h uid
        (P.codec.serializeResponse { success := true, msg := "您的好友请求已被接受" })

/-- The packet is a chat message from somebody with this uid. -/
def Written (P : Params) (o : Origin) (hdr : PacketHeader) (body : Bytes) (h : List (Event Reply))
    (msg : ChatMessage) (fromUid : Int) : Prop :=
  hdr.cmd = CmdType.chat.code ∧ P.codec.parseChatMessage body = some msg ∧
    ⟨.loadUid o.ctx, fromUid⟩ ∈ h

/-- The packet is a stored message for the user who has been verified. -/
def Saved (P : Params) (hdr : PacketHeader) (body : Bytes) (h : List (Event Reply)) (id : Int)
    (b : Bytes) : Prop :=
  ∃ req uid rows m now, hdr.cmd = CmdType.login.code ∧ P.codec.parseLoginRequest body = some req ∧
    0 < uid ∧ ⟨.verifyLogin req.username req.password, .ok uid⟩ ∈ h ∧
    ⟨.queryOfflineMessages uid, .ok rows⟩ ∈ h ∧ m ∈ rows ∧ m.id = id ∧
    b = P.codec.serializeChatMessage
      { fromUid := m.fromUid, toUid := m.toUid, content := m.content, timestamp := now }

/-- What a packet says is backed by what its thread has been told. -/
def Backed (P : Params) : Task → List (Event Reply) → Call → Prop
  | .business o hdr body, h, .queueSendPacket _ cmd seq b why => match why with
      -- only an answer has the number of the packet
      | .reply => seq = hdr.seq ∧ Told P o hdr body h cmd b
      | .notify uid => seq = 0 ∧ cmd = .ack ∧ Notice P o hdr body h uid b
      | .forward toUid => seq = 0 ∧ cmd = .chat ∧ ∃ msg fromUid, Written P o hdr body h msg fromUid ∧
          msg.toUid = toUid ∧ b = P.codec.serializeChatMessage { msg with fromUid := fromUid }
      | .offline id => seq = 0 ∧ cmd = .chat ∧ Saved P hdr body h id b
      | .chunk => False
  | .business o hdr body, h, .submit m => ∃ msg, Written P o hdr body h msg m.fromUid ∧
      m.toUid = msg.toUid ∧ m.content = msg.content
  | .business o hdr body, h, .aiEnqueue _ req => req.origin = o ∧
      ∃ msg, Written P o hdr body h msg req.uid ∧ msg.toUid = 9999 ∧ req.prompt = msg.content
  | .stream req, _, .queueSendPacket _ cmd seq b why => why = .chunk ∧ seq = 0 ∧ cmd = .chat ∧
      ∃ chunk isLast streamSeq now,
        b = P.codec.serializeChatMessage (chunkMessage req.uid chunk isLast streamSeq now)
  | .stream _, _, .submit _ => False
  | .stream _, _, .aiEnqueue _ _ => False
  | _, _, _ => True

/-! ## The handlers -/

section Handlers

variable {P : Params} {o : Origin} {hdr : PacketHeader} {body : Bytes} {h : List (Event Reply)}

/-- A handler ends with an exception only when the store has thrown one. -/
def Ended (h : List (Event Reply)) : Except Unit Unit → Prop
  | .ok _ => True
  | .error _ => ∃ e ∈ h, Threw e

theorem refuse_backed {r : Response} (hr : Denied P o hdr body h r) :
    Sat (Backed P (.business o hdr body)) h (run (reply P o hdr r)).run Ended := by
  simp only [run, reply, call, sat_run_lift, sat_perform, Backed, true_and]
  exact ⟨.refused r hr, fun _ => trivial⟩

theorem sessionBind_backed (uid : Int) (x : ℕ) {Q : List (Event Reply) → Unit → Prop}
    (hQ : ∀ h', h ⊆ h' → Q h' ()) : Sat (Backed P (.business o hdr body)) h (sessionBind uid x) Q := by
  simp only [sessionBind, call, sat_bind, sat_perform, Backed, true_and]
  rintro (_ | old)
  · exact hQ _ (by simp)
  simp only [sat_bind, sat_perform, Backed, true_and]
  intro fd
  split_ifs
  · simp only [sat_bind, sat_perform, Backed, true_and]
    exact fun _ _ _ => hQ _ (by simp)
  · simp only [sat_perform, Backed, true_and]
    exact fun _ => hQ _ (by simp)

/-- The stored messages that are queued are those of the query. -/
theorem deliverOffline_backed {req : LoginRequest} {uid : Int} {rows : List DBChatMessage}
    (hc : hdr.cmd = CmdType.login.code) (hp : P.codec.parseLoginRequest body = some req) (h0 : 0 < uid)
    (hv : ⟨.verifyLogin req.username req.password, .ok uid⟩ ∈ h)
    (hq : ⟨.queryOfflineMessages uid, .ok rows⟩ ∈ h) {Q : List (Event Reply) → Unit → Prop}
    (hQ : ∀ h', h ⊆ h' → Q h' ()) :
    Sat (Backed P (.business o hdr body)) h (rows.forM (deliverOffline P o)) Q := by
  let I (h' : List (Event Reply)) (rest : List DBChatMessage) : Prop := h ⊆ h' ∧ rest ⊆ rows
  refine (sat_forM I _ (fun h' m rest hI => ?_) rows h ⟨List.Subset.refl _, List.Subset.refl _⟩).mono
    (fun _ _ hg => hg) fun h' _ hI => hQ h' hI.1
  obtain ⟨hsub, hrest⟩ := hI
  simp only [deliverOffline, call, sat_bind, sat_perform, Backed, true_and]
  refine fun now => ⟨⟨req, uid, rows, m, now, hc, hp, h0, ?_, ?_, hrest (by simp), rfl, rfl⟩, fun _ => ?_⟩
  · exact List.mem_append_left _ (hsub hv)
  · exact List.mem_append_left _ (hsub hq)
  · exact ⟨fun e he => by simp [hsub he], fun r hr => hrest (List.mem_cons_of_mem _ hr)⟩

theorem deliverOfflineMessages_backed {req : LoginRequest} {uid : Int}
    (hc : hdr.cmd = CmdType.login.code) (hp : P.codec.parseLoginRequest body = some req) (h0 : 0 < uid)
    (hv : ⟨.verifyLogin req.username req.password, .ok uid⟩ ∈ h)
    {Q : List (Event Reply) → Except Unit Unit → Prop} (hQ : ∀ h' r, h ⊆ h' → Ended h' r → Q h' r) :
    Sat (Backed P (.business o hdr body)) h (deliverOfflineMessages P o uid).run Q := by
  simp only [deliverOfflineMessages, sys, store, call, sat_run_bind, sat_run_lift, sat_perform, Backed,
    true_and]
  rintro (_ | _)
  · exact hQ _ _ (by simp) trivial
  simp only [if_true, sat_run_bind, sat_run_mk, sat_perform, Backed, true_and]
  rintro (_ | rows)
  · exact hQ _ _ (by simp) ⟨_, List.mem_concat_self, trivial⟩
  dsimp only
  split_ifs
  · simp only [run, sat_run_bind, sat_run_lift, sat_run_mk, sat_perform]
    refine deliverOffline_backed hc hp h0 (by simp [hv]) (by simp) fun h' hsub => ?_
    refine ⟨trivial, fun r => hQ _ _ (fun e he => ?_) ?_⟩
    · exact List.mem_append_left _ (hsub (by simp [he]))
    · rcases r with _ | _
      · exact ⟨_, List.mem_concat_self, trivial⟩
      · trivial
  · exact hQ _ _ (by simp) trivial

theorem handleLogin_backed (hc : hdr.cmd = CmdType.login.code) :
    Sat (Backed P (.business o hdr body)) h (handleLogin P o hdr body).run Ended := by
  unfold handleLogin
  split
  · trivial
  rename_i req hreq
  have rest : ∀ h uid, (⟨.dbWriter, false⟩ ∈ h ∧ uid = -1 ∨
        ⟨.verifyLogin req.username req.password, .ok uid⟩ ∈ h) →
      Sat (Backed P (.business o hdr body)) h (if 0 < uid then (do
          run (sessionBind uid o.ctx)
          deliverOfflineMessages P o uid
          run (reply P o hdr { success := true, uid := uid, msg := "login success" }) : Biz Unit)
        else run (reply P o hdr { msg := "用户名或密码错误" })).run Ended := by
    intro h uid hv
    split_ifs with h0
    · have hv : ⟨.verifyLogin req.username req.password, .ok uid⟩ ∈ h :=
        hv.resolve_left fun hno => by omega
      simp only [run, sat_run_bind, sat_run_lift]
      refine sessionBind_backed uid _ fun h' hsub => ?_
      refine deliverOfflineMessages_backed hc hreq h0 (hsub hv) ?_
      rintro h'' (_ | _) hsub' hend
      · exact hend
      · simp only [reply, call, sat_perform, Backed, true_and]
        exact ⟨.loggedIn req uid hc hreq h0 (hsub' (hsub hv)), fun _ => trivial⟩
    · exact refuse_backed (.wrongPassword req uid hc hreq (Int.not_lt.mp h0) (hv.imp_left And.left))
  simp only [sys, call, sat_run_bind, sat_run_lift, sat_perform, Backed, true_and]
  rintro (_ | _)
  · exact rest _ (-1) (.inl ⟨List.mem_concat_self, rfl⟩)
  · simp only [if_true, store, sat_run_bind, sat_run_mk, sat_perform, Backed, true_and]
    rintro (_ | uid)
    · exact ⟨_, List.mem_concat_self, trivial⟩
    · exact rest _ uid (.inr (by simp))

theorem handleRegister_backed (hc : hdr.cmd = CmdType.register.code) :
    Sat (Backed P (.business o hdr body)) h (handleRegister P o hdr body).run Ended := by
  unfold handleRegister
  split
  · trivial
  rename_i req hreq
  split_ifs with hempty
  · exact refuse_backed (.emptyField req hc hreq hempty)
  refine sat_withWriter trivial (refuse_backed (.noWriter 0 List.mem_concat_self)) ?_
  simp only [store, call, sat_run_bind, sat_run_mk, sat_perform, Backed, true_and]
  rintro (_ | uid)
  · exact ⟨_, List.mem_concat_self, trivial⟩
  dsimp only
  split_ifs with h2 h0
  · exact refuse_backed (.nameTaken req hc hreq (by simp [h2]))
  · exact refuse_backed (.notRegistered req uid hc hreq h0 h2 List.mem_concat_self)
  · simp only [run, sat_run_bind, sat_run_lift]
    refine sessionBind_backed uid _ fun h' hsub => ?_
    simp only [reply, call, sat_perform, Backed, true_and]
    exact ⟨.registered req uid hc hreq (by omega) (hsub (by simp)), fun _ => trivial⟩

theorem handleHeartbeat_backed (hc : hdr.cmd = CmdType.heartbeat.code) :
    Sat (Backed P (.business o hdr body)) h (handleHeartbeat P o hdr).run Ended := by
  simp only [handleHeartbeat, reply, run, sys, call, sat_run_bind, sat_run_lift, sat_perform, Backed,
    true_and]
  exact fun uid => ⟨.alive uid hc (by simp), fun _ => trivial⟩

/-! ### Friends -/

theorem notifyFriend_backed {uid : Int} {text : String}
    (hn : ∀ h', h ⊆ h' → Notice P o hdr body h' uid
      (P.codec.serializeResponse { success := true, msg := text }))
    {Q : List (Event Reply) → Except Unit Unit → Prop} (hQ : ∀ h', h ⊆ h' → Q h' (.ok ())) :
    Sat (Backed P (.business o hdr body)) h (notifyFriend P uid text).run Q := by
  simp only [notifyFriend, sys, call, sat_run_bind, sat_run_lift, sat_perform, Backed, true_and]
  rintro (_ | target)
  · exact hQ _ (by simp)
  · simp only [sat_run_lift, sat_perform, Backed, true_and]
    exact ⟨hn _ (by simp), fun _ => hQ _ (by simp)⟩

theorem handleAddFriend_backed (hc : hdr.cmd = CmdType.addFriend.code) :
    Sat (Backed P (.business o hdr body)) h (handleAddFriend P o hdr body).run Ended := by
  unfold handleAddFriend
  split
  · trivial
  rename_i req hreq
  refine (sat_run_sys (.loadUid o.ctx) _).mpr ⟨trivial, fun uid => ?_⟩
  split_ifs with hself
  · subst hself
    exact refuse_backed (.self req hc hreq List.mem_concat_self)
  refine sat_withWriter trivial (refuse_backed (.noWriter uid List.mem_concat_self)) ?_
  simp only [store, call, sat_run_bind, sat_run_mk, sat_perform, Backed, true_and]
  rintro (_ | ret)
  · exact ⟨_, List.mem_concat_self, trivial⟩
  dsimp only
  split_ifs with h2 h3 h0
  · exact refuse_backed (.alreadyFriends req uid hc hreq (by simp) (by simp [h2]))
  · exact refuse_backed (.alreadyAsked req uid hc hreq (by simp) (by simp [h3]))
  · exact refuse_backed (.notAsked req uid ret hc hreq h0 h2 h3 (by simp) (by simp))
  · rw [sat_run_bind]
    refine notifyFriend_backed (fun h' hsub => ?_) fun h' hsub => ?_
    · exact .asked req uid ret hc hreq rfl (by omega) (hsub (by simp)) (hsub (by simp))
    · simp only [run, reply, call, sat_run_lift, sat_perform, Backed, true_and]
      exact ⟨.asked req uid ret hc hreq (by omega) (hsub (by simp)) (hsub (by simp)), fun _ => trivial⟩

theorem handleAcceptFriend_backed (hc : hdr.cmd = CmdType.acceptFriend.code) :
    Sat (Backed P (.business o hdr body)) h (handleAcceptFriend P o hdr body).run Ended := by
  unfold handleAcceptFriend
  split
  · trivial
  rename_i req hreq
  refine (sat_run_sys (.loadUid o.ctx) _).mpr ⟨trivial, fun uid => ?_⟩
  refine sat_withWriter trivial (refuse_backed (.noWriter uid List.mem_concat_self)) ?_
  simp only [store, call, sat_run_bind, sat_run_mk, sat_perform, Backed, true_and]
  rintro (_ | ret)
  · exact ⟨_, List.mem_concat_self, trivial⟩
  dsimp only
  split_ifs with h0
  · exact refuse_backed (.notAccepted req uid ret hc hreq h0 (by simp) (by simp))
  · rw [sat_run_bind]
    refine notifyFriend_backed (fun h' hsub => ?_) fun h' hsub => ?_
    · exact .accepted req uid hc hreq (by omega) (hsub (by simp)) (hsub (by simp))
    · simp only [run, reply, call, sat_run_lift, sat_perform, Backed, true_and]
      exact ⟨.accepted req uid ret hc hreq (by omega) (hsub (by simp)) (hsub (by simp)),
        fun _ => trivial⟩

/-! ### Lists -/

theorem withOnline_backed (users : List (Int × String)) {Q : List (Event Reply) → List FriendInfo → Prop}
    (hQ : ∀ h' infos, h ⊆ h' → Listed h' users infos → Q h' infos) :
    Sat (Backed P (.business o hdr body)) h (withOnline users) Q := by
  induction users generalizing h Q with
  | nil => exact hQ _ _ (List.Subset.refl _) ⟨rfl, by simp⟩
  | cons u us ih =>
      simp only [withOnline, call, sat_bind, sat_perform, Backed, true_and]
      refine fun target => ih fun h' infos hsub hl => hQ _ _ (fun e he => hsub (by simp [he])) ⟨?_, ?_⟩
      · simp [hl.1]
      · refine List.forall_mem_cons.mpr ⟨⟨target, hsub (by simp), rfl⟩, hl.2⟩

theorem replyUsers_backed {cmd : CmdType} {users : List (Int × String)}
    (ha : ∀ h' infos, h ⊆ h' → Listed h' users infos →
      Told P o hdr body h' cmd (P.codec.serializeUserList ⟨infos⟩)) :
    Sat (Backed P (.business o hdr body)) h (replyUsers P o hdr cmd users).run Ended := by
  simp only [replyUsers, run, sys, call, sat_run_bind, sat_run_lift]
  refine withOnline_backed users fun h' infos hsub hl => ?_
  simp only [sat_perform, Backed, true_and]
  exact ⟨ha h' infos hsub hl, fun _ => trivial⟩

theorem handleFriendList_backed (hc : hdr.cmd = CmdType.friendList.code) :
    Sat (Backed P (.business o hdr body)) h (handleFriendList P o hdr).run Ended := by
  unfold handleFriendList
  refine sat_withWriter trivial (refuse_backed (.noWriter 0 List.mem_concat_self)) ?_
  simp only [sys, store, call, sat_run_bind, sat_run_lift, sat_run_mk, sat_perform, Backed, true_and]
  rintro uid (_ | users)
  · exact ⟨_, List.mem_concat_self, trivial⟩
  · exact replyUsers_backed fun h' infos hsub hl =>
      .friends uid users infos hc (hsub (by simp)) (hsub (by simp)) hl

theorem handleSearchUser_backed (hc : hdr.cmd = CmdType.searchUser.code) :
    Sat (Backed P (.business o hdr body)) h (handleSearchUser P o hdr body).run Ended := by
  unfold handleSearchUser
  split
  · trivial
  rename_i req hreq
  refine sat_withWriter trivial (refuse_backed (.noWriter 0 List.mem_concat_self)) ?_
  simp only [store, call, sat_run_bind, sat_run_mk, sat_perform, Backed, true_and]
  rintro (_ | users)
  · exact ⟨_, List.mem_concat_self, trivial⟩
  · exact replyUsers_backed fun h' infos hsub hl =>
      .found req users infos hc hreq (hsub (by simp)) hl

theorem handleFriendRequests_backed (hc : hdr.cmd = CmdType.friendRequests.code) :
    Sat (Backed P (.business o hdr body)) h (handleFriendRequests P o hdr).run Ended := by
  unfold handleFriendRequests
  refine sat_withWriter trivial (refuse_backed (.noWriter 0 List.mem_concat_self)) ?_
  simp only [sys, store, call, sat_run_bind, sat_run_lift, sat_run_mk, sat_perform, Backed, true_and]
  rintro uid (_ | requests)
  · exact ⟨_, List.mem_concat_self, trivial⟩
  · exact ⟨.requests uid requests hc (by simp) (by simp), fun _ => trivial⟩

/-! ### Chat messages -/

theorem submitStreamRequest_backed {msg : ChatMessage} {uid : Int}
    (hw : Written P o hdr body h msg uid) (h9 : msg.toUid = 9999)
    {Q : List (Event Reply) → Bool → Prop} (hQ : ∀ h' b, (b = false → TurnedDown o h') → Q h' b) :
    Sat (Backed P (.business o hdr body)) h (submitStreamRequest o uid msg.content) Q := by
  simp only [submitStreamRequest, call, sat_bind, sat_perform, Backed, true_and]
  rintro (_ | w)
  · exact hQ _ _ fun _ => .inl List.mem_concat_self
  simp only [Option.isNone_some, Bool.false_eq_true, if_false, sat_bind, sat_perform, Backed, true_and]
  intro fd
  split_ifs with hfd
  · exact hQ _ _ fun _ => .inr (.inl ⟨fd, hfd, List.mem_concat_self⟩)
  · simp only [sat_bind, sat_perform, Backed, true_and]
    intro now
    refine ⟨⟨msg, ⟨hw.1, hw.2.1, by simp [hw.2.2]⟩, h9, rfl⟩, fun r => hQ _ _ fun hr => ?_⟩
    subst hr
    exact .inr (.inr ⟨fd, _, List.mem_concat_self⟩)

theorem handleAiChat_backed {msg : ChatMessage} (hc : hdr.cmd = CmdType.chat.code)
    (hp : P.codec.parseChatMessage body = some msg) (h9 : msg.toUid = 9999) :
    Sat (Backed P (.business o hdr body)) h (handleAiChat P o hdr msg).run Ended := by
  simp only [handleAiChat, sys, call, sat_run_bind, sat_run_lift, sat_perform, Backed, true_and]
  intro uid
  rw [run, sat_run_lift]
  refine submitStreamRequest_backed ⟨hc, hp, List.mem_concat_self⟩ h9 fun h' b hb => ?_
  rcases b with _ | _
  · exact refuse_backed (.busy msg uid hc hp h9 (hb rfl))
  · trivial

theorem forwardChat_backed {msg : ChatMessage} (hc : hdr.cmd = CmdType.chat.code)
    (hp : P.codec.parseChatMessage body = some msg) (target : ℕ) :
    Sat (Backed P (.business o hdr body)) h (forwardChat P o hdr msg target).run Ended := by
  simp only [forwardChat, reply, sys, run, call, sat_run_bind, sat_run_lift, sat_perform, Backed,
    true_and]
  refine fun uid => ⟨⟨msg, uid, ⟨hc, hp, by simp⟩, rfl, rfl⟩, fun _ ackUid => ?_⟩
  refine ⟨.forwarded msg target uid ackUid hc hp (by simp), fun _ => ?_⟩
  rintro (_ | _)
  · trivial
  · simp only [if_true, sat_run_bind, sat_run_lift, sat_perform, Backed, true_and]
    exact fun uid' => ⟨⟨msg, ⟨hc, hp, by simp⟩, rfl, rfl⟩, fun _ => trivial⟩

theorem storeChat_backed {msg : ChatMessage} (hc : hdr.cmd = CmdType.chat.code)
    (hp : P.codec.parseChatMessage body = some msg) (hoff : ⟨.sessionGet msg.toUid, none⟩ ∈ h) :
    Sat (Backed P (.business o hdr body)) h (storeChat P o hdr msg).run Ended := by
  simp only [storeChat, reply, sys, run, call, sat_run_bind, sat_run_lift, sat_perform, Backed, true_and]
  rintro (_ | _)
  · simp only [Bool.false_eq_true, if_false, sat_run_bind, sat_run_lift, sat_perform, Backed, true_and]
    exact fun uid => ⟨.refused _ (.notOnline msg uid hc hp (by simp [hoff]) (.inl (by simp))),
      fun _ => trivial⟩
  · simp only [if_true, sat_run_bind, sat_run_lift, sat_perform, Backed, true_and]
    refine fun uid => ⟨⟨msg, ⟨hc, hp, by simp⟩, rfl, rfl⟩, fun _ ackUid => ?_⟩
    refine ⟨.refused _ (.notOnline msg ackUid hc hp (by simp [hoff]) (.inr ?_)), fun _ => trivial⟩
    exact ⟨{ fromUid := uid, toUid := msg.toUid, content := msg.content, delivered := false }, by simp⟩

theorem handleChat_backed (hc : hdr.cmd = CmdType.chat.code) :
    Sat (Backed P (.business o hdr body)) h (handleChat P o hdr body).run Ended := by
  unfold handleChat
  split
  · trivial
  rename_i msg hmsg
  split_ifs with h9
  · exact handleAiChat_backed hc hmsg h9
  · simp only [sys, call, sat_run_bind, sat_run_lift, sat_perform, Backed, true_and]
    rintro (_ | target)
    · exact storeChat_backed hc hmsg List.mem_concat_self
    · exact forwardChat_backed hc hmsg target

/-! ### All packets -/

theorem dispatch_backed :
    Sat (Backed P (.business o hdr body)) h (dispatch P o hdr body).run Ended := by
  unfold dispatch
  split_ifs with h1 h2 h3 h4 h5 h6 h7 h8 h9
  · exact handleLogin_backed h1
  · exact handleChat_backed h2
  · exact handleRegister_backed h3
  · exact handleHeartbeat_backed h4
  · exact handleAddFriend_backed h5
  · exact handleAcceptFriend_backed h6
  · exact handleFriendList_backed h7
  · exact handleSearchUser_backed h8
  · exact handleFriendRequests_backed h9
  · trivial

theorem processBusiness_backed :
    Sat (Backed P (.business o hdr body)) [] (processBusiness P o hdr body) fun _ _ => True := by
  have hbody : Sat (Backed P (.business o hdr body)) [] (businessBody P o hdr body).run Ended := by
    unfold businessBody
    split_ifs with hc
    · simp only [sys, call, sat_run_bind, sat_run_lift, sat_perform, Backed, true_and]
      rintro now (_ | _)
      · exact dispatch_backed
      · exact refuse_backed (.tooFast now hc (by simp))
    · exact dispatch_backed
  rw [processBusiness, sat_bind]
  refine hbody.mono (fun _ _ hg => hg) ?_
  rintro h' (_ | _) hend
  · obtain ⟨e, he, ht⟩ := hend
    simp only [reply, call, sat_perform, Backed, true_and]
    exact ⟨.refused _ (.failed e he ht), fun _ => trivial⟩
  · trivial

end Handlers

/-! ## AI streams -/

section Stream

variable {P : Params} {req : StreamRequest} {h : List (Event Reply)}

theorem sendStreamChunk_backed (chunk : Bytes) (isLast : Bool) (streamSeq : Int)
    {Q : List (Event Reply) → Unit → Prop} (hQ : ∀ h, Q h ()) :
    Sat (Backed P (.stream req)) h (sendStreamChunk P req chunk isLast streamSeq) Q := by
  simp only [sendStreamChunk, call, sat_bind, sat_perform, Backed, true_and]
  intro w
  split_ifs
  · exact hQ _
  · exact hQ _
  · simp only [sat_bind, sat_perform, Backed, true_and]
    exact fun now => ⟨⟨chunk, isLast, streamSeq, now, rfl⟩, fun _ => hQ _⟩

theorem onChunks_backed (chunks : List (Bytes × Bool)) (b : StreamBuf)
    {Q : List (Event Reply) → StreamBuf → Prop} (hQ : ∀ h b, Q h b) :
    Sat (Backed P (.stream req)) h (onChunks P req chunks b) Q := by
  induction chunks generalizing h b with
  | nil => exact hQ _ _
  | cons c rest ih =>
      obtain ⟨chunk, late⟩ := c
      simp only [onChunks, call, sat_bind, sat_perform, Backed, true_and]
      intro fd
      split_ifs
      · exact ih _
      · rw [sat_bind]
        exact sendStreamChunk_backed _ _ _ fun _ => ih _
      · exact ih _

theorem onComplete_backed (b : StreamBuf) {Q : List (Event Reply) → StreamBuf → Prop}
    (hQ : ∀ h b, Q h b) : Sat (Backed P (.stream req)) h (onComplete P req b) Q := by
  simp only [onComplete, call, sat_bind, sat_perform, Backed, true_and]
  intro fd
  split_ifs
  · exact hQ _ _
  · rw [sat_bind]
    exact sendStreamChunk_backed _ _ _ fun _ => hQ _ _

theorem sendPieces_backed (ps : List Bytes) (streamSeq : Int)
    {Q : List (Event Reply) → Unit → Prop} (hQ : ∀ h, Q h ()) :
    Sat (Backed P (.stream req)) h (sendPieces P req ps streamSeq) Q := by
  induction ps generalizing h streamSeq with
  | nil => exact hQ _
  | cons p rest ih =>
      simp only [sendPieces, call, sat_bind, sat_perform, Backed, true_and]
      intro fd
      split_ifs
      · rw [sat_bind]
        exact sendStreamChunk_backed _ _ _ fun _ => ih _
      · exact ih _

theorem processStreamRequest_backed (script : Script) :
    Sat (Backed P (.stream req)) [] (processStreamRequest P req script) fun _ _ => True := by
  have fin : ∀ h (b : StreamBuf), Sat (Backed P (.stream req)) h (do
      if script.success = false ∧ b.connLost = false then
        sendPieces P req (pieces (generateFallbackResponse req.prompt script.localTime)) b.streamSeq
      call (.eraseStream req.origin.ctx)) fun _ _ => True := by
    intro h b
    split_ifs
    · rw [sat_bind]
      exact sendPieces_backed _ _ fun _ => ⟨trivial, fun _ => trivial⟩
    · exact ⟨trivial, fun _ => trivial⟩
  simp only [processStreamRequest, call, sat_bind, sat_perform, Backed, true_and]
  intro fd
  split_ifs
  · exact ⟨trivial, fun _ => trivial⟩
  all_goals
    simp only [sat_bind, sat_perform, Backed, true_and]
    refine fun k => onChunks_backed _ _ fun h b => ?_
  · exact onComplete_backed _ fun h b => fin h b
  · exact fin h b

end Stream

/-- **Every task queues backed packets only.** -/
theorem task_backed (P : Params) (t : Task) (script : Script) :
    Sat (Backed P t) [] (t.prog P script) fun _ _ => True := by
  cases t with
  | business o hdr body => exact processBusiness_backed
  | stream req => exact processStreamRequest_backed script

theorem Traced.backed {P : Params} {s : State} (h : Traced P s) {i : ℕ} {t : Thread} {a : Call}
    {k : Reply a → Prog Reply Unit} (hi : s.threads i = some t) (hp : t.prog = .call a k) :
    Backed P t.task t.hist a := by
  have hpath := h.path i t hi
  rw [hp] at hpath
  exact hpath.guard (task_backed P t.task t.script)

end AuraChat
