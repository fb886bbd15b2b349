import AuraChat.Lib.Program
import AuraChat.Model.Store

set_option autoImplicit false

/-!
# The business logic

`process_business`, `SessionManager::bind` and `StreamingAIManager::submit_stream_request` as
programs of atomic calls. A call is what one thread does in one go: a load of an atomic field of a
context, one critical section, or one call into the store. Everything else a pool thread does is
local to it.

Workers, connections and the addresses of contexts are numbers. Two kinds of data are carried for
the proofs only and never looked at by a program: the `Origin` of the work (the packet and the
connection it was received on; the context is the real argument of the source) and the `Purpose` of
a queued packet.
-/

namespace AuraChat

open Interleave

/-- The received packet that a piece of work is done for. -/
structure Origin where
  pid : ℕ
  conn : ℕ
  ctx : ℕ
  deriving DecidableEq, Repr

/-- Why a packet is queued: to answer a request, to forward a chat message, to notify a friend, to
deliver a stored message, or as a chunk of an AI stream. -/
inductive Purpose
  | reply
  | forward (toUid : Int)
  | notify (uid : Int)
  | offline (msgId : Int)
  | chunk
  deriving DecidableEq, Repr

/-- An entry of the session map: the context, and the connection whose request bound it. -/
structure Session where
  ctx : ℕ
  conn : ℕ
  deriving DecidableEq, Repr

/-- `StreamingAIManager::StreamRequest`; its context is `origin.ctx`. -/
structure StreamRequest where
  origin : Origin
  uid : Int
  prompt : Bytes
  timestamp : Int
  deriving DecidableEq, Repr

/-! ## Calls -/

/-- What a pool thread does in one go. -/
inductive Call
  | steadyClock
  | systemClock
  | rateTick (ctx : ℕ) (now : Int)
  | loadUid (ctx : ℕ)
  | loadFd (ctx : ℕ)
  | ownerWorker (ctx : ℕ)
  | dbWriter
  | verifyLogin (username password : String)
  | registerUser (username password : String)
  | queryOfflineMessages (uid : Int)
  | markDelivered (uid maxId : Int)
  | searchUsers (keyword : String)
  | addFriendRequest (fromUid toUid : Int) (msg : String)
  | acceptFriendRequest (requestId acceptorUid : Int)
  | getFriends (uid : Int)
  | getPendingRequests (uid : Int)
  | submit (m : DBChatMessage)
  | bindEnter (uid : Int) (ctx : ℕ)
  | bindStore (uid : Int) (ctx : ℕ)
  | sessionGet (uid : Int)
  | queueSendPacket (ctx : ℕ) (cmd : CmdType) (seq : UInt32) (body : Bytes) (why : Purpose)
  | queueCloseConnection (old : Session) (fd : Int)
  | aiEnqueue (fd : Int) (req : StreamRequest)
  | nextClient
  | eraseStream (ctx : ℕ)

/-- The reply to a call. The store may answer with a `std::exception`. -/
@[reducible] def Reply : Call → Type
  | .steadyClock => Int
  | .systemClock => Int
  | .rateTick _ _ => Bool
  | .loadUid _ => Int
  | .loadFd _ => Int
  | .ownerWorker _ => Option ℕ
  | .dbWriter => Bool
  | .verifyLogin _ _ => Except Unit Int
  | .registerUser _ _ => Except Unit Int
  | .queryOfflineMessages _ => Except Unit (List DBChatMessage)
  | .markDelivered _ _ => Except Unit Unit
  | .searchUsers _ => Except Unit (List (Int × String))
  | .addFriendRequest _ _ _ => Except Unit Int
  | .acceptFriendRequest _ _ => Except Unit Int
  | .getFriends _ => Except Unit (List (Int × String))
  | .getPendingRequests _ => Except Unit (List FriendRequestInfo)
  | .submit _ => Unit
  | .bindEnter _ _ => Option Session
  | .bindStore _ _ => Unit
  | .sessionGet _ => Option ℕ
  | .queueSendPacket _ _ _ _ _ => Unit
  | .queueCloseConnection _ _ => Unit
  | .aiEnqueue _ _ => Bool
  | .nextClient => ℕ
  | .eraseStream _ => Unit

def call (a : Call) : Prog Reply (Reply a) := Prog.perform a

/-- Code under the `try` of `process_business`. -/
abbrev Biz : Type → Type := ExceptT Unit (Prog Reply)

/-- A call without an exception. -/
def sys (a : Call) : Biz (Reply a) := ExceptT.lift (call a)

def run {α : Type} (p : Prog Reply α) : Biz α := ExceptT.lift p

/-- A call into the store, whose exception goes to the `catch` of `process_business`. -/
def store {α : Type} (p : Prog Reply (Except Unit α)) : Biz α := ExceptT.mk p

/-! ## Sessions -/

/-- `SessionManager::bind`. `bindEnter` is the first critical section: without an entry it also
stores the new one before the lock is released. `old->fd` is loaded twice. -/
def sessionBind (uid : Int) (ctx : ℕ) : Prog Reply Unit := do
  match ← call (.bindEnter uid ctx) with
  | none => pure ()
  | some old =>
      if (← call (.loadFd old.ctx)) ≠ -1 then
        let fd ← call (.loadFd old.ctx)
        call (.queueCloseConnection old fd)
      call (.bindStore uid ctx)

/-! ## AI requests -/

def submitStreamRequest (o : Origin) (senderUid : Int) (prompt : Bytes) : Prog Reply Bool := do
  if (← call (.ownerWorker o.ctx)).isNone then pure false
  else
    let fd ← call (.loadFd o.ctx)
    if fd < 0 then pure false
    else
      let now ← call .steadyClock
      call (.aiEnqueue fd ⟨o, senderUid, prompt, now⟩)

/-! ## The handlers -/

section Handlers

variable (P : Params) (o : Origin) (hdr : PacketHeader) (body : Bytes)

/-- Queue an `ACK` to the sender, with the sequence number of the request. -/
def reply (r : Response) : Prog Reply Unit :=
  call (.queueSendPacket o.ctx .ack hdr.seq (P.codec.serializeResponse r) .reply)

/-- Queue a stored message to the user who logs in. -/
def deliverOffline (m : DBChatMessage) : Prog Reply Unit := do
  let now ← call .systemClock
  call (.queueSendPacket o.ctx .chat 0 (P.codec.serializeChatMessage
    { fromUid := m.fromUid, toUid := m.toUid, content := m.content, timestamp := now })
    (.offline m.id))

def int64Max : Int := 9223372036854775807

/-- The stored messages of a user who has just been bound. -/
def deliverOfflineMessages (uid : Int) : Biz Unit := do
  if ← sys .dbWriter then
    let msgs ← store (call (.queryOfflineMessages uid))
    if msgs ≠ [] then
      run (msgs.forM (deliverOffline P o))
      store (call (.markDelivered uid int64Max))

def handleLogin : Biz Unit :=
  match P.codec.parseLoginRequest body with
  | none => pure ()
  | some req => do
      let uid ← if ← sys .dbWriter then
          store (call (.verifyLogin req.username req.password))
        else pure (-1)
      if 0 < uid then
        run (sessionBind uid o.ctx)
        deliverOfflineMessages P o uid
        run (reply P o hdr { success := true, uid := uid, msg := "login success" })
      else run (reply P o hdr { msg := "用户名或密码错误" })

/-- A chat message to the AI user 9999. -/
def handleAiChat (msg : ChatMessage) : Biz Unit := do
  let senderUid ← sys (.loadUid o.ctx)
  if !(← run (submitStreamRequest o senderUid msg.content)) then
    run (reply P o hdr { uid := senderUid, msg := "AI服务繁忙，请稍后再试" })

/-- A chat message to a user with a session. Every `ctx->uid.load()` is a load of its own. -/
def forwardChat (msg : ChatMessage) (target : ℕ) : Biz Unit := do
  let fromUid ← sys (.loadUid o.ctx)
  sys (.queueSendPacket target .chat 0 (P.codec.serializeChatMessage { msg with fromUid := fromUid })
    (.forward msg.toUid))
  let ackUid ← sys (.loadUid o.ctx)
  run (reply P o hdr { success := true, uid := ackUid, msg := "消息已发送给用户" ++ toString msg.toUid })
  if ← sys .dbWriter then
    let uid ← sys (.loadUid o.ctx)
    sys (.submit { fromUid := uid, toUid := msg.toUid, content := msg.content, delivered := true })

/-- A chat message to a user without a session. -/
def storeChat (msg : ChatMessage) : Biz Unit := do
  if ← sys .dbWriter then
    let uid ← sys (.loadUid o.ctx)
    sys (.submit { fromUid := uid, toUid := msg.toUid, content := msg.content, delivered := false })
  let ackUid ← sys (.loadUid o.ctx)
  run (reply P o hdr { uid := ackUid, msg := "用户" ++ toString msg.toUid ++ "不在线，消息已存储" })

def handleChat : Biz Unit :=
  match P.codec.parseChatMessage body with
  | none => pure ()
  | some msg =>
      if msg.toUid = 9999 then handleAiChat P o hdr msg
      else do
        match ← sys (.sessionGet msg.toUid) with
        | some target => forwardChat P o hdr msg target
        | none => storeChat P o hdr msg

def handleRegister : Biz Unit :=
  match P.codec.parseRegisterRequest body with
  | none => pure ()
  | some req => do
      if req.username = "" ∨ req.password = "" then
        run (reply P o hdr { msg := "用户名和密码不能为空" })
      else if !(← sys .dbWriter) then
        run (reply P o hdr { msg := "服务暂不可用" })
      else
        let uid ← store (call (.registerUser req.username req.password))
        if uid = -2 then run (reply P o hdr { msg := "用户名已存在" })
        else if uid < 0 then run (reply P o hdr { msg := "注册失败，请稍后再试" })
        else
          run (sessionBind uid o.ctx)
          run (reply P o hdr
            { success := true, uid := uid, msg := "注册成功，您的UID是" ++ toString uid })

def handleHeartbeat : Biz Unit := do
  let uid ← sys (.loadUid o.ctx)
  run (reply P o hdr { success := true, uid := uid, msg := "PONG" })

/-- Tell a user with a session about a friend request. -/
def notifyFriend (uid : Int) (text : String) : Biz Unit := do
  match ← sys (.sessionGet uid) with
  | none => pure ()
  | some target =>
      sys (.queueSendPacket target .ack 0
        (P.codec.serializeResponse { success := true, msg := text }) (.notify uid))

def handleAddFriend : Biz Unit :=
  match P.codec.parseAddFriendRequest body with
  | none => pure ()
  | some req => do
      let fromUid ← sys (.loadUid o.ctx)
      if req.toUid = fromUid then
        run (reply P o hdr { uid := fromUid, msg := "不能添加自己为好友" })
      else if !(← sys .dbWriter) then
        run (reply P o hdr { uid := fromUid, msg := "服务暂不可用" })
      else
        let ret ← store (call (.addFriendRequest fromUid req.toUid req.message))
        if ret = -2 then run (reply P o hdr { uid := fromUid, msg := "已经是好友了" })
        else if ret = -3 then
          run (reply P o hdr { uid := fromUid, msg := "已发送过好友请求，请等待对方处理" })
        else if ret < 0 then run (reply P o hdr { uid := fromUid, msg := "发送失败，请稍后再试" })
        else
          notifyFriend P req.toUid "收到新的好友请求"
          run (reply P o hdr { success := true, uid := fromUid, msg := "好友请求已发送" })

def handleAcceptFriend : Biz Unit :=
  match P.codec.parseAcceptFriendRequest body with
  | none => pure ()
  | some req => do
      let acceptorUid ← sys (.loadUid o.ctx)
      if !(← sys .dbWriter) then
        run (reply P o hdr { uid := acceptorUid, msg := "服务暂不可用" })
      else
        let fromUid ← store (call (.acceptFriendRequest req.requestId acceptorUid))
        if fromUid < 0 then
          run (reply P o hdr { uid := acceptorUid, msg := "处理失败，请求可能已过期" })
        else
          notifyFriend P fromUid "您的好友请求已被接受"
          run (reply P o hdr { success := true, uid := acceptorUid, msg := "已添加为好友" })

/-- Look up which users of a list have a session. -/
def withOnline : List (Int × String) → Prog Reply (List FriendInfo)
  | [] => pure []
  | u :: us => do
      let target ← call (.sessionGet u.1)
      let rest ← withOnline us
      pure (⟨u.1, u.2, target.isSome⟩ :: rest)

/-- Send a list of users under its own command. -/
def replyUsers (cmd : CmdType) (users : List (Int × String)) : Biz Unit := do
  let infos ← run (withOnline users)
  sys (.queueSendPacket o.ctx cmd hdr.seq (P.codec.serializeUserList ⟨infos⟩) .reply)

def handleFriendList : Biz Unit := do
  if !(← sys .dbWriter) then run (reply P o hdr { msg := "服务暂不可用" })
  else
    let uid ← sys (.loadUid o.ctx)
    let friends ← store (call (.getFriends uid))
    replyUsers P o hdr .friendList friends

def handleSearchUser : Biz Unit :=
  match P.codec.parseSearchUserRequest body with
  | none => pure ()
  | some req => do
      if !(← sys .dbWriter) then run (reply P o hdr { msg := "服务暂不可用" })
      else
        let users ← store (call (.searchUsers req.keyword))
        replyUsers P o hdr .searchUser users

def handleFriendRequests : Biz Unit := do
  if !(← sys .dbWriter) then run (reply P o hdr { msg := "服务暂不可用" })
  else
    let uid ← sys (.loadUid o.ctx)
    let requests ← store (call (.getPendingRequests uid))
    sys (.queueSendPacket o.ctx .friendRequests hdr.seq
      (P.codec.serializeFriendRequestList ⟨requests⟩) .reply)

/-- The dispatch on the command; an unknown command does nothing. -/
def dispatch : Biz Unit :=
  if hdr.cmd = CmdType.login.code then handleLogin P o hdr body
  else if hdr.cmd = CmdType.chat.code then handleChat P o hdr body
  else if hdr.cmd = CmdType.register.code then handleRegister P o hdr body
  else if hdr.cmd = CmdType.heartbeat.code then handleHeartbeat P o hdr
  else if hdr.cmd = CmdType.addFriend.code then handleAddFriend P o hdr body
  else if hdr.cmd = CmdType.acceptFriend.code then handleAcceptFriend P o hdr body
  else if hdr.cmd = CmdType.friendList.code then handleFriendList P o hdr
  else if hdr.cmd = CmdType.searchUser.code then handleSearchUser P o hdr body
  else if hdr.cmd = CmdType.friendRequests.code then handleFriendRequests P o hdr
  else pure ()

/-- The body of the `try` block: the rate limit of chat packets, then the dispatch. -/
def businessBody : Biz Unit := do
  if hdr.cmd = CmdType.chat.code then
    let now ← sys .steadyClock
    if ← sys (.rateTick o.ctx now) then
      run (reply P o hdr { msg := "消息发送过快，请稍后再试" })
    else dispatch P o hdr body
  else dispatch P o hdr body

def processBusiness : Prog Reply Unit := do
  match ← (businessBody P o hdr body).run with
  | .ok _ => pure ()
  | .error _ => reply P o hdr { msg := "服务器内部错误" }

end Handlers

end AuraChat
