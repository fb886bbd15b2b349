import AuraChat.Lib.Scan
import AuraChat.Model.Client

set_option autoImplicit false

/-!
# The main thread of the client

`chat_loop`, `handle_command` and what they call, as programs of atomic calls: what is printed, sent and
waited for, and the variables that the main thread shares with the others. A packet is a call with its
message, and the reply says whether `send_packet` returned `true`. The other variables are written by the
main thread alone: they are the state `AIChatClient`.

* `AIChatClient.handleCommand`, `AIChatClient.chatTurn`: a line of input;
* `Console`, `Console.step`: `wait_for_stream_completion` next to the receiving thread.
-/

namespace AuraChat

open Interleave Interleave.Prog

structure AIChatClient where
  uid : Int := -1
  chatTarget : Int := 9999
  recentContacts : List Int := []
  deriving DecidableEq, Repr

namespace AIChatClient

/-! ## Calls -/

inductive Message
  | login (username password : Bytes)
  | register (username password : Bytes)
  | chat (msg : ChatMessage)
  deriving DecidableEq, Repr

inductive Call
  | print (text : Bytes)
  | loadInStream
  | loadRunning
  /-- `running_ = false`. -/
  | stopRunning
  | systemClock
  /-- `pending_response_ = PendingAuth{true, -1, ""}`. -/
  | armPending
  | sendPacket (m : Message)
  /-- The wait of `wait_auth_result`, with the response unless ten seconds pass. -/
  | waitAuth
  | startHeartbeat
  /-- The flags of the stream and the time of the last chunk are reset. -/
  | resetStream
  | waitForStreamCompletion
  deriving DecidableEq, Repr

abbrev Reply : Call → Type
  | .loadInStream => Bool
  | .loadRunning => Bool
  | .systemClock => Int
  | .sendPacket _ => Bool
  | .waitAuth => Option (Int × Bytes)
  | _ => Unit

def call (a : Call) : Prog Reply (Reply a) := perform a

/-- `std::cout << … << std::endl`, or `std::cerr`. -/
def print (text : Bytes) : Prog Reply Unit := call (.print text)

def decimal (n : Int) : Bytes := bytes (toString n)

/-! ## Registering and logging in -/

def waitAuthResult (action : Bytes) (s : AIChatClient) : Prog Reply (Bool × AIChatClient) := do
  match ← call .waitAuth with
  | none =>
      print (bytes "⏰ " ++ action ++ bytes "超时")
      pure (false, s)
  | some (uid, msg) =>
      if 0 < uid then
        print (bytes "✅ " ++ action ++ bytes "成功! UID: " ++ decimal uid)
        call .startHeartbeat
        pure (true, { s with uid := uid })
      else
        print (bytes "❌ " ++ action ++ bytes "失败: " ++ msg)
        pure (false, s)

/-- What `do_register` and `do_login` have in common. -/
def authenticate (m : Message) (username password action : Bytes) (s : AIChatClient) :
    Prog Reply (Bool × AIChatClient) := do
  if username = [] ∨ password = [] then
    print (bytes "❌ 用户名和密码不能为空")
    pure (false, s)
  else
    call .armPending
    if ← call (.sendPacket m) then waitAuthResult action s else pure (false, s)

def doRegister (username password : Bytes) (s : AIChatClient) : Prog Reply (Bool × AIChatClient) :=
  authenticate (.register username password) username password (bytes "注册") s

def doLogin (username password : Bytes) (s : AIChatClient) : Prog Reply (Bool × AIChatClient) :=
  authenticate (.login username password) username password (bytes "登录") s

/-! ## Messages -/

def sendMessage (toUid : Int) (text : Bytes) (s : AIChatClient) : Prog Reply Bool := do
  if ¬ 0 < s.uid then
    print (bytes "❌ 请先登录")
    pure false
  else
    let now ← call .systemClock
    call (.sendPacket (.chat { fromUid := s.uid, toUid := toUid, content := text, timestamp := now }))

def addRecentContact (uid : Int) (s : AIChatClient) : AIChatClient :=
  let contacts := uid :: s.recentContacts.filter fun c => c ≠ uid
  { s with recentContacts := if 10 < contacts.length then contacts.dropLast else contacts }

/-! ## Commands -/

def printWelcome : Prog Reply Unit :=
  [ "========================================", "🔌 已连接到 IM 服务器",
    "========================================", "📝 请先注册或登录:",
    "  /register <用户名> <密码>  — 注册新账号", "  /login <用户名> <密码>     — 登录已有账号",
    "========================================", "💡 登录后可用命令:",
    "  /ai              — 切换到 AI 对话", "  /chat <uid>      — 切换到私聊",
    "  /to <uid> <消息>  — 快速发送给指定用户", "  /list            — 最近联系人",
    "  /status          — 当前状态", "  /quit            — 退出",
    "========================================" ].forM fun text => print (bytes text)

/-- `iss >> u >> p`. -/
def twoWords (iss : Bytes) : Option (Bytes × Bytes) := do
  let (u, iss) ← Scan.word iss
  let (p, _) ← Scan.word iss
  pure (u, p)

/-- The rest of the line after the user of `/to`, without the blank in front of it. -/
def restOfLine (iss : Bytes) : Bytes :=
  match iss.takeWhile fun b => b ≠ 0x0A with
  | 0x20 :: m => m
  | m => m

/-- `handle_command`: whether the line needs no more work. -/
def handleCommand (line : Bytes) (s : AIChatClient) : Prog Reply (Bool × AIChatClient) := do
  if line.head? ≠ some 0x2F then pure (false, s)
  else
    let (cmd, iss) := (Scan.word line).getD ([], [])
    if cmd = bytes "/register" then
      match twoWords iss with
      | some (u, p) => doRegister u p s
      | none =>
          print (bytes "❌ 用法: /register <用户名> <密码>")
          pure (true, s)
    else if cmd = bytes "/login" then
      match twoWords iss with
      | some (u, p) => doLogin u p s
      | none =>
          print (bytes "❌ 用法: /login <用户名> <密码>")
          pure (true, s)
    else if ¬ 0 < s.uid then
      print (bytes "❌ 请先注册或登录")
      pure (true, s)
    else if cmd = bytes "/ai" then
      print (bytes "✅ 已切换到 AI 对话模式")
      pure (true, { s with chatTarget := 9999 })
    else if cmd = bytes "/chat" then
      match Scan.int iss with
      | some (t, _) =>
          if t = s.uid then
            print (bytes "❌ 不能和自己私聊")
            pure (true, s)
          else
            print (bytes "✅ 已切换到与用户" ++ decimal t ++ bytes "的私聊模式")
            pure (true, addRecentContact t { s with chatTarget := t })
      | none =>
          print (bytes "❌ 用法: /chat <uid>")
          pure (true, s)
    else if cmd = bytes "/to" then
      match (Scan.int iss).map fun r => (r.1, restOfLine r.2) with
      | some (t, b :: m) =>
          print (bytes "📤 发送给用户" ++ decimal t ++ bytes ": " ++ b :: m)
          let ok ← sendMessage t (b :: m) s
          pure (ok, addRecentContact t s)
      | _ =>
          print (bytes "❌ 用法: /to <uid> <消息>")
          pure (true, s)
    else if cmd = bytes "/list" then
      if s.recentContacts = [] then print (bytes "📋 暂无最近联系人")
      else
        print (bytes "📋 最近联系人:")
        s.recentContacts.forM fun c =>
          print (bytes "  👤 用户" ++ decimal c ++ if c = s.chatTarget then bytes " ← 当前" else [])
      pure (true, s)
    else if cmd = bytes "/status" then
      print (bytes "📊 当前状态:")
      print (bytes "  👤 我的 UID: " ++ decimal s.uid)
      print (bytes "  🎯 当前目标: " ++
        if s.chatTarget = 9999 then bytes "AI助手" else bytes "用户" ++ decimal s.chatTarget)
      let running ← call .loadRunning
      print (bytes "  📡 连接: " ++ if running then bytes "在线" else bytes "离线")
      pure (true, s)
    else if cmd = bytes "/help" then
      printWelcome
      pure (true, s)
    else if cmd = bytes "/quit" then
      call .stopRunning
      pure (true, s)
    else
      print (bytes "❌ 未知命令: " ++ cmd ++ bytes " (输入 /help 查看帮助)")
      pure (true, s)

/-! ## The loop -/

/-- The prompt in front of a line of input. -/
def printPrompt (s : AIChatClient) : Prog Reply Unit := do
  let inStream ← call .loadInStream
  if inStream = false ∧ 0 < s.uid then
    print (if s.chatTarget = 9999 then bytes "\r[🤖 AI] >>> "
      else bytes "\r[👤 用户" ++ decimal s.chatTarget ++ bytes "] >>> ")
  else if ¬ 0 < s.uid then print (bytes "\r[未登录] >>> ")
  else pure ()

/-- One iteration of `chat_loop`, with the line that `getline` gives: whether the loop goes on. -/
def chatTurn (input : Option Bytes) (s : AIChatClient) : Prog Reply (Bool × AIChatClient) := do
  printPrompt s
  match input with
  | none => pure (false, s)
  | some line =>
      if line = [] then pure (true, s)
      else
        let (handled, s) ← handleCommand line s
        if handled then pure (true, s)
        else if ¬ 0 < s.uid then
          print (bytes "❌ 请先注册或登录: /register <用户名> <密码>  或  /login <用户名> <密码>")
          pure (true, s)
        else if s.chatTarget = 9999 then
          call .resetStream
          if ← sendMessage 9999 line s then
            call .waitForStreamCompletion
            pure (true, s)
          else
            print (bytes "\n发送失败")
            pure (false, s)
        else
          print (bytes "📤 发送给用户" ++ decimal s.chatTarget ++ bytes ": " ++ line)
          if ← sendMessage s.chatTarget line s then pure (true, s)
          else
            print (bytes "\n发送失败")
            pure (true, s)

end AIChatClient

/-! ## Waiting for the stream -/

/-- `wait_for_stream_completion`: not called yet, in the wait for a stream, in the wait of the loop; and how
the last call has ended. -/
inductive Wait
  | idle
  | starting
  | streaming
  | timedOut
  | interrupted
  | completed
  deriving DecidableEq, Repr

structure Console extends Display where
  running : Bool := true
  /-- `receive_loop` has not ended. It may handle frames after `/quit`. -/
  receiving : Bool := true
  /-- On the steady clock, in nanoseconds. -/
  lastAiChunkTime : Int := 0
  wait : Wait := .idle
  deriving DecidableEq, Repr

namespace Console

/-- The main thread is in `wait_for_stream_completion`. -/
def Waiting (c : Console) : Prop := c.wait = .starting ∨ c.wait = .streaming

instance (c : Console) : Decidable c.Waiting := by unfold Waiting; infer_instance

def elapsed (now : Int) (c : Console) : Int := (now - c.lastAiChunkTime).tdiv 1000000000

def started (c : Console) : Bool := !c.running || c.streamStarted

/-- The main thread evaluates the condition of the loop: after the first wait, or in the loop when it wakes
up without an interruption. -/
def AtLoop (now : Int) (c : Console) : Prop :=
  (c.wait = .starting ∧ c.started = true) ∨ (c.wait = .streaming ∧ c.elapsed now ≤ 30)

instance (now : Int) (c : Console) : Decidable (c.AtLoop now) := by unfold AtLoop; infer_instance

inductive Label
  /-- A line is sent to the AI after the flags are reset. The connection may have closed while it was typed. -/
  | ask (now : Int)
  /-- `/chat` or `/ai`. -/
  | switch (target : Int)
  | quit
  /-- `receive_loop` ends. -/
  | closed
  /-- `receive_loop` handles a `CHAT` frame that it has parsed. -/
  | receive (msg : ChatMessage) (now : Int)
  /-- The first wait runs out after 180 seconds. -/
  | timeout
  /-- The main thread waits for the next chunk, or its end. -/
  | sleep (now : Int)
  | finish (now : Int)
  /-- It wakes up more than 30 seconds after the last chunk. -/
  | interrupt (now : Int)
  deriving DecidableEq, Repr

def step : Label → Console → Option Console
  | .ask now, c =>
      if (c.running = true ∨ c.receiving = false) ∧ ¬ c.Waiting then
        some { c with
          streamStarted := false
          streamCompleted := false
          lastAiChunkTime := now
          wait := .starting }
      else none
  | .switch target, c => if c.Waiting then none else some { c with chatTarget := target }
  | .quit, c => if c.Waiting then none else some { c with running := false }
  | .closed, c => some { c with running := false, receiving := false }
  | .receive msg now, c =>
      if c.receiving = true then
        some { c with toDisplay := handleChatMessage msg c.toDisplay, lastAiChunkTime := now }
      else none
  | .timeout, c =>
      if c.wait = .starting ∧ c.started = false then some { c with wait := .timedOut } else none
  | .sleep now, c =>
      if c.AtLoop now ∧ c.running = true ∧ c.streamCompleted = false then
        some { c with wait := .streaming }
      else none
  | .finish now, c =>
      if c.AtLoop now ∧ ¬ (c.running = true ∧ c.streamCompleted = false) then
        some { c with inStream := false, wait := .completed }
      else none
  | .interrupt now, c =>
      if c.wait = .streaming ∧ 30 < c.elapsed now then
        some { c with inStream := false, wait := .interrupted }
      else none

/-- A run of any steps, from `c` to `c'`. -/
def Run (ls : List Label) (c c' : Console) : Prop := runAll step (fun _ _ => True) ls c = some c'

instance (ls : List Label) (c c' : Console) : Decidable (Run ls c c') := by unfold Run; infer_instance

end Console

end AuraChat
