import AuraChat.Lib.Reach
import AuraChat.Model.Framing

set_option autoImplicit false

/-!
# The client

`chat_client.cpp`: what the receiving thread makes of `CHAT` and `ACK` frames, and how the main thread
and the heartbeat thread send packets and wait for the answer to a `LOGIN` or `REGISTER`.

* `Display`, `handleChatMessage`, `receiveChat`: the stream display;
* `Client`, `Client.step`: the three threads of a client and the server's answers, as a step function.

`send_packet` makes two calls of `::send`, so a packet under way is a `PacketSend`. The increment of
`seq_`, which no lock protects, is one step. The bodies of the packets are part of the labels: what
the user types is up to the environment.
-/

namespace AuraChat

open Interleave

/-! ## The stream display -/

/-- What the client prints: the prompt in front of an AI stream, text of a stream, or a message of a
user (with the mark of the current chat). -/
inductive Shown
  | prompt
  | text (content : Bytes)
  | message (fromUid : Int) (current : Bool) (content : Bytes)
  deriving DecidableEq, Repr

/-- What `handle_chat_message` reads and writes. -/
structure Display where
  inStream : Bool := false
  streamStarted : Bool := false
  streamCompleted : Bool := false
  chatTarget : Int := 9999
  shown : List Shown := []
  deriving DecidableEq, Repr

def handleChatMessage (msg : ChatMessage) (d : Display) : Display :=
  if msg.fromUid ≠ 9999 then
    if d.inStream then d
    else { d with
      shown := d.shown ++ [.message msg.fromUid (msg.fromUid = d.chatTarget) msg.content] }
  else if msg.isLastChunk then { d with inStream := false, streamCompleted := true }
  else if msg.content = [] then d
  else if d.inStream then { d with shown := d.shown ++ [.text msg.content] }
  else { d with
    inStream := true
    streamStarted := true
    shown := d.shown ++ [.prompt, .text msg.content] }

/-- The branch of `receive_loop` for a `CHAT` frame. -/
def receiveChat (codec : Codec) (d : Display) (body : Bytes) : Display :=
  match codec.parseChatMessage body with
  | some msg => handleChatMessage msg d
  | none => d

/-- The text of AI streams among what is printed. -/
def streamText (shown : List Shown) : Bytes :=
  shown.flatMap fun x => match x with
    | .text content => content
    | _ => []

/-! ## Packets -/

/-- The threads of a client that send. -/
inductive Sender
  | main | heartbeat
  deriving DecidableEq, Repr

/-- One call of `send_packet`. -/
structure Packet where
  seq : UInt32
  cmd : CmdType
  body : Bytes
  deriving DecidableEq, Repr

def Packet.header (p : Packet) : Bytes := (headerOf p.cmd.code p.seq p.body).toBytes

def Packet.frame (p : Packet) : Bytes := sendPacket p.seq p.cmd.code p.body

/-- A call of `send_packet` under way: the number of the call, and whether the header is sent. -/
structure PacketSend where
  num : ℕ
  packet : Packet
  headerSent : Bool := false
  deriving DecidableEq, Repr

/-! ## The threads -/

/-- The main thread: at the prompt, in `send_message`, in `do_login` or `do_register` before and
inside `send_packet`, or in `wait_auth_result` for the packet with the given number. -/
inductive MainPc
  | prompt
  | chat (o : PacketSend)
  | armed (cmd : CmdType) (body : Bytes)
  | auth (o : PacketSend)
  | waiting (num : ℕ)
  deriving DecidableEq, Repr

/-- The heartbeat thread: not started, asleep, or in `send_packet`. -/
inductive HeartbeatPc
  | off
  | asleep
  | beating (o : PacketSend)
  deriving DecidableEq, Repr

structure PendingAuth where
  active : Bool := false
  uid : Int := -1
  msg : String := ""
  deriving DecidableEq, Repr

/-- An `ACK` frame on its way to the client. `answers` is the number of the packet whose `seq` it
echoes; a notification has `seq` 0 and answers none. The client reads only the response. -/
structure Ack where
  answers : Option ℕ
  resp : Response
  deriving DecidableEq, Repr

structure Client where
  uid : Int := -1
  seq : UInt32 := 0
  pending : PendingAuth := {}
  main : MainPc := .prompt
  heartbeat : HeartbeatPc := .off
  /-- The bytes sent so far. -/
  wire : Bytes := []
  /-- The `ACK` frames that the server has sent and the client has not handled. -/
  inbox : List Ack := []
  /-- The calls of `send_packet`, by number; this and what follows is for the statements about runs. -/
  packets : List Packet := []
  /-- The answers of the server, each with the number of the packet. -/
  replies : List (ℕ × Response) := []
  /-- The calls of `do_login` and `do_register` that returned `true`: the number of the packet and the
  new `uid_`. -/
  accepted : List (ℕ × Int) := []
  deriving DecidableEq, Repr

namespace Client

/-! ## Sending -/

def outgoing (s : Client) : Sender → Option PacketSend
  | .main => match s.main with
    | .chat o | .auth o => some o
    | _ => none
  | .heartbeat => match s.heartbeat with
    | .beating o => some o
    | _ => none

/-- The packet whose header a thread has sent and whose body it has not. -/
def between (s : Client) (t : Sender) : Option Packet :=
  match s.outgoing t with
  | some o => if o.headerSent then some o.packet else none
  | none => none

/-- The start of `send_packet`: `++seq_`. -/
def enterSend (s : Client) (cmd : CmdType) (body : Bytes) : Client × PacketSend :=
  let p : Packet := ⟨s.seq + 1, cmd, body⟩
  ({ s with seq := s.seq + 1, packets := s.packets ++ [p] }, ⟨s.packets.length, p, false⟩)

/-- A thread goes on with the packet `o`. -/
def setOutgoing (s : Client) (t : Sender) (o : PacketSend) : Client :=
  match t with
  | .main => match s.main with
    | .auth _ => { s with main := .auth o }
    | _ => { s with main := .chat o }
  | .heartbeat => { s with heartbeat := .beating o }

/-- `send_packet` returns to its caller: `true` leads to `wait_auth_result` after a `LOGIN` or
`REGISTER`, and `false` leaves `pending_response_` as it is. -/
def leaveSend (s : Client) (t : Sender) (ok : Bool) : Client :=
  match t with
  | .main => match s.main with
    | .auth o => { s with main := if ok then .waiting o.num else .prompt }
    | _ => { s with main := .prompt }
  | .heartbeat => { s with heartbeat := .asleep }

/-- The first `::send`. -/
def sendHeader (s : Client) (t : Sender) : Option Client :=
  match s.outgoing t with
  | some ⟨num, p, false⟩ =>
      let s := { s with wire := s.wire ++ p.header }
      some (if p.body = [] then s.leaveSend t true else s.setOutgoing t ⟨num, p, true⟩)
  | _ => none

/-- The second `::send`. -/
def sendBody (s : Client) (t : Sender) : Option Client :=
  match s.outgoing t with
  | some ⟨_, p, true⟩ => some ({ s with wire := s.wire ++ p.body }.leaveSend t true)
  | _ => none

/-! ## Answers -/

/-- `AIChatClient::handle_ack_response`, as far as it writes fields of the client. -/
def handleAckResponse (resp : Response) (s : Client) : Client :=
  if resp.msg = "PONG" then s
  else if s.pending.active then { s with pending := ⟨false, resp.uid, resp.msg⟩ }
  else s

/-- The end of `wait_auth_result` once the predicate of the wait holds. -/
def wake (s : Client) (num : ℕ) : Client :=
  if 0 < s.pending.uid then
    { s with
      uid := s.pending.uid
      main := .prompt
      heartbeat := if s.heartbeat = .off then .asleep else s.heartbeat
      accepted := s.accepted ++ [(num, s.pending.uid)] }
  else { s with main := .prompt }

/-- An answer of the server to a `LOGIN` or `REGISTER`: one with a uid is a success. -/
def AuthReply (r : Response) : Prop := 0 < r.uid → r.success = true

instance (r : Response) : Decidable (AuthReply r) := by unfold AuthReply; infer_instance

/-- The command of a packet that the client waits for. -/
def isAuth (cmd : CmdType) : Bool := cmd = .login ∨ cmd = .register

/-! ## Steps -/

inductive Label
  /-- The user sends a chat message. -/
  | chat (body : Bytes)
  /-- The user logs in or registers; `pending_response_` is set. -/
  | arm (register : Bool) (body : Bytes)
  /-- `do_login` or `do_register` calls `send_packet`. -/
  | sendAuth
  /-- The heartbeat thread wakes up and calls `send_packet`. -/
  | beat (body : Bytes)
  /-- The first and the second `::send` of a thread. -/
  | header (t : Sender)
  | body (t : Sender)
  /-- The `::send` that a thread is about to make fails. -/
  | fail (t : Sender)
  /-- The server answers the packet with the given number. -/
  | answer (num : ℕ) (r : Response)
  /-- The server notifies the client of a friend request. -/
  | notify (text : String)
  /-- `receive_loop` handles the next `ACK` frame. -/
  | receive
  /-- The wait of `wait_auth_result` ends, or runs out after ten seconds. -/
  | wake
  | timeout
  deriving DecidableEq, Repr

def step : Label → Client → Option Client
  | .chat body, s =>
      if s.main = .prompt ∧ 0 < s.uid then
        let (s, o) := s.enterSend .chat body
        some { s with main := .chat o }
      else none
  | .arm register body, s =>
      if s.main = .prompt then
        some { s with
          pending := ⟨true, -1, ""⟩
          main := .armed (if register then .register else .login) body }
      else none
  | .sendAuth, s => match s.main with
      | .armed cmd body =>
          let (s, o) := s.enterSend cmd body
          some { s with main := .auth o }
      | _ => none
  | .beat body, s =>
      if s.heartbeat = .asleep ∧ 0 < s.uid then
        let (s, o) := s.enterSend .heartbeat body
        some { s with heartbeat := .beating o }
      else none
  | .header t, s => s.sendHeader t
  | .body t, s => s.sendBody t
  | .fail t, s => (s.outgoing t).map fun _ => s.leaveSend t false
  | .answer num r, s => match s.packets[num]? with
      | some p =>
          if isAuth p.cmd = true → AuthReply r then
            some { s with inbox := s.inbox ++ [⟨some num, r⟩], replies := s.replies ++ [(num, r)] }
          else none
      | none => none
  | .notify text, s => some { s with inbox := s.inbox ++ [⟨none, { success := true, msg := text }⟩] }
  | .receive, s => match s.inbox with
      | a :: rest => some (handleAckResponse a.resp { s with inbox := rest })
      | [] => none
  | .wake, s => match s.main with
      | .waiting num => if s.pending.active then none else some (s.wake num)
      | _ => none
  | .timeout, s => match s.main with
      | .waiting _ =>
          if s.pending.active then
            some { s with pending := { s.pending with active := false }, main := .prompt }
          else none
      | _ => none

/-- The states that a client reaches in a run whose steps all meet `C`. -/
abbrev RunTo (C : Label → Client → Prop) (s : Client) : Prop := Reach step C {} s

theorem exists_run (C : Label → Client → Prop) [∀ l s, Decidable (C l s)] (ls : List Label)
    (p : Client → Prop) (h : ∃ s ∈ runAll step C ls {}, p s) : ∃ s, RunTo C s ∧ p s :=
  exists_reach ls h

end Client

end AuraChat
