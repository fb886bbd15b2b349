import AuraChat.Lib.Reach
import AuraChat.Model.Net
import AuraChat.Model.Stream

set_option autoImplicit false

/-!
# The server

The whole server as one step function: the accept loop of `main`, the worker loops, the pool
threads, the AI scheduler and the batch writer. A `Label` says which thread moves and supplies what
comes from outside: the descriptor that `accept4` returns, the packets and the errors of a client,
the clock, the replies of MySQL, the language model.

* `act`: the effect of one call of a pool thread. A call through a null `owner_worker` has no
  successor state;
* `step`: one step of the server;
* `State.log` records what has happened, for the statements about runs; no step reads it.
-/

namespace AuraChat

open Interleave

/-! ## State -/

/-- Work queued on the thread pool. -/
inductive Task
  | business (origin : Origin) (hdr : PacketHeader) (body : Bytes)
  | stream (req : StreamRequest)
  deriving DecidableEq, Repr

def Task.origin : Task → Origin
  | .business o _ _ => o
  | .stream req => req.origin

/-- The program of a task; the script is what the language model will do. -/
def Task.prog (P : Params) (script : Script) : Task → Prog Reply Unit
  | .business o hdr body => processBusiness P o hdr body
  | .stream req => processStreamRequest P req script

/-- A pool thread at work: its task, what it has done, and what is left to do. -/
structure Thread where
  task : Task
  script : Script
  hist : List (Event Reply)
  prog : Prog Reply Unit

structure AIManager where
  pending : List StreamRequest := []
  active : List (Int × StreamRequest) := []
  /-- The request that the scheduler holds between its critical section and `enqueue`. -/
  handoff : Option StreamRequest := none
  rrCounter : ℕ := 0

inductive Entry
  /-- A packet was received. -/
  | received (o : Origin) (hdr : PacketHeader) (body : Bytes)
  /-- A pool thread made a call. -/
  | did (o : Origin) (e : Event Reply)
  /-- A frame was queued; who held its context then, and the uid of the context. -/
  | queued (f : Frame) (holder : Option ℕ) (uid : Int)
  /-- A frame was appended to the send buffer of a connection whose context had this uid. -/
  | appended (c : ℕ) (f : Frame) (uid : Int)
  /-- A connection left `connections_`; the kick that did it, if one did. -/
  | left (c : ℕ) (kick : Option Kick)
  /-- A message was given to the batch writer, before functor `num` was queued. -/
  | submitted (o : Origin) (m : DBChatMessage) (num : ℕ)

structure State where
  net : Net
  sessions : Int → Option Session
  ai : AIManager
  db : Store
  tasks : List Task
  threads : ℕ → Option Thread
  nextPid : ℕ
  rr : ℕ
  log : List Entry

/-- The server once its threads are started, on a loaded store. -/
def State.init (P : Params) (db : Store) : State where
  net := Net.init P
  sessions _ := none
  ai := {}
  db := db
  tasks := []
  threads _ := none
  nextPid := 0
  rr := 0
  log := []

/-! ## Calls -/

/-- What the environment contributes to a call: a clock, an exception of the store, and in MySQL
mode whether the statement succeeds and what it answers. -/
structure Ext where
  clock : Int := 0
  throws : Bool := false
  ok : Bool := true
  number : Int := -1
  users : List (Int × String) := []
  requests : List FriendRequestInfo := []

/-- A result of the store, unless it raises an exception. -/
def Ext.give {α : Type} (e : Ext) (x : α) : Except Unit α := if e.throws then .error () else .ok x

/-- The stores of `bind`, for a request of connection `c`. -/
def State.bindWrite (uid : Int) (x : ℕ) (c : ℕ) (s : State) : State :=
  { s with
    net := s.net.bindContext uid x
    sessions := Function.update s.sessions uid (some ⟨x, c⟩) }

/-- `queue_send_packet` on worker `w`. -/
def State.queueFrame (w : ℕ) (f : Frame) (s : State) : State :=
  { s with
    net := s.net.push w (.send f)
    log := .queued f (s.net.holder f.ctx) (s.net.ctxs f.ctx).uid :: s.log }

/-- Erase the stream registered under the descriptor of a context. -/
def AIManager.eraseStream (fd : Int) (ai : AIManager) : AIManager :=
  if 0 ≤ fd then { ai with active := ai.active.filter fun p => p.1 ≠ fd } else ai

/-- `active_streams_[fd] = req`. -/
def AIManager.activate (fd : Int) (req : StreamRequest) (ai : AIManager) : AIManager :=
  { ai with active := (ai.active.filter fun p => p.1 ≠ fd) ++ [(fd, req)], handoff := some req }

def AIManager.cancelRequest (uid : Int) (ai : AIManager) : AIManager :=
  { ai with active := ai.active.filter fun p => p.2.uid ≠ uid }

/-- The critical section of `submit_stream_request`. -/
def AIManager.enqueue (fd : Int) (req : StreamRequest) (ai : AIManager) : Bool × AIManager :=
  if ai.active.any (fun p => p.1 == fd) then (false, ai)
  else if 1000 < ai.pending.length then (false, ai)
  else (true, { ai with pending := ai.pending ++ [req] })

/-- A call of a thread that works for the packet `o`. -/
def act (P : Params) (o : Origin) : (a : Call) → Ext → State → Option (Reply a × State)
  | .steadyClock, e, s => some (e.clock, s)
  | .systemClock, e, s => some (e.clock, s)
  | .rateTick x now, _, s =>
      some (((s.net.ctxs x).rateTick P.cfg now).2,
        { s with net := s.net.updCtx x fun c => (c.rateTick P.cfg now).1 })
  | .loadUid x, _, s => some ((s.net.ctxs x).uid, s)
  | .loadFd x, _, s => some ((s.net.ctxs x).fd, s)
  | .ownerWorker x, _, s => some ((s.net.ctxs x).ownerWorker, s)
  | .dbWriter, _, s => some (true, s)
  | .verifyLogin u p, e, s =>
      some (e.give (if s.db.useFileStorage then s.db.verifyLogin P.fileHash u p else e.number), s)
  | .registerUser u p, e, s =>
      if s.db.useFileStorage then
        some (e.give (s.db.registerUser P.fileHash u p).1,
          { s with db := (s.db.registerUser P.fileHash u p).2 })
      else some (e.give e.number, s)
  | .queryOfflineMessages uid, e, s =>
      some (e.give (if s.db.useFileStorage || e.ok then s.db.queryOfflineMessages uid else []), s)
  | .markDelivered uid maxId, e, s =>
      some (e.give (),
        if s.db.useFileStorage || e.ok then { s with db := s.db.markDelivered uid maxId } else s)
  | .searchUsers kw, e, s =>
      some (e.give (if s.db.useFileStorage then s.db.searchUsers kw else e.users), s)
  | .addFriendRequest f t m, e, s =>
      if s.db.useFileStorage then
        some (e.give (s.db.addFriendRequest f t m).1,
          { s with db := (s.db.addFriendRequest f t m).2 })
      else some (e.give e.number, s)
  | .acceptFriendRequest r u, e, s =>
      if s.db.useFileStorage then
        some (e.give (s.db.acceptFriendRequest r u).1,
          { s with db := (s.db.acceptFriendRequest r u).2 })
      else some (e.give e.number, s)
  | .getFriends uid, e, s =>
      some (e.give (if s.db.useFileStorage then s.db.getFriends uid else e.users), s)
  | .getPendingRequests uid, e, s =>
      some (e.give (if s.db.useFileStorage then s.db.getPendingRequests uid else e.requests), s)
  | .submit m, _, s =>
      some ((), { s with
        db := s.db.submit m
        log := .submitted o m s.net.nextNum :: s.log })
  | .bindEnter uid x, _, s =>
      match s.sessions uid with
      | some old => some (some old, s)
      | none => some (none, s.bindWrite uid x o.conn)
  | .bindStore uid x, _, s => some ((), s.bindWrite uid x o.conn)
  | .sessionGet uid, _, s => some ((s.sessions uid).map Session.ctx, s)
  | .queueSendPacket x cmd seq body why, _, s =>
      (s.net.ctxs x).ownerWorker.map fun w => ((), s.queueFrame w ⟨o, x, cmd, seq, body, why⟩)
  | .queueCloseConnection old fd, _, s =>
      (s.net.ctxs old.ctx).ownerWorker.map fun w =>
        ((), { s with net := s.net.push w (.close fd (some ⟨o, old.conn⟩)) })
  | .aiEnqueue fd req, _, s => some ((s.ai.enqueue fd req).1, { s with ai := (s.ai.enqueue fd req).2 })
  | .nextClient, _, s =>
      some (s.ai.rrCounter % P.cfg.aiMaxConcurrent,
        { s with ai := { s.ai with rrCounter := s.ai.rrCounter + 1 } })
  | .eraseStream x, _, s => some ((), { s with ai := s.ai.eraseStream (s.net.ctxs x).fd })

/-! ## Steps -/

inductive Label
  /-- The accept loop takes a connection from the operating system. -/
  | accept (fd : Int)
  /-- A worker swaps its pending functors out. -/
  | swap (w : ℕ)
  /-- A worker runs the next functor of its batch. -/
  | functor (w : ℕ)
  /-- `handle_read` hands a packet to the pool. -/
  | read (c : ℕ) (hdr : PacketHeader) (body : Bytes)
  /-- `handle_write` writes some bytes. -/
  | write (c : ℕ) (count : ℕ)
  /-- A hang-up, a read or write error, an end of file, a malformed header or the heartbeat timer
  makes the loop close a connection. -/
  | drop (c : ℕ)
  /-- A worker runs the next statement of `close_impl`. -/
  | close (w : ℕ)
  /-- A pool thread takes a task. -/
  | dequeue (i : ℕ) (script : Script)
  /-- A pool thread makes its next call, or finishes its task. -/
  | thread (i : ℕ) (e : Ext)
  /-- The critical section of the AI scheduler. -/
  | schedule (now : Int)
  /-- The scheduler puts the request it holds on the pool. -/
  | dispatch
  /-- The batch writer takes messages from the queue. -/
  | drain
  /-- The batch writer stores its batch. -/
  | flush (ok : Bool)

/-- `ThreadPool::enqueue`: a full queue refuses the task. -/
def State.enqueue (t : Task) (s : State) : State :=
  if 200000 < s.tasks.length then s else { s with tasks := s.tasks ++ [t] }

/-- The worker of a connection is between functors and closes, where the loop handles events. -/
def State.atEvents (d : Conn) (s : State) : Prop :=
  d.phase = .opened ∧ (s.net.workers d.worker).busy = none ∧ (s.net.workers d.worker).batch = []

instance (d : Conn) (s : State) : Decidable (s.atEvents d) := by unfold State.atEvents; infer_instance

/-- `force_close_in_loop`, with its record. -/
def State.forceClose (w : ℕ) (fd : Int) (kick : Option Kick) (s : State) : State :=
  { s with
    net := s.net.forceCloseInLoop w fd
    log := match (s.net.workers w).connections fd with
      | none => s.log
      | some c => .left c kick :: s.log }

def State.runJob (P : Params) (w : ℕ) (s : State) : Job → State
  | .add fd => { s with net := s.net.addConnection P w fd }
  | .send f => { s with
      net := s.net.sendPacketInLoop P w f
      log := match s.net.accepts P w f with
        | none => s.log
        | some (c, d) => .appended c f (s.net.ctxs d.ctx).uid :: s.log }
  | .close fd kick => s.forceClose w fd kick

/-- The statement of `close_impl` that connection `c` is at. -/
def State.closeStep (c : ℕ) (d : Conn) (s : State) : Option State :=
  match d.phase with
  | .opened => none
  | .check => some { s with net := s.net.setConn c { d with
      phase := if 0 < (s.net.ctxs d.ctx).uid then .loadCancel else .closeFd } }
  | .loadCancel => some { s with net := s.net.setConn c { d with phase := .cancel (s.net.ctxs d.ctx).uid } }
  | .cancel uid => some { s with
      net := s.net.setConn c { d with phase := .loadUnbind }
      ai := s.ai.cancelRequest uid }
  | .loadUnbind => some { s with net := s.net.setConn c { d with phase := .unbind (s.net.ctxs d.ctx).uid } }
  | .unbind uid => some { s with
      net := s.net.setConn c { d with phase := .closeFd }
      sessions := Function.update s.sessions uid none }
  | .closeFd => some { s with net := s.net.closeDescriptor c d }
  | .release => some { s with net := s.net.releaseContext c d }
  | .closed => none

/-- `send_error_response` of the scheduler for a request that has waited too long. -/
def State.sendError (P : Params) (req : StreamRequest) (now : Int) (s : State) : State :=
  match (s.net.ctxs req.origin.ctx).ownerWorker with
  | none => s
  | some w => s.queueFrame w ⟨req.origin, req.origin.ctx, .chat, 0,
      P.codec.serializeChatMessage
        (chunkMessage req.uid (bytes "AI服务排队超时，请稍后再试") true 0 now), .chunk⟩

/-- What the critical section of `schedule_requests` does with the request it has popped. -/
def State.schedule (P : Params) (req : StreamRequest) (now : Int) (s : State) : State :=
  if 30 < now - req.timestamp then s.sendError P req now
  else if (s.net.ctxs req.origin.ctx).fd < 0 then s
  else { s with ai := s.ai.activate (s.net.ctxs req.origin.ctx).fd req }

/-- A pool thread makes its next call, or finishes its task. -/
def State.threadStep (P : Params) (i : ℕ) (t : Thread) (e : Ext) (s : State) : Option State :=
  match t.prog with
  | .ret _ => some { s with threads := Function.update s.threads i none }
  | .call a k => (act P t.task.origin a e s).map fun rs =>
      { rs.2 with
        threads := Function.update rs.2.threads i
          (some { t with hist := t.hist ++ [⟨a, rs.1⟩], prog := k rs.1 })
        log := .did t.task.origin ⟨a, rs.1⟩ :: rs.2.log }

/-- The call that a step makes, and the packet it is made for. -/
def State.next (s : State) : Label → Option (Origin × Call)
  | .thread i _ => match s.threads i with
      | some ⟨task, _, _, .call a _⟩ => some (task.origin, a)
      | _ => none
  | _ => none

/-- **One step of the server.** -/
def step (P : Params) : Label → State → Option State
  | .accept fd, s =>
      if 0 ≤ fd ∧ s.net.openFds fd = false ∧ 0 < P.cfg.workerNum then
        some { s with
          net := { s.net.push (s.rr % P.cfg.workerNum) (.add fd) with
            openFds := Function.update s.net.openFds fd true }
          rr := (s.rr + 1) % uint32Size }
      else none
  | .swap w, s =>
      if (s.net.workers w).busy = none ∧ (s.net.workers w).batch = [] then
        some { s with net := s.net.updWorker w fun k => { k with batch := k.pending, pending := [] } }
      else none
  | .functor w, s =>
      match (s.net.workers w).busy, (s.net.workers w).batch with
      | none, f :: rest =>
          some (State.runJob P w
            { s with net := s.net.updWorker w fun k => { k with batch := rest } } f.job)
      | _, _ => none
  | .read c hdr body, s =>
      match s.net.conns c with
      | none => none
      | some d =>
          if s.atEvents d ∧ hdr.Framed body then
            some ({ s with
              nextPid := s.nextPid + 1
              log := .received ⟨s.nextPid, c, d.ctx⟩ hdr body :: s.log }.enqueue
                (.business ⟨s.nextPid, c, d.ctx⟩ hdr body))
          else none
  | .write c count, s =>
      match s.net.conns c with
      | none => none
      | some d =>
          if s.atEvents d then
            some { s with net := s.net.updCtx d.ctx fun x => { x with
              sendBuf := x.sendBuf.drop count
              writing := if x.sendBuf.drop count = [] then false else x.writing } }
          else none
  | .drop c, s =>
      match s.net.conns c with
      | none => none
      | some d => if s.atEvents d then some (s.forceClose d.worker d.fd none) else none
  | .close w, s =>
      match (s.net.workers w).busy with
      | none => none
      | some c => match s.net.conns c with
        | none => none
        | some d => s.closeStep c d
  | .dequeue i script, s =>
      match s.threads i, s.tasks with
      | none, t :: rest =>
          if i < P.poolThreads then
            some { s with
              tasks := rest
              threads := Function.update s.threads i (some ⟨t, script, [], t.prog P script⟩) }
          else none
      | _, _ => none
  | .thread i e, s =>
      match s.threads i with
      | none => none
      | some t => s.threadStep P i t e
  | .schedule now, s =>
      match s.ai.handoff, s.ai.pending with
      | none, req :: rest =>
          if s.ai.active.length < P.cfg.aiMaxConcurrent then
            some ({ s with ai := { s.ai with pending := rest } }.schedule P req now)
          else none
      | _, _ => none
  | .dispatch, s =>
      match s.ai.handoff with
      | none => none
      | some req => some ({ s with ai := { s.ai with handoff := none } }.enqueue (.stream req))
  | .drain, s => if s.db.batch = [] then some { s with db := s.db.drain } else none
  | .flush ok, s =>
      if s.db.batch ≠ [] ∧ s.db.nextMsgId + s.db.batch.length ≤ s.db.idLimit then
        some { s with db := s.db.flush ok }
      else none

/-- **The states that a run reaches**, from a start on the store `db`, when every step meets the
condition `C`. -/
abbrev RunTo (P : Params) (db : Store) (C : Label → State → Prop) (s : State) : Prop :=
  Reach (step P) C (State.init P db) s

end AuraChat
