import AuraChat.Lib.Reach
import AuraChat.Lib.Scan
import AuraChat.Model.Timer
import Mathlib.Data.List.AList
import Mathlib.Logic.Function.Basic

set_option autoImplicit false

/-!
# The loop of one worker

`Worker`, `TcpConnection` and `EventLoop` as far as the life of the connections of one worker goes: its
maps `connections_` and `heartbeat_timers_`, its timers, its share of `g_conn_count` and the functors
that other threads queue. What is in the packets is left to the environment: a read may end with a
frame that is refused, a send may overflow the buffer.

An event belongs to a connection in `connections_`: `start` registers the connection with epoll and
`close_impl` removes it. After a close inside `handle_read` nothing more of the object is modelled. The
clock is `GetTick`, in milliseconds. The heartbeat interval comes from the environment of the process.
-/

namespace AuraChat

open Interleave

/-! ## Configuration -/

/-- `Config::getenv_i32`, for the value of a variable that is set. -/
def getenvI32 (value : Option (List UInt8)) (dflt : Int) : Int :=
  match value with
  | none => dflt
  | some [] => dflt
  | some s => match Scan.fromChars s with
    | .parsed v rest => if rest = [] then v else dflt
    | .outOfRange => dflt
    | .invalid => dflt

/-- `Config::HEARTBEAT_SEC`, for the value of `IM_HB_SEC`. -/
def heartbeatSec (value : Option (List UInt8)) : Int := getenvI32 value 60

/-! ## State -/

/-- A `TcpConnection`. `num` tells objects apart, and no function reads it. -/
structure TcpConnection where
  num : ℕ
  fd : Int
  closed : Bool := false
  deriving DecidableEq, Repr

/-- What the callback of a heartbeat timer captures, and the connection that armed the timer. -/
structure Heartbeat where
  fd : Int
  armedBy : ℕ
  deriving DecidableEq, Repr

/-- A functor in the queue of the loop. -/
inductive LoopJob
  | add (fd : Int)
  | send (fd : Int) (overflow : Bool)
  | close (fd : Int)
  deriving DecidableEq, Repr

/-- What happens to connections, for the statements about runs: one is added, bytes are read from it, a
timer fires (the connection that armed it, the connection that its callback finds, the time), its
descriptor is closed. -/
inductive LoopEvent
  | opened (num : ℕ) (fd : Int) (time : Int)
  | read (num : ℕ) (time : Int)
  | fired (armedBy : ℕ) (victim : Option ℕ) (time : Int)
  | closed (num : ℕ) (fd : Int)
  deriving DecidableEq, Repr

structure WorkerLoop where
  now : Int := 0
  connections : AList (fun _ : Int => TcpConnection) := ∅
  heartbeatTimers : AList (fun _ : Int => TimerNodeBase) := ∅
  timer : Timer Heartbeat := {}
  /-- What this worker has added to `g_conn_count`. -/
  connCount : Int := 0
  pendingFunctors : List LoopJob := []
  /-- The descriptors that were accepted for this worker and not closed since. -/
  openFds : Int → Bool := fun _ => false
  nextNum : ℕ := 0
  /-- The events so far, the last one first. -/
  log : List LoopEvent := []

namespace WorkerLoop

/-! ## Timers -/

def cancelHeartbeatTimer (w : WorkerLoop) (fd : Int) : WorkerLoop :=
  match w.heartbeatTimers.lookup fd with
  | some node =>
      { w with
        timer := (w.timer.delTimer node).1
        heartbeatTimers := w.heartbeatTimers.erase fd }
  | none => w

/-- `Worker::start_heartbeat_timer`, called by the connection `num`. -/
def startHeartbeatTimer (heartbeatSec : Int) (w : WorkerLoop) (fd : Int) (num : ℕ) : WorkerLoop :=
  let w := w.cancelHeartbeatTimer fd
  let (timer, node) := w.timer.addTimer w.now (heartbeatSec * 1000) ⟨fd, num⟩
  { w with timer := timer, heartbeatTimers := w.heartbeatTimers.insert fd node }

/-! ## Connections -/

def closeFd (w : WorkerLoop) (c : TcpConnection) : WorkerLoop :=
  { w with openFds := Function.update w.openFds c.fd false, log := .closed c.num c.fd :: w.log }

/-- `TcpConnection::~TcpConnection`. -/
def destroy (w : WorkerLoop) (c : TcpConnection) : WorkerLoop :=
  let w := if 0 ≤ c.fd then w.closeFd c else w
  if c.closed then w else { w with connCount := w.connCount - 1 }

/-- `TcpConnection::close_impl`: the worker and the connection after it. -/
def closeImpl (w : WorkerLoop) (c : TcpConnection) : WorkerLoop × TcpConnection :=
  let w := (w.cancelHeartbeatTimer c.fd).closeFd c
  ({ w with connCount := w.connCount - 1 }, { c with fd := -1 })

def doForceClose (w : WorkerLoop) (c : TcpConnection) : WorkerLoop × TcpConnection :=
  if c.closed then (w, c) else w.closeImpl { c with closed := true }

/-- `Worker::force_close_in_loop`; the map held the last reference to the connection. -/
def forceCloseInLoop (w : WorkerLoop) (fd : Int) : WorkerLoop :=
  match w.connections.lookup fd with
  | none => w
  | some c =>
      let (w, c) := { w with connections := w.connections.erase fd }.doForceClose c
      w.destroy c

/-- `Worker::add_connection_in_loop` with the constructor and `start` of the connection. An entry that
is in the way is dropped, and its connection with it. -/
def addConnectionInLoop (heartbeatSec : Int) (w : WorkerLoop) (fd : Int) : WorkerLoop :=
  let c : TcpConnection := ⟨w.nextNum, fd, false⟩
  let old := w.connections.lookup fd
  let w :=
    { w with
      nextNum := w.nextNum + 1
      connCount := w.connCount + 1
      connections := w.connections.insert fd c
      log := .opened c.num fd w.now :: w.log }
  let w := match old with
    | some c' => w.destroy c'
    | none => w
  w.startHeartbeatTimer heartbeatSec fd c.num

/-! ## Events -/

/-- What a call of `read` gives: bytes (and the milliseconds until the timer is reset), nothing for now,
or the end of the stream or an error. -/
inductive ReadResult
  | bytes (ms : ℕ)
  | again
  | broken
  deriving DecidableEq, Repr

/-- The reading loop of `handle_read`, each call with the milliseconds that pass before it. At the end
the frames are cut off, and one may be refused. -/
def handleRead (heartbeatSec : Int) (c : TcpConnection) (refused : Bool) :
    List (ℕ × ReadResult) → WorkerLoop → WorkerLoop
  | [], w => if refused then w.forceCloseInLoop c.fd else w
  | (ms, r) :: rs, w =>
      let w := { w with now := w.now + ms }
      match r with
      | .bytes ms =>
          let w := { w with log := .read c.num w.now :: w.log, now := w.now + ms }
          handleRead heartbeatSec c refused rs (w.startHeartbeatTimer heartbeatSec c.fd c.num)
      | .broken => w.forceCloseInLoop c.fd
      | .again => if refused then w.forceCloseInLoop c.fd else w

/-- An event of epoll on a connection: its flags, and what its reads and writes give. -/
structure Event where
  hup : Bool := false
  input : Bool := false
  output : Bool := false
  reads : List (ℕ × ReadResult) := []
  refused : Bool := false
  writeFails : Bool := false
  deriving DecidableEq, Repr

def handleEvents (heartbeatSec : Int) (w : WorkerLoop) (c : TcpConnection) (e : Event) : WorkerLoop :=
  if e.hup then w.forceCloseInLoop c.fd
  else
    let w := if e.input then handleRead heartbeatSec c e.refused e.reads w else w
    -- `handle_write`
    if e.output ∧ e.writeFails ∧ w.connections.lookup c.fd = some c then w.forceCloseInLoop c.fd
    else w

/-- `TcpConnection::send` queues a close when the buffer overflows. -/
def send (w : WorkerLoop) (fd : Int) (overflow : Bool) : WorkerLoop :=
  match w.connections.lookup fd with
  | none => w
  | some c =>
      if overflow then { w with pendingFunctors := w.pendingFunctors ++ [.close c.fd] } else w

def runJob (heartbeatSec : Int) (w : WorkerLoop) : LoopJob → WorkerLoop
  | .add fd => w.addConnectionInLoop heartbeatSec fd
  | .send fd overflow => w.send fd overflow
  | .close fd => w.forceCloseInLoop fd

/-- The callback of a heartbeat timer. -/
def fire (w : WorkerLoop) (h : Heartbeat) : WorkerLoop :=
  let victim := (w.connections.lookup h.fd).map TcpConnection.num
  { w with log := .fired h.armedBy victim w.now :: w.log }.forceCloseInLoop h.fd

/-! ## Steps -/

inductive Label
  /-- Time passes. -/
  | tick (ms : ℕ)
  /-- `accept4` returns a descriptor and `queue_add_connection` is called. -/
  | accept (fd : Int)
  /-- Another thread queues a packet or a close. -/
  | queueSend (fd : Int) (overflow : Bool)
  | queueClose (fd : Int)
  /-- The loop runs the next functor, handles an event of a connection, or calls `CheckTimer`. -/
  | functor
  | event (fd : Int) (e : Event)
  | checkTimer
  deriving DecidableEq, Repr

/-- One step of the loop. `accept4` does not return a descriptor that is open. -/
def step (heartbeatSec : Int) : Label → WorkerLoop → Option WorkerLoop
  | .tick ms, w => some { w with now := w.now + ms }
  | .accept fd, w =>
      if 0 ≤ fd ∧ w.openFds fd = false then
        some { w with
          openFds := Function.update w.openFds fd true
          pendingFunctors := w.pendingFunctors ++ [.add fd] }
      else none
  | .queueSend fd overflow, w =>
      some { w with pendingFunctors := w.pendingFunctors ++ [.send fd overflow] }
  | .queueClose fd, w => some { w with pendingFunctors := w.pendingFunctors ++ [.close fd] }
  | .functor, w => match w.pendingFunctors with
      | [] => none
      | j :: js => some ({ w with pendingFunctors := js }.runJob heartbeatSec j)
  | .event fd e, w => (w.connections.lookup fd).map fun c => w.handleEvents heartbeatSec c e
  | .checkTimer, w => match w.timer.checkTimer w.now with
      | none => some w
      | some (n, timer) => some ({ w with timer := timer }.fire n.func)

abbrev RunTo (heartbeatSec : Int) (w : WorkerLoop) : Prop :=
  Reach (step heartbeatSec) (fun _ _ => True) {} w

theorem exists_run (heartbeatSec : Int) (ls : List Label) (p : WorkerLoop → Prop)
    (h : ∃ w ∈ runAll (step heartbeatSec) (fun _ _ => True) ls {}, p w) :
    ∃ w, RunTo heartbeatSec w ∧ p w :=
  exists_reach ls h

end WorkerLoop

end AuraChat
