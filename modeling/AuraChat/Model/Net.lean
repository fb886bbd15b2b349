import AuraChat.Model.Business

set_option autoImplicit false

/-!
# Connections, contexts and worker loops

`context.h`, `worker.cpp`, `event_loop.cpp` and the life of a `TcpConnection`. Contexts live at
addresses; those of the pools are built at the start, and a pool that runs empty makes a fresh one.
A connection object is known by a number that is never used again, so that two connections with the
same descriptor or the same context can be told apart.

`close_impl` is not one step: other threads run between its statements, and it loads `ctx_->uid`
three times. `Phase` is how far a connection has come.
-/

namespace AuraChat

open Interleave

/-- `ClientContext`, without the fields that only its own connection uses for reading. -/
structure ClientContext where
  fd : Int := -1
  uid : Int := 0
  loggedIn : Bool := false
  sendBuf : Bytes := []
  writing : Bool := false
  ownerWorker : Option ℕ := none
  poolIdx : Int := -1
  rateWindowStart : Int := 0
  rateMsgCount : Int := 0
  deriving DecidableEq, Repr

namespace ClientContext

def reset (c : ClientContext) : ClientContext :=
  { c with
    fd := -1
    uid := 0
    loggedIn := false
    sendBuf := []
    writing := false
    rateWindowStart := 0
    rateMsgCount := 0 }

/-- The rate limiter of `process_business` on one chat packet: the context after it, and whether
the packet is over the limit. -/
def rateTick (cfg : Config) (now : Int) (c : ClientContext) : ClientContext × Bool :=
  let c :=
    if c.rateWindowStart = 0 ∨ now - c.rateWindowStart > cfg.rateLimitWindow then
      { c with rateWindowStart := now, rateMsgCount := 0 }
    else c
  ({ c with rateMsgCount := c.rateMsgCount + 1 }, decide (c.rateMsgCount + 1 > cfg.rateLimitMsgs))

end ClientContext

/-- How far a connection has come: in `connections_`, at a statement of `close_impl`, or gone. The
argument of `cancel_request`, and that of `unbind`, is loaded before the lock of the call is taken. -/
inductive Phase
  | opened | check | loadCancel | cancel (uid : Int) | loadUnbind | unbind (uid : Int) | closeFd | release | closed
  deriving DecidableEq, Repr

structure Conn where
  worker : ℕ
  fd : Int
  ctx : ℕ
  phase : Phase
  deriving DecidableEq, Repr

/-- A packet on its way to a send buffer. -/
structure Frame where
  origin : Origin
  ctx : ℕ
  cmd : CmdType
  seq : UInt32
  body : Bytes
  why : Purpose
  deriving DecidableEq, Repr

/-- The bind that queued a close, and the connection that it found bound. -/
structure Kick where
  origin : Origin
  victim : ℕ
  deriving DecidableEq, Repr

/-- What a functor of an event loop does. -/
inductive Job
  | add (fd : Int)
  | send (f : Frame)
  | close (fd : Int) (kick : Option Kick)
  deriving DecidableEq, Repr

/-- A functor, numbered in the order of queueing. -/
structure Functor where
  num : ℕ
  job : Job
  deriving DecidableEq, Repr

/-- A worker: `connections_`, the free list of its pool (the back of the vector first), the functors
still pending, the batch that `do_pending_functors` has swapped out, and the connection it is
closing. -/
structure Worker where
  connections : Int → Option ℕ := fun _ => none
  freeList : List ℕ := []
  pending : List Functor := []
  batch : List Functor := []
  busy : Option ℕ := none

/-- The functors of a worker that have not run. -/
def Worker.queue (k : Worker) : List Functor := k.batch ++ k.pending

structure Net where
  ctxs : ℕ → ClientContext
  conns : ℕ → Option Conn
  workers : ℕ → Worker
  /-- The descriptors that are open in the operating system. -/
  openFds : Int → Bool
  nextConn : ℕ
  nextCtx : ℕ
  nextNum : ℕ

/-- `storage_[idx]` of the pool of worker `w`. -/
def Params.storage (P : Params) (w : ℕ) (idx : ℕ) : ℕ := w * P.cfg.poolSize + idx

/-- The addresses of the contexts built with the pools. -/
def Params.pooled (P : Params) (x : ℕ) : Prop := x < P.cfg.workerNum * P.cfg.poolSize

instance (P : Params) (x : ℕ) : Decidable (P.pooled x) := by unfold Params.pooled; infer_instance

namespace Net

/-- `ContextPool::ContextPool` for every worker. -/
def init (P : Params) : Net where
  ctxs x := if P.pooled x then
      { ownerWorker := some (x / P.cfg.poolSize), poolIdx := x % P.cfg.poolSize }
    else {}
  conns _ := none
  workers w := if w < P.cfg.workerNum then { freeList := (List.range P.cfg.poolSize).reverse } else {}
  openFds _ := false
  nextConn := 0
  nextCtx := P.cfg.workerNum * P.cfg.poolSize
  nextNum := 0

def updCtx (x : ℕ) (f : ClientContext → ClientContext) (n : Net) : Net :=
  { n with ctxs := Function.update n.ctxs x (f (n.ctxs x)) }

def updWorker (w : ℕ) (f : Worker → Worker) (n : Net) : Net :=
  { n with workers := Function.update n.workers w (f (n.workers w)) }

def setConn (c : ℕ) (v : Conn) (n : Net) : Net :=
  { n with conns := Function.update n.conns c (some v) }

/-- `EventLoop::queue_in_loop`. -/
def push (w : ℕ) (job : Job) (n : Net) : Net :=
  { n.updWorker w fun k => { k with pending := k.pending ++ [⟨n.nextNum, job⟩] } with
    nextNum := n.nextNum + 1 }

def acquire (P : Params) (w : ℕ) (n : Net) : ℕ × Net :=
  match (n.workers w).freeList with
  | [] => (n.nextCtx, { n with
      ctxs := Function.update n.ctxs n.nextCtx {}
      nextCtx := n.nextCtx + 1 })
  | idx :: rest => (P.storage w idx, n.updWorker w fun k => { k with freeList := rest })

/-- `add_connection_in_loop` with the constructor of `TcpConnection`. -/
def addConnection (P : Params) (w : ℕ) (fd : Int) (n : Net) : Net :=
  let (x, n) := n.acquire P w
  let n := n.updCtx x fun c => { c with fd := fd }
  let n := n.setConn n.nextConn ⟨w, fd, x, .opened⟩
  let n := n.updWorker w fun k => { k with
    connections := Function.update k.connections fd (some n.nextConn) }
  { n with nextConn := n.nextConn + 1 }

/-- The connection that `send_packet_in_loop` would find for a context. -/
def holder (x : ℕ) (n : Net) : Option ℕ :=
  match (n.ctxs x).ownerWorker with
  | none => none
  | some w => if (n.ctxs x).fd < 0 then none else (n.workers w).connections (n.ctxs x).fd

/-- The bytes of a packet: a header of 16 bytes and the body. -/
def packetBytes (f : Frame) : Bytes :=
  let word (x : UInt32) : Bytes :=
    [x.toUInt8, (x >>> 8).toUInt8, (x >>> 16).toUInt8, (x >>> 24).toUInt8]
  word protoMagic ++ word f.body.length.toUInt32 ++ word f.cmd.code ++ word f.seq ++ f.body

/-- The connection that `send_packet_in_loop` finds for the context of a frame. -/
def route (w : ℕ) (f : Frame) (n : Net) : Option (ℕ × Conn) :=
  if (n.ctxs f.ctx).fd < 0 then none
  else ((n.workers w).connections (n.ctxs f.ctx).fd).bind fun c => (n.conns c).map fun d => (c, d)

/-- The send buffer of a connection has room for a frame. -/
def fits (P : Params) (f : Frame) (d : Conn) (n : Net) : Prop :=
  (n.ctxs d.ctx).sendBuf.length + (packetBytes f).length ≤ P.cfg.maxSendBuf

instance (P : Params) (f : Frame) (d : Conn) (n : Net) : Decidable (n.fits P f d) := by
  unfold fits; infer_instance

/-- The connection that takes a frame into its send buffer. -/
def accepts (P : Params) (w : ℕ) (f : Frame) (n : Net) : Option (ℕ × Conn) :=
  (n.route w f).filter fun cd => cd.2.phase = .opened ∧ n.fits P f cd.2

/-- `send_packet_in_loop` and `TcpConnection::send`: a frame without room queues the close of its
connection. -/
def sendPacketInLoop (P : Params) (w : ℕ) (f : Frame) (n : Net) : Net :=
  match n.route w f with
  | none => n
  | some (_, d) =>
      if d.phase ≠ .opened then n
      else if n.fits P f d then n.updCtx d.ctx fun c =>
        { c with sendBuf := c.sendBuf ++ packetBytes f, writing := true }
      else n.push w (.close d.fd none)

/-- `force_close_in_loop` up to the first statement of `close_impl`. -/
def forceCloseInLoop (w : ℕ) (fd : Int) (n : Net) : Net :=
  match (n.workers w).connections fd with
  | none => n
  | some c => match n.conns c with
    | none => n
    | some d =>
        (n.setConn c { d with phase := .check }).updWorker w fun k => { k with
          connections := Function.update k.connections fd none
          busy := some c }

/-- `::close(fd_)`. -/
def closeDescriptor (c : ℕ) (d : Conn) (n : Net) : Net :=
  { n.setConn c { d with phase := .release } with
    openFds := Function.update n.openFds d.fd false }

/-- The end of `close_impl`: `ctx_->fd = -1` and `ContextPool::release`. -/
def releaseContext (c : ℕ) (d : Conn) (n : Net) : Net :=
  let n := n.setConn c { d with phase := .closed }
  if (n.ctxs d.ctx).poolIdx = -1 then
    (n.updCtx d.ctx fun x => { x with fd := -1 }).updWorker d.worker fun k => { k with busy := none }
  else
    (n.updCtx d.ctx ClientContext.reset).updWorker d.worker fun k => { k with
      busy := none
      freeList := (n.ctxs d.ctx).poolIdx.toNat :: k.freeList }

/-- The stores of `bind` into the context. -/
def bindContext (uid : Int) (x : ℕ) (n : Net) : Net :=
  n.updCtx x fun c => { c with uid := uid, loggedIn := true }

end Net

end AuraChat
