import AuraChat.Wire.Framing

set_option autoImplicit false

/-!
# Events of a connection

`connection.cpp` statement by statement: what a worker does to a `TcpConnection` when epoll reports an
event for it. A `Wakeup` is the event with what the calls of `read` and `write` give while it is
handled; the result is the list of the statements that run, and the connection after them.

`force_close_in_loop` drops the last reference to the object. A statement that runs after it works on
memory that is no longer the connection's; the model leaves the buffers as they were.

* `Endpoint.handleRead`, `Endpoint.handleWrite`, `Endpoint.send`, `Endpoint.handleEvents`;
* `Endpoint.handleAll`: the events of a connection one after another, until it is closed;
* `enqueued`: the packets handed to `g_workers->enqueue`;
* **`Endpoint.handleRead_eq`**: the packets, the buffer and the closing of a `handle_read` are those of
  the decoder;
* **`Endpoint.handleWrite_buffer`**: what a `handle_write` does with the send buffer.
-/

namespace AuraChat

open Stream

/-- What a call of `write` gives: it takes some bytes, none for now (`EAGAIN`), or it fails. -/
inductive WriteResult
  | taken (count : ℕ)
  | again
  | error
  deriving DecidableEq, Repr

/-- The flags of an event that `handle_events` looks at. -/
structure Revents where
  hup : Bool := false
  err : Bool := false
  rdhup : Bool := false
  input : Bool := false
  output : Bool := false
  deriving DecidableEq, Repr

/-- `revents & (EPOLLHUP | EPOLLERR | EPOLLRDHUP)`. -/
def Revents.hangup (r : Revents) : Bool := r.hup || r.err || r.rdhup

structure Wakeup where
  revents : Revents := {}
  reads : List IoResult := []
  writes : List WriteResult := []
  deriving DecidableEq, Repr

/-- A statement that works on a connection. -/
inductive ConnOp
  | read (r : IoResult)
  /-- `recv_buf.append`, `update_time` and `reset_heartbeat_timer`. -/
  | received (chunk : Bytes)
  /-- The tests on `recv_buf` in the parsing loop. -/
  | inspect
  /-- `substr` and `erase` of a packet. -/
  | cut (hdr : PacketHeader) (body : Bytes)
  | enqueue (hdr : PacketHeader) (body : Bytes)
  /-- `send_buf.empty()`. -/
  | sendEmpty
  /-- A call of `write`, and the bytes that it took. -/
  | write (taken : Bytes)
  | erase (count : ℕ)
  /-- `ctx_->writing = false`. -/
  | clearWriting
  | updateEvent (output : Bool)
  | forceClose
  deriving DecidableEq, Repr

/-- A `TcpConnection`: the buffers and the flag of its context, whether epoll watches it for output, and
`closed_`. -/
structure Endpoint where
  recvBuf : Bytes := []
  sendBuf : Bytes := []
  writing : Bool := false
  epollOut : Bool := false
  closed : Bool := false
  deriving DecidableEq, Repr

/-- The packets handed to the thread pool. -/
def enqueued (ops : List ConnOp) : List (PacketHeader × Bytes) :=
  ops.filterMap fun
    | .enqueue hdr body => some (hdr, body)
    | _ => none

/-- The bytes that went to the socket. -/
def writtenBytes (ops : List ConnOp) : Bytes :=
  ops.flatMap fun
    | .write taken => taken
    | _ => []

namespace Endpoint

/-! ## Reading -/

/-- The reading loop of `handle_read`. A call that the list does not have finds nothing to read. -/
def readLoop : List IoResult → Endpoint → List ConnOp × Endpoint
  | [], e => ([.read .again], e)
  | .again :: _, e => ([.read .again], e)
  | .bytes [] :: _, e => ([.read (.bytes []), .forceClose], { e with closed := true })
  | .bytes (b :: bs) :: rs, e =>
      let r := readLoop rs { e with recvBuf := e.recvBuf ++ (b :: bs) }
      (.read (.bytes (b :: bs)) :: .received (b :: bs) :: r.1, r.2)
  | .error :: _, e => ([.read .error, .forceClose], { e with closed := true })

/-- The statements of the turns of the parsing loop that cut a packet off. -/
def cutOps (p : PacketHeader × Bytes) : List ConnOp := [.inspect, .cut p.1 p.2, .enqueue p.1 p.2]

/-- The parsing loop of `handle_read`. -/
def parseLoop (e : Endpoint) : List ConnOp × Endpoint :=
  let o := handleReadDecoder.drain e.recvBuf
  (o.emitted.flatMap cutOps ++ .inspect :: if o.failed then [.forceClose] else [],
    { e with recvBuf := o.buf, closed := o.failed })

/-- `handle_read`. -/
def handleRead (e : Endpoint) (reads : List IoResult) : List ConnOp × Endpoint :=
  let r := readLoop reads e
  if r.2.closed then r else (r.1 ++ r.2.parseLoop.1, r.2.parseLoop.2)

/-! ## Writing -/

/-- The end of `handle_write`, when the buffer is empty. -/
def drained (e : Endpoint) : List ConnOp × Endpoint :=
  ([.sendEmpty, .clearWriting, .updateEvent false], { e with writing := false, epollOut := false })

/-- `handle_write`. A call that the list does not have finds no room. -/
def handleWrite : List WriteResult → Endpoint → List ConnOp × Endpoint
  | [], e => if e.sendBuf = [] then e.drained else ([.sendEmpty, .write []], e)
  | r :: rs, e =>
      if e.sendBuf = [] then e.drained
      else match r with
        | .taken 0 => ([.sendEmpty, .write [], .forceClose], { e with closed := true })
        | .taken (n + 1) =>
            let next := handleWrite rs { e with sendBuf := e.sendBuf.drop (n + 1) }
            (.sendEmpty :: .write (e.sendBuf.take (n + 1)) :: .erase (n + 1) :: next.1, next.2)
        | .again => ([.sendEmpty, .write []], e)
        | .error => ([.sendEmpty, .write [], .forceClose], { e with closed := true })

/-- `TcpConnection::send`: a packet without room queues the close of the connection instead. -/
def send (maxSendBuf : ℕ) (data : Bytes) (e : Endpoint) : Endpoint :=
  if e.closed then e
  else if maxSendBuf < e.sendBuf.length + data.length then e
  else if e.writing then { e with sendBuf := e.sendBuf ++ data }
  else { e with sendBuf := e.sendBuf ++ data, writing := true, epollOut := true }

/-! ## Events -/

/-- `if (revents & EPOLLIN) handle_read();` -/
def onInput (e : Endpoint) (w : Wakeup) : List ConnOp × Endpoint :=
  if w.revents.input then e.handleRead w.reads else ([], e)

/-- `if (revents & EPOLLOUT) handle_write();` -/
def onOutput (e : Endpoint) (w : Wakeup) : List ConnOp × Endpoint :=
  if w.revents.output then handleWrite w.writes e else ([], e)

/-- `handle_events`. It does not look whether `handle_read` has closed the connection. -/
def handleEvents (e : Endpoint) (w : Wakeup) : List ConnOp × Endpoint :=
  if w.revents.hangup then ([.forceClose], { e with closed := true })
  else
    let r := e.onInput w
    (r.1 ++ (r.2.onOutput w).1, (r.2.onOutput w).2)

/-- The events of a connection; epoll reports none after it is closed. -/
def handleAll : List Wakeup → Endpoint → List ConnOp × Endpoint
  | [], e => ([], e)
  | w :: ws, e =>
      let r := e.handleEvents w
      if r.2.closed then r else (r.1 ++ (handleAll ws r.2).1, (handleAll ws r.2).2)

end Endpoint

/-! ## What the statements do -/

/-- The data that a read loop gets before it stops. -/
def readData : List IoResult → Bytes
  | .bytes (b :: bs) :: rs => b :: bs ++ readData rs
  | _ => []

/-- The first call of `read` that gives no data gives an end of file or an error. -/
def readBroken : List IoResult → Bool
  | .bytes [] :: _ => true
  | .bytes (_ :: _) :: rs => readBroken rs
  | .error :: _ => true
  | _ => false

@[simp] theorem enqueued_nil : enqueued [] = [] := rfl

@[simp] theorem enqueued_append (ops ops' : List ConnOp) :
    enqueued (ops ++ ops') = enqueued ops ++ enqueued ops' := List.filterMap_append

@[simp] theorem writtenBytes_append (ops ops' : List ConnOp) :
    writtenBytes (ops ++ ops') = writtenBytes ops ++ writtenBytes ops' := List.flatMap_append

namespace Endpoint

variable (e : Endpoint)

theorem enqueued_cutOps (ps : List (PacketHeader × Bytes)) : enqueued (ps.flatMap cutOps) = ps := by
  induction ps with
  | nil => rfl
  | cons p ps ih => rw [List.flatMap_cons, enqueued_append, ih]; rfl

theorem enqueued_readLoop (reads : List IoResult) : enqueued (readLoop reads e).1 = [] := by
  induction reads generalizing e with
  | nil => rfl
  | cons r rs ih =>
      rcases r with (_ | ⟨b, bs⟩) | _ | _
      · rfl
      · exact ih _
      · rfl
      · rfl

theorem readLoop_eq (reads : List IoResult) : (readLoop reads e).2 =
    { e with recvBuf := e.recvBuf ++ readData reads, closed := e.closed || readBroken reads } := by
  induction reads generalizing e with
  | nil => simp [readLoop, readData, readBroken]
  | cons r rs ih =>
      rcases r with (_ | ⟨b, bs⟩) | _ | _
      · simp [readLoop, readData, readBroken]
      · simp [readLoop, readData, readBroken, ih]
      · simp [readLoop, readData, readBroken]
      · simp [readLoop, readData, readBroken]

/-- **`handle_read` on an open connection**: it closes on a broken stream, and otherwise it does what
the decoder does on the buffer with the data. -/
theorem handleRead_eq (reads : List IoResult) (he : e.closed = false) :
    (readBroken reads = true ∧ enqueued (e.handleRead reads).1 = [] ∧
      (e.handleRead reads).2 =
        { e with recvBuf := e.recvBuf ++ readData reads, closed := true }) ∨
    (readBroken reads = false ∧
      enqueued (e.handleRead reads).1 =
        (handleReadDecoder.drain (e.recvBuf ++ readData reads)).emitted ∧
      (e.handleRead reads).2 =
        { e with
          recvBuf := (handleReadDecoder.drain (e.recvBuf ++ readData reads)).buf
          closed := (handleReadDecoder.drain (e.recvBuf ++ readData reads)).failed }) := by
  have hloop := readLoop_eq e reads
  rw [he, Bool.false_or] at hloop
  by_cases hb : readBroken reads = true
  · rw [hb] at hloop
    refine .inl ⟨hb, ?_, ?_⟩
    · rw [handleRead, if_pos (by rw [hloop])]
      exact enqueued_readLoop e reads
    · rw [handleRead, if_pos (by rw [hloop]), hloop]
  · have hb' : readBroken reads = false := Bool.eq_false_iff.mpr hb
    rw [hb'] at hloop
    refine .inr ⟨hb', ?_, ?_⟩
    · rw [handleRead, if_neg (by rw [hloop]; exact Bool.false_ne_true), enqueued_append,
        enqueued_readLoop, List.nil_append, hloop, parseLoop, enqueued_append, enqueued_cutOps]
      split_ifs <;> exact List.append_nil _
    · rw [handleRead, if_neg (by rw [hloop]; exact Bool.false_ne_true), hloop]
      rfl

theorem handleWrite_frame (writes : List WriteResult) :
    enqueued (handleWrite writes e).1 = [] ∧ (handleWrite writes e).2.recvBuf = e.recvBuf := by
  fun_induction handleWrite writes e with
  | case5 _ _ _ _ _ ih => exact ih
  | _ => exact ⟨rfl, rfl⟩

/-- **What `handle_write` does with the buffer**: what it writes comes off the front; an empty buffer ends
the watch for output, and otherwise the flag and the watch stay. -/
theorem handleWrite_buffer (writes : List WriteResult) :
    writtenBytes (handleWrite writes e).1 ++ (handleWrite writes e).2.sendBuf = e.sendBuf ∧
      (((handleWrite writes e).2.sendBuf = [] ∧ (handleWrite writes e).2.writing = false ∧
          (handleWrite writes e).2.epollOut = false) ∨
        ((handleWrite writes e).2.sendBuf ≠ [] ∧ (handleWrite writes e).2.writing = e.writing ∧
          (handleWrite writes e).2.epollOut = e.epollOut)) := by
  fun_induction handleWrite writes e with
  | case1 e h => exact ⟨rfl, .inl ⟨h, rfl, rfl⟩⟩
  | case2 e h => exact ⟨rfl, .inr ⟨h, rfl, rfl⟩⟩
  | case3 r rs e h => exact ⟨rfl, .inl ⟨h, rfl, rfl⟩⟩
  | case5 rs e h n next ih =>
      obtain ⟨hbytes, hends⟩ := ih
      refine ⟨?_, hends⟩
      change e.sendBuf.take (n + 1) ++ writtenBytes next.1 ++ next.2.sendBuf = e.sendBuf
      rw [List.append_assoc, hbytes]
      exact List.take_append_drop _ _
  | case4 rs e h | case6 rs e h | case7 rs e h => exact ⟨rfl, .inr ⟨h, rfl, rfl⟩⟩

theorem handleWrite_closed (writes : List WriteResult)
    (hw : ∀ r ∈ writes, r ≠ .error ∧ r ≠ .taken 0) : (handleWrite writes e).2.closed = e.closed := by
  fun_induction handleWrite writes e with
  | case4 => exact absurd rfl (hw _ List.mem_cons_self).2
  | case5 _ _ _ _ _ ih => exact ih fun r hr => hw r (List.mem_cons_of_mem _ hr)
  | case7 => exact absurd rfl (hw _ List.mem_cons_self).1
  | _ => rfl

theorem onOutput_frame (w : Wakeup) :
    enqueued (e.onOutput w).1 = [] ∧ (e.onOutput w).2.recvBuf = e.recvBuf := by
  unfold onOutput
  split_ifs
  · exact handleWrite_frame e w.writes
  · exact ⟨rfl, rfl⟩

end Endpoint

end AuraChat
