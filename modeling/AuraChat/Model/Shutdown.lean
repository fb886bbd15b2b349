import AuraChat.Model.Server

set_option autoImplicit false

/-!
# The shutdown

What `main` does after its accept loop: it destroys the workers, the AI manager, the batch writer and,
last, the thread pool. A destructor stops the thread of its object and waits for it. The pool threads go
on until the queue is empty, next to the objects that are left.

* `Call.component`, `Task.uses`, `State.touches`: the objects that a step is a step on;
* `Shutdown`: the server, the objects that are still to be destroyed, and those that have been;
* `Shutdown.step`: a step of a thread that is left, or `main` destroys the next object. What a step on a
  destroyed object does is undefined: it has no successor state.
-/

namespace AuraChat

open Interleave

/-- The objects that `main` destroys before the pool: a `Worker`, `g_streaming_ai`, `g_db_writer`. -/
inductive Component
  | worker (w : ℕ)
  | streamingAi
  | dbWriter
  deriving DecidableEq, Repr

/-- The object that a call is a step on. `if (g_db_writer)` reads the pointer only. -/
def Call.component (n : Net) : Call → Option Component
  | .queueSendPacket x _ _ _ _ => (n.ctxs x).ownerWorker.map .worker
  | .queueCloseConnection old _ => (n.ctxs old.ctx).ownerWorker.map .worker
  | .aiEnqueue _ _ | .nextClient | .eraseStream _ => some .streamingAi
  | .verifyLogin _ _ | .registerUser _ _ | .queryOfflineMessages _ | .markDelivered _ _
  | .searchUsers _ | .addFriendRequest _ _ _ | .acceptFriendRequest _ _ | .getFriends _
  | .getPendingRequests _ | .submit _ => some .dbWriter
  | .steadyClock | .systemClock | .rateTick _ _ | .loadUid _ | .loadFd _ | .ownerWorker _ | .dbWriter
  | .bindEnter _ _ | .bindStore _ _ | .sessionGet _ => none

/-- The objects that a call of a task is a step on; `process_stream_request` runs as a member function of
the AI manager throughout. -/
def Task.uses (n : Net) (a : Call) : Task → List Component
  | .business _ _ _ => (a.component n).toList
  | .stream _ => .streamingAi :: (a.component n).toList

/-- The objects that a step of a pool thread, or the error response of the AI scheduler, is a step on. -/
def State.touches (s : State) : Label → List Component
  | .thread i _ => match s.threads i with
      | some ⟨task, _, _, .call a _⟩ => task.uses s.net a
      | _ => []
  | .schedule now => match s.ai.pending with
      | req :: _ =>
          if 30 < now - req.timestamp then
            ((s.net.ctxs req.origin.ctx).ownerWorker.map .worker).toList
          else []
      | [] => []
  | _ => []

/-- The object whose own thread takes a step; a pool thread is no object's. -/
def State.runner (s : State) : Label → Option Component
  | .swap w | .functor w | .close w => some (.worker w)
  | .read c _ _ | .write c _ | .drop c => (s.net.conns c).map fun d => .worker d.worker
  | .schedule _ | .dispatch => some .streamingAi
  | .drain | .flush _ => some .dbWriter
  | .accept _ | .dequeue _ _ | .thread _ _ => none

/-- The thread of an object is where it looks at `running_`, so that it can be joined. -/
def Component.stops (s : State) : Component → Prop
  | .worker w => (s.net.workers w).busy = none ∧ (s.net.workers w).batch = []
  | .streamingAi => s.ai.handoff = none
  | .dbWriter => s.db.batch = []

instance (s : State) (x : Component) : Decidable (x.stops s) := by
  cases x <;> (unfold Component.stops; infer_instance)

structure Shutdown where
  server : State
  todo : List Component
  gone : List Component

/-- Where `main` leaves its accept loop. -/
def Shutdown.start (P : Params) (s : State) : Shutdown where
  server := s
  todo := (List.range P.cfg.workerNum).map .worker ++ [.streamingAi, .dbWriter]
  gone := []

inductive ShutdownLabel
  | server (l : Label)
  /-- `main` destroys the next object. -/
  | destroy

/-- A pool thread asks for `g_db_writer` and finds a null pointer. -/
def State.findNull (s : State) : Label → Option State
  | .thread i _ => match s.threads i with
      | some ⟨task, script, hist, .call .dbWriter k⟩ =>
          some { s with
            threads := Function.update s.threads i
              (some ⟨task, script, hist ++ [⟨.dbWriter, false⟩], k false⟩)
            log := .did task.origin ⟨.dbWriter, false⟩ :: s.log }
      | _ => none
  | _ => none

/-- A step of the server without the objects `gone`. -/
def State.stepWithout (P : Params) (gone : List Component) (l : Label) (s : State) : Option State :=
  if .dbWriter ∈ gone then s.findNull l <|> step P l s else step P l s

def Shutdown.step (P : Params) : ShutdownLabel → Shutdown → Option Shutdown
  | .server (.accept _), _ => none
  | .server l, d =>
      if ∃ x ∈ (d.server.runner l).toList ++ d.server.touches l, x ∈ d.gone then none
      else (d.server.stepWithout P d.gone l).map fun s => { d with server := s }
  | .destroy, d => match d.todo with
      | [] => none
      | x :: rest => if x.stops d.server then some ⟨d.server, rest, x :: d.gone⟩ else none

/-- The states of a shutdown that starts in the state `s` of the server. -/
abbrev ShutdownTo (P : Params) (C : ShutdownLabel → Shutdown → Prop) (s : State) (d : Shutdown) : Prop :=
  Reach (Shutdown.step P) C (Shutdown.start P s) d

end AuraChat
