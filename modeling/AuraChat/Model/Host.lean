import AuraChat.Model.Files
import AuraChat.Model.Server

set_option autoImplicit false

/-!
# The server and its data directory

In file mode every step of the server is an operation of the store, with the files that the operation
saves. An exception raised while a pool thread saves a file is caught by `process_business`. The
writer thread has no handler: an exception that leaves `DBBatchWriter::loop` ends the process, so
such a flush has no successor state.
-/

namespace AuraChat

open Interleave

/-- The operation of the store that a call makes. -/
def Call.storeOp : Call → StoreOp
  | .registerUser u p => .registerUser u p
  | .addFriendRequest a b msg => .addFriendRequest a b msg
  | .acceptFriendRequest rid uid => .acceptFriendRequest rid uid
  | .markDelivered uid maxId => .markDelivered uid maxId
  | .submit m => .submit m
  | _ => .query

/-- The operation of the store that a step makes. -/
def State.storeOp (s : State) : Label → StoreOp
  | .drain => .drain
  | .flush _ => .flush
  | l => match s.next l with
    | some (_, a) => a.storeOp
    | none => .query

structure Host where
  server : State
  files : Files

/-- What a step does to the files, and whether it raises no exception. -/
def Host.effects (P : Params) (J : JsonLib) (l : Label) (h : Host) : List FileEffect × Bool :=
  (h.server.storeOp l).effects P.fileHash J h.server.db

def Host.step (P : Params) (J : JsonLib) (l : Label) (h : Host) : Option Host :=
  if h.server.storeOp l = .flush ∧ (h.effects P J l).2 = false then none
  else (AuraChat.step P l h.server).map fun s => ⟨s, h.files.applyAll (h.effects P J l).1⟩

/-- The states that a run reaches, from a start on the store `db` with the files `fs`. -/
abbrev HostRunTo (P : Params) (J : JsonLib) (db : Store) (fs : Files) (h : Host) : Prop :=
  Reach (Host.step P J) (fun _ _ => True) ⟨State.init P db, fs⟩ h

end AuraChat
