import AuraChat.Lib.Json
import AuraChat.Model.Store

set_option autoImplicit false

/-!
# The files of the store

In file mode the tables are kept in four JSON files, each with the id counter of its table: the
`save_*_file` functions rewrite a file from the table in memory, and `load_file_data` reads all four
at the start. `nlohmann::json` is not part of the repository: `dump` and `parse` are parameters
(`JsonLib`), and a document lists the keys of an object in the order of `std::map`.

A file is saved in two effects, the truncation by opening the stream and the writing of the text.
The document is dumped in between: when that raises an exception, the file stays empty.

* `Part`, `Store.part`, `writePart`, `readPart`: what a file holds;
* `saveFiles`, `loadFileData`;
* `StoreOp`: the operations of `DBBatchWriter` in file mode, with the files that each saves;
* `Disk.step`: operations and restarts.
-/

namespace AuraChat

inductive FileName
  | users | friends | friendRequests | messages
  deriving DecidableEq, Repr

/-- What a file holds: the id counter, if there is one, and the rows. -/
@[reducible] def Part : FileName → Type
  | .users => Int × List FileUser
  | .friends => List (Int × Int)
  | .friendRequests => Int × List FileFriendRequest
  | .messages => Int × List FileMessage

/-- The tables in memory, file by file. -/
abbrev Tables : Type := (f : FileName) → Part f

def Store.tables (st : Store) : Tables
  | .users => (st.nextUid, st.users)
  | .friends => st.friends
  | .friendRequests => (st.nextReqId, st.friendReqs)
  | .messages => (st.nextMsgId, st.messages)

/-! ## Documents -/

def FileUser.toJson (u : FileUser) : Json := .obj
  [("password_hash", .str (bytes u.passwordHash)), ("uid", .int u.uid),
    ("username", .str (bytes u.username))]

def pairToJson (p : Int × Int) : Json := .arr [.int p.1, .int p.2]

def FileFriendRequest.toJson (r : FileFriendRequest) : Json := .obj
  [("from_uid", .int r.fromUid), ("id", .int r.id), ("message", .str (bytes r.message)),
    ("status", .int r.status), ("to_uid", .int r.toUid)]

def FileMessage.toJson (m : FileMessage) : Json := .obj
  [("content", .str m.content), ("delivered", .bool m.delivered), ("from_uid", .int m.fromUid),
    ("id", .int m.id), ("to_uid", .int m.toUid)]

/-- The documents of `save_users_file`, `save_friends_file`, `save_friend_reqs_file` and
`save_messages_file`. -/
def writePart : (f : FileName) → Part f → Json
  | .users, (nextUid, users) =>
      .obj [("next_uid", .int nextUid), ("users", .arr (users.map FileUser.toJson))]
  | .friends, friends => .obj [("pairs", .arr (friends.map pairToJson))]
  | .friendRequests, (nextId, reqs) =>
      .obj [("next_id", .int nextId), ("requests", .arr (reqs.map FileFriendRequest.toJson))]
  | .messages, (nextId, msgs) =>
      .obj [("messages", .arr (msgs.map FileMessage.toJson)), ("next_id", .int nextId)]

def FileUser.ofJson (u : Json) : Option FileUser := do
  some ⟨← u.field Json.asInt "uid", ← u.field Json.asString "username",
    ← u.field Json.asString "password_hash"⟩

def pairOfJson (p : Json) : Option (Int × Int) :=
  match p with
  | .arr (a :: b :: _) => do some (← a.asInt, ← b.asInt)
  | _ => none

def FileFriendRequest.ofJson (r : Json) : Option FileFriendRequest := do
  some ⟨← r.field Json.asInt "id", ← r.field Json.asInt "from_uid", ← r.field Json.asInt "to_uid",
    ← r.value Json.asString "message" "", ← r.value Json.asInt "status" 0⟩

def FileMessage.ofJson (m : Json) : Option FileMessage := do
  some ⟨← m.field Json.asInt "id", ← m.field Json.asInt "from_uid", ← m.field Json.asInt "to_uid",
    ← m.field Json.asBytes "content", ← m.value Json.asBool "delivered" true⟩

/-- What `load_file_data` reads out of a document, with its defaults. -/
def readPart : (f : FileName) → Json → Option (Part f)
  | .users, j => do
      some (← j.value Json.asInt "next_uid" 1000, ← j.rows FileUser.ofJson "users")
  | .friends, j => j.rows pairOfJson "pairs"
  | .friendRequests, j => do
      some (← j.value Json.asInt "next_id" 1, ← j.rows FileFriendRequest.ofJson "requests")
  | .messages, j => do
      some (← j.value Json.asInt "next_id" 1, ← j.rows FileMessage.ofJson "messages")

/-! ## Files -/

/-- The files of the data directory; `none` is a file that does not exist. -/
abbrev Files : Type := FileName → Option Bytes

/-- What a run does to the files. -/
inductive FileEffect
  | truncate (f : FileName)
  | write (f : FileName) (text : Bytes)

def Files.apply (fs : Files) : FileEffect → Files
  | .truncate f => Function.update fs f (some [])
  | .write f text => Function.update fs f (some text)

def Files.applyAll (fs : Files) (es : List FileEffect) : Files := es.foldl Files.apply fs

/-- The effects of saving some files one after another, and whether no exception was raised. -/
def saveFiles (J : JsonLib) (T : Tables) : List FileName → List FileEffect × Bool
  | [] => ([], true)
  | f :: fs => match J.dump (writePart f (T f)) with
    | none => ([.truncate f], false)
    | some text =>
        (.truncate f :: .write f text :: (saveFiles J T fs).1, (saveFiles J T fs).2)

/-- `load_json`: a file that cannot be opened or parsed counts as an empty object. -/
def loadJson (J : JsonLib) (fs : Files) (f : FileName) : Json :=
  match fs f with
  | none => .obj []
  | some text => (J.parse text).getD (.obj [])

def loadPart (J : JsonLib) (fs : Files) (f : FileName) : Option (Part f) :=
  readPart f (loadJson J fs f)

/-- `load_file_data`: the tables, unless a document has the wrong shape. -/
def loadFileData (J : JsonLib) (fs : Files) : Option Tables := do
  let users ← loadPart J fs .users
  let friends ← loadPart J fs .friends
  let reqs ← loadPart J fs .friendRequests
  let msgs ← loadPart J fs .messages
  some fun
    | .users => users
    | .friends => friends
    | .friendRequests => reqs
    | .messages => msgs

/-! ## Operations -/

/-- The operations of the store in file mode. The steps `drain` and `flush` are those of the writer
loop, each with nothing to do where the loop does nothing; a `query` stands for `verify_login`,
`query_offline_messages`, `search_users`, `get_friends`, `get_pending_requests` and `get_username`,
which only read. -/
inductive StoreOp
  | registerUser (username password : String)
  | addFriendRequest (fromUid toUid : Int) (msg : String)
  | acceptFriendRequest (requestId acceptorUid : Int)
  | markDelivered (uid maxId : Int)
  | submit (m : DBChatMessage)
  | drain
  | flush
  | query
  deriving DecidableEq, Repr

namespace StoreOp

variable (hash : String → String)

/-- The store in memory after an operation. -/
def apply (st : Store) : StoreOp → Store
  | registerUser u p => (st.registerUser hash u p).2
  | addFriendRequest a b msg => (st.addFriendRequest a b msg).2
  | acceptFriendRequest rid uid => (st.acceptFriendRequest rid uid).2
  | markDelivered uid maxId => st.markDelivered uid maxId
  | submit m => st.submit m
  | drain => if st.batch = [] then st.drain else st
  | flush => if st.batch = [] then st else st.flush true
  | query => st

def applyAll (st : Store) (ops : List StoreOp) : Store := ops.foldl (apply hash) st

/-- The files that an operation saves, in order: none where it returns early. -/
def saves (st : Store) : StoreOp → List FileName
  | registerUser u _ => if st.users.any (·.username == u) then [] else [.users]
  | addFriendRequest a b _ =>
      if st.friends.any (fun p => p.1 == min a b && p.2 == max a b) then []
      else if st.friendReqs.any (fun r => r.fromUid == a && r.toUid == b && r.status == 0) then []
      else [.friendRequests]
  | acceptFriendRequest rid uid =>
      if (Store.acceptLoop rid uid st.friendReqs).1 < 0 then [] else [.friendRequests, .friends]
  | markDelivered _ _ => [.messages]
  | flush => if st.batch = [] then [] else [.messages]
  | submit _ | drain | query => []

/-- The effects of an operation on the files, and whether it completes without an exception. -/
def effects (J : JsonLib) (st : Store) (op : StoreOp) : List FileEffect × Bool :=
  saveFiles J (op.apply hash st).tables (op.saves st)

end StoreOp

/-- The store in memory and its files. -/
structure Disk where
  store : Store
  files : Files

/-- The start on an empty data directory. -/
def Disk.empty : Disk := ⟨{}, fun _ => none⟩

def Disk.run (J : JsonLib) (hash : String → String) (d : Disk) (op : StoreOp) : Disk :=
  ⟨op.apply hash d.store, d.files.applyAll (op.effects hash J d.store).1⟩

def Disk.runAll (J : JsonLib) (hash : String → String) (d : Disk) (ops : List StoreOp) : Disk :=
  ops.foldl (Disk.run J hash) d

/-! ## Restarts -/

/-- The store of a server that has just read these tables. -/
def Store.ofTables (T : Tables) : Store where
  users := (T .users).2
  friends := T .friends
  friendReqs := (T .friendRequests).2
  messages := (T .messages).2
  nextUid := (T .users).1
  nextReqId := (T .friendRequests).1
  nextMsgId := (T .messages).1

/-- An operation, or a restart of the server between two operations. -/
inductive DiskOp
  | run (op : StoreOp)
  | restart
  deriving DecidableEq, Repr

/-- One step. A server does not come up on files that `load_file_data` cannot read. -/
def Disk.step (J : JsonLib) (hash : String → String) : DiskOp → Disk → Option Disk
  | .run op, d => some (d.run J hash op)
  | .restart, d => (loadFileData J d.files).map fun T => ⟨Store.ofTables T, d.files⟩

end AuraChat
