import Mathlib.Data.List.Infix
import AuraChat.Model.Protocol

set_option autoImplicit false

/-!
# The store: `DBBatchWriter`

The four file tables, their id counters, the queue of the batch writer and the batch in its hands.
The operations are the file branches of `db_writer.cpp`; each runs under `file_mutex_`, so each is
one function of the store. In MySQL mode (`useFileStorage = false`) `messages` stands for the
`messages` table, which `query_offline_messages`, `mark_delivered` and the writer loop use with the
same meaning, as far as the statement succeeds; the other tables are then behind the database and
their replies come from outside (see `Ext`).

Ids are integers here. The counter of messages is an `int` in the source and a `BIGINT` in the
table: a batch that would take it past `idLimit` has no meaning, and the server has no such step.
-/

namespace AuraChat

structure FileUser where
  uid : Int
  username : String
  passwordHash : String
  deriving DecidableEq, Repr

structure FileFriendRequest where
  id : Int
  fromUid : Int
  toUid : Int
  message : String
  status : Int
  deriving DecidableEq, Repr

structure FileMessage where
  id : Int
  fromUid : Int
  toUid : Int
  content : Bytes
  delivered : Bool
  deriving DecidableEq, Repr

/-- `DBChatMessage`, without the time stamp, which nothing reads. -/
structure DBChatMessage where
  id : Int := 0
  fromUid : Int := 0
  toUid : Int := 0
  content : Bytes := []
  delivered : Bool := true
  deriving DecidableEq, Repr

structure Store where
  useFileStorage : Bool := true
  users : List FileUser := []
  friends : List (Int × Int) := []
  friendReqs : List FileFriendRequest := []
  messages : List FileMessage := []
  nextUid : Int := 1000
  nextReqId : Int := 1
  nextMsgId : Int := 1
  queue : List DBChatMessage := []
  batch : List DBChatMessage := []
  deriving DecidableEq, Repr

namespace Store

/-! ## Users -/

/-- `register_user`: the new uid, or `-2` when the name is taken. -/
def registerUser (hash : String → String) (username password : String) (st : Store) : Int × Store :=
  if st.users.any (·.username == username) then (-2, st)
  else (st.nextUid, { st with
    nextUid := st.nextUid + 1
    users := st.users ++ [⟨st.nextUid, username, hash password⟩] })

/-- `verify_login`: the uid of the first matching user, or `-1`. -/
def verifyLogin (hash : String → String) (username password : String) (st : Store) : Int :=
  match st.users.find? fun u => u.username == username && u.passwordHash == hash password with
  | some u => u.uid
  | none => -1

/-- `::tolower` in the C locale, on ASCII letters. -/
def toLower (s : String) : List Char := s.toList.map Char.toLower

/-- The loop of `search_users`: the matches so far, stopping once there are 20. -/
def searchLoop (keyword : String) : List FileUser → List (Int × String) → List (Int × String)
  | [], acc => acc
  | u :: us, acc =>
      let acc' := if toLower keyword <:+: toLower u.username then acc ++ [(u.uid, u.username)] else acc
      if 20 ≤ acc'.length then acc' else searchLoop keyword us acc'

def searchUsers (keyword : String) (st : Store) : List (Int × String) :=
  searchLoop keyword st.users []

/-- The name shown for a uid: the user's, or a placeholder made from the number. -/
def displayName (st : Store) (uid : Int) : String :=
  match st.users.find? fun u => u.uid == uid with
  | some u => u.username
  | none => "用户" ++ toString uid

/-! ## Friends -/

/-- `add_friend_request`: the request id, `-2` for friends already, `-3` for a request pending. -/
def addFriendRequest (fromUid toUid : Int) (msg : String) (st : Store) : Int × Store :=
  if st.friends.any (fun p => p.1 == min fromUid toUid && p.2 == max fromUid toUid) then (-2, st)
  else if st.friendReqs.any (fun r => r.fromUid == fromUid && r.toUid == toUid && r.status == 0) then
    (-3, st)
  else (st.nextReqId, { st with
    nextReqId := st.nextReqId + 1
    friendReqs := st.friendReqs ++ [⟨st.nextReqId, fromUid, toUid, msg, 0⟩] })

/-- The test of the search loop of `accept_friend_request`. -/
def pendingFor (requestId acceptorUid : Int) (r : FileFriendRequest) : Bool :=
  r.id == requestId && r.toUid == acceptorUid && r.status == 0

/-- Mark the first request that passes the test; its sender, or `-1`. -/
def acceptLoop (requestId acceptorUid : Int) :
    List FileFriendRequest → Int × List FileFriendRequest
  | [] => (-1, [])
  | r :: rs =>
      if pendingFor requestId acceptorUid r then
        (r.fromUid, { r with status := 1 } :: rs)
      else ((acceptLoop requestId acceptorUid rs).1, r :: (acceptLoop requestId acceptorUid rs).2)

/-- `accept_friend_request`: the sender of the request, or `-1`. -/
def acceptFriendRequest (requestId acceptorUid : Int) (st : Store) : Int × Store :=
  let (fromUid, reqs) := acceptLoop requestId acceptorUid st.friendReqs
  if fromUid < 0 then (-1, { st with friendReqs := reqs })
  else (fromUid, { st with
    friendReqs := reqs
    friends := st.friends ++ [(min fromUid acceptorUid, max fromUid acceptorUid)] })

def getFriends (uid : Int) (st : Store) : List (Int × String) :=
  st.friends.filterMap fun p =>
    if p.1 = uid then some (p.2, st.displayName p.2)
    else if p.2 = uid then some (p.1, st.displayName p.1)
    else none

/-- `get_pending_requests`: newest first. -/
def getPendingRequests (uid : Int) (st : Store) : List FriendRequestInfo :=
  (st.friendReqs.reverse.filter fun r => r.toUid == uid && r.status == 0).map fun r =>
    ⟨r.id, r.fromUid, st.displayName r.fromUid, r.message⟩

/-! ## Messages -/

/-- The rows `query_offline_messages` and the `delivered = 0` clause select. -/
def undelivered (uid : Int) (m : FileMessage) : Bool := m.toUid == uid && !m.delivered

def queryOfflineMessages (uid : Int) (st : Store) : List DBChatMessage :=
  (st.messages.filter (undelivered uid)).map fun m => ⟨m.id, m.fromUid, m.toUid, m.content, false⟩

def markDelivered (uid maxId : Int) (st : Store) : Store :=
  { st with messages := st.messages.map fun m =>
      if m.toUid = uid ∧ m.id ≤ maxId then { m with delivered := true } else m }

def submit (m : DBChatMessage) (st : Store) : Store := { st with queue := st.queue ++ [m] }

/-- The writer takes up to 100 messages from the queue. -/
def drain (st : Store) : Store :=
  { st with
    batch := st.batch ++ st.queue.take (100 - st.batch.length)
    queue := st.queue.drop (100 - st.batch.length) }

/-- The largest value of the message counter. -/
def idLimit (st : Store) : Int := if st.useFileStorage then 2147483647 else 9223372036854775807

/-- Number the messages of a batch. -/
def rowsOf (next : Int) : List DBChatMessage → List FileMessage
  | [] => []
  | m :: ms => ⟨next, m.fromUid, m.toUid, m.content, m.delivered⟩ :: rowsOf (next + 1) ms

/-- The writer stores its batch: into `file_messages_`, or with one `INSERT` that may fail. The
batch is cleared either way. -/
def flush (ok : Bool) (st : Store) : Store :=
  if st.useFileStorage || ok then
    { st with
      messages := st.messages ++ rowsOf st.nextMsgId st.batch
      nextMsgId := st.nextMsgId + st.batch.length
      batch := [] }
  else { st with batch := [] }

end Store

end AuraChat
