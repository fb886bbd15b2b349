import AuraChat.Model.Store
import Mathlib.Data.List.Sort

set_option autoImplicit false

/-!
# Friends in MySQL

The MySQL branches of `add_friend_request`, `accept_friend_request`, `get_friends` and
`get_pending_requests`, with the tables `users`, `friends` and `friend_requests` of `connect_db`. A
statement fails only where it breaks a constraint of its table: the unique index on the unordered pair
of a friendship, or the length of a message. Nothing runs in between: there is no transaction to
commit, and the statements before a failed one stand.

`acceptFriendRequestOn` is `accept_friend_request` when statements also fail for other reasons, and
`FriendBackend` that function in either mode.

A row has the same columns as in the file tables. Rows without an `ORDER BY` come in the order of a
nested loop; a string is read back up to its first zero byte, as a C string.
-/

namespace AuraChat

structure FriendTables where
  users : List FileUser := []
  /-- `uid1` and `uid2`. -/
  friends : List (Int × Int) := []
  friendRequests : List FileFriendRequest := []
  /-- The `AUTO_INCREMENT` counter of `friend_requests`. -/
  nextRequestId : Int := 1
  deriving DecidableEq, Repr

/-- What a `std::string` gets from a `char*`. -/
def cString (s : String) : String := String.ofList (s.toList.takeWhile (· ≠ Char.ofNat 0))

/-- What a column `VARCHAR(n)` stores of a string: only spaces are cut off. -/
def varchar (n : ℕ) (s : String) : Option String :=
  if (s.toList.drop n).all (· = ' ') then some (String.ofList (s.toList.take n)) else none

/-- `a INNER JOIN b ON on`. -/
def innerJoin {α β : Type} (a : List α) (b : List β) (on : α → β → Bool) : List (α × β) :=
  a.flatMap fun x => (b.filter (on x)).map fun y => (x, y)

namespace FriendTables

/-! ## Statements -/

/-- The key of a friendship in the unique index `idx_pair`. -/
def pairKey (p : Int × Int) : Int × Int := (min p.1 p.2, max p.1 p.2)

def insertFriend (p : Int × Int) (t : FriendTables) : Option FriendTables :=
  if t.friends.any fun q => pairKey q = pairKey p then none
  else some { t with friends := t.friends ++ [p] }

/-- `INSERT INTO friend_requests`: the new id. The column `status` is 0 by default. -/
def insertFriendRequest (fromUid toUid : Int) (msg : String) (t : FriendTables) :
    Option (Int × FriendTables) := do
  let message ← varchar 255 msg
  some (t.nextRequestId, { t with
    nextRequestId := t.nextRequestId + 1
    friendRequests := t.friendRequests ++ [⟨t.nextRequestId, fromUid, toUid, message, 0⟩] })

/-- `UPDATE friend_requests SET status=1 WHERE id=`. -/
def setAccepted (requestId : Int) (t : FriendTables) : FriendTables :=
  { t with friendRequests := t.friendRequests.map fun r =>
      if r.id = requestId then { r with status := 1 } else r }

/-! ## Operations -/

def addFriendRequest (fromUid toUid : Int) (msg : String) (t : FriendTables) : Int × FriendTables :=
  if t.friends.any fun p => p.1 = min fromUid toUid ∧ p.2 = max fromUid toUid then (-2, t)
  else if t.friendRequests.any fun r => r.fromUid = fromUid ∧ r.toUid = toUid ∧ r.status = 0 then
    (-3, t)
  else match t.insertFriendRequest fromUid toUid msg with
    | none => (-1, t)
    | some result => result

def acceptFriendRequest (requestId acceptorUid : Int) (t : FriendTables) : Int × FriendTables :=
  match t.friendRequests.find? fun r => r.id = requestId ∧ r.toUid = acceptorUid ∧ r.status = 0 with
  | none => (-1, t)
  | some r =>
      let t := t.setAccepted requestId
      match t.insertFriend (min r.fromUid r.toUid, max r.fromUid r.toUid) with
      | none => (-1, t)
      | some t => (r.fromUid, t)

/-- The request that `accept_friend_request` selects. -/
def pendingRequest (requestId acceptorUid : Int) (t : FriendTables) : Option FileFriendRequest :=
  t.friendRequests.find? fun r => r.id = requestId ∧ r.toUid = acceptorUid ∧ r.status = 0

/-- What reaches the server in `accept_friend_request`: the connection is there, and each statement comes
through. -/
structure AcceptLink where
  connected : Bool := true
  selected : Bool := true
  updated : Bool := true
  inserted : Bool := true
  deriving DecidableEq, Repr

/-- `accept_friend_request` on such a link. The result of the `UPDATE` is not looked at. -/
def acceptFriendRequestOn (k : AcceptLink) (requestId acceptorUid : Int) (t : FriendTables) :
    Int × FriendTables :=
  if !k.connected then (-1, t)
  else if !k.selected then (-1, t)
  else match t.pendingRequest requestId acceptorUid with
    | none => (-1, t)
    | some r =>
        let t := if k.updated then t.setAccepted requestId else t
        if !k.inserted then (-1, t)
        else match t.insertFriend (min r.fromUid r.toUid, max r.fromUid r.toUid) with
          | none => (-1, t)
          | some t => (r.fromUid, t)

theorem acceptFriendRequestOn_full (requestId acceptorUid : Int) (t : FriendTables) :
    t.acceptFriendRequestOn {} requestId acceptorUid = t.acceptFriendRequest requestId acceptorUid := rfl

def getFriends (uid : Int) (t : FriendTables) : List (Int × String) :=
  ((innerJoin t.friends t.users fun f u => u.uid = f.1 ∨ u.uid = f.2).filter fun p =>
    (p.1.1 = uid ∨ p.1.2 = uid) ∧ p.2.uid ≠ uid).map fun p => (p.2.uid, cString p.2.username)

def getPendingRequests (uid : Int) (t : FriendTables) : List FriendRequestInfo :=
  (((innerJoin t.friendRequests t.users fun r u => r.fromUid = u.uid).filter fun p =>
    p.1.toUid = uid ∧ p.1.status = 0).insertionSort fun p q => q.1.id ≤ p.1.id).map fun p =>
      ⟨p.1.id, p.1.fromUid, cString p.2.username, cString p.1.message⟩

end FriendTables

/-! ## The two backends -/

/-- A call of one of the four functions. -/
inductive FriendOp
  | add (fromUid toUid : Int) (msg : String)
  | accept (requestId acceptorUid : Int)
  | friends (uid : Int)
  | pending (uid : Int)
  deriving DecidableEq, Repr

/-- What such a call returns. -/
inductive FriendResult
  | code (n : Int)
  | friends (l : List (Int × String))
  | pending (l : List FriendRequestInfo)
  deriving DecidableEq, Repr

namespace FriendOp

def onFiles : FriendOp → Store → FriendResult × Store
  | .add a b msg, st => ((.code (st.addFriendRequest a b msg).1), (st.addFriendRequest a b msg).2)
  | .accept rid uid, st =>
      (.code (st.acceptFriendRequest rid uid).1, (st.acceptFriendRequest rid uid).2)
  | .friends uid, st => (.friends (st.getFriends uid), st)
  | .pending uid, st => (.pending (st.getPendingRequests uid), st)

def onTables : FriendOp → FriendTables → FriendResult × FriendTables
  | .add a b msg, t => (.code (t.addFriendRequest a b msg).1, (t.addFriendRequest a b msg).2)
  | .accept rid uid, t => (.code (t.acceptFriendRequest rid uid).1, (t.acceptFriendRequest rid uid).2)
  | .friends uid, t => (.friends (t.getFriends uid), t)
  | .pending uid, t => (.pending (t.getPendingRequests uid), t)

def resultsOnFiles : List FriendOp → Store → List FriendResult
  | [], _ => []
  | op :: ops, st => (op.onFiles st).1 :: resultsOnFiles ops (op.onFiles st).2

def resultsOnTables : List FriendOp → FriendTables → List FriendResult
  | [], _ => []
  | op :: ops, t => (op.onTables t).1 :: resultsOnTables ops (op.onTables t).2

def filesAfter (st : Store) (ops : List FriendOp) : Store :=
  ops.foldl (fun st op => (op.onFiles st).2) st

end FriendOp

/-- The store in file mode, or in MySQL mode with what reaches the server in the next call. -/
inductive FriendBackend
  | files (st : Store)
  | tables (t : FriendTables) (link : FriendTables.AcceptLink)

namespace FriendBackend

def requests : FriendBackend → List FileFriendRequest
  | .files st => st.friendReqs
  | .tables t _ => t.friendRequests

def friends : FriendBackend → List (Int × Int)
  | .files st => st.friends
  | .tables t _ => t.friends

def acceptFriendRequest (requestId acceptorUid : Int) : FriendBackend → Int × FriendBackend
  | .files st => ((st.acceptFriendRequest requestId acceptorUid).1,
      .files (st.acceptFriendRequest requestId acceptorUid).2)
  | .tables t link => ((t.acceptFriendRequestOn link requestId acceptorUid).1,
      .tables (t.acceptFriendRequestOn link requestId acceptorUid).2 link)

end FriendBackend

/-- The same result: the list of friends up to its order. -/
def FriendResult.Agree : FriendResult → FriendResult → Prop
  | .code n, .code n' => n = n'
  | .friends l, .friends l' => l.Perm l'
  | .pending l, .pending l' => l = l'
  | _, _ => False

end AuraChat
