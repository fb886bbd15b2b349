import Mathlib.Data.Sym.Sym2
import AuraChat.Lib.Trace
import AuraChat.Model.Files

set_option autoImplicit false

/-!
# What the store is for

* `StoreCall`, `StoreCall.op`, `StoreCall.answer`: the calls of the store in file mode with their answers,
  and the restarts between them;
* `Community`: people with their accounts, friendships, friend requests and mail, in sets and functions;
* `Community.Step`: what each call means there, whatever tables and files are behind it;
* `Store.community`: the community that the tables describe.
-/

namespace AuraChat

/-! ## Calls -/

inductive StoreCall
  | registerUser (username password : String)
  | verifyLogin (username password : String)
  | searchUsers (keyword : String)
  | addFriendRequest (fromUid toUid : Int) (msg : String)
  | acceptFriendRequest (requestId acceptorUid : Int)
  | getFriends (uid : Int)
  | getPendingRequests (uid : Int)
  | queryOfflineMessages (uid : Int)
  | markDelivered (uid maxId : Int)
  | submit (m : DBChatMessage)
  | drain
  | flush
  | restart
  deriving DecidableEq

namespace StoreCall

@[reducible] def Answer : StoreCall → Type
  | registerUser _ _ | verifyLogin _ _ | addFriendRequest _ _ _ | acceptFriendRequest _ _ => Int
  | searchUsers _ | getFriends _ => List (Int × String)
  | getPendingRequests _ => List FriendRequestInfo
  | queryOfflineMessages _ => List DBChatMessage
  | markDelivered _ _ | submit _ | drain | flush | restart => Unit

def op : StoreCall → DiskOp
  | registerUser u p => .run (.registerUser u p)
  | addFriendRequest a b msg => .run (.addFriendRequest a b msg)
  | acceptFriendRequest rid uid => .run (.acceptFriendRequest rid uid)
  | markDelivered uid maxId => .run (.markDelivered uid maxId)
  | submit m => .run (.submit m)
  | drain => .run .drain
  | flush => .run .flush
  | restart => .restart
  | verifyLogin _ _ | searchUsers _ | getFriends _ | getPendingRequests _ | queryOfflineMessages _ => .run .query

def answer (hash : String → String) (st : Store) : (a : StoreCall) → a.Answer
  | registerUser u p => (st.registerUser hash u p).1
  | verifyLogin u p => st.verifyLogin hash u p
  | searchUsers keyword => st.searchUsers keyword
  | addFriendRequest a b msg => (st.addFriendRequest a b msg).1
  | acceptFriendRequest rid uid => (st.acceptFriendRequest rid uid).1
  | getFriends uid => st.getFriends uid
  | getPendingRequests uid => st.getPendingRequests uid
  | queryOfflineMessages uid => st.queryOfflineMessages uid
  | markDelivered _ _ | submit _ | drain | flush | restart => ()

end StoreCall

/-- A call and its answer. -/
abbrev Exchange : Type := (a : StoreCall) × a.Answer

/-! ## The community -/

@[ext] structure Community where
  /-- Uid, name and digest of the password. -/
  accounts : Set (Int × String × String)
  /-- The requests that wait for an answer: id, sender, addressee and text. -/
  asked : Set (Int × Int × Int × String)
  friends : Set (Sym2 Int)
  /-- What waits for a user, oldest first: id, sender and text. -/
  mail : Int → List (Int × Int × Bytes)
  /-- What has been handed in and is not stored yet. -/
  outbox : List DBChatMessage
  -- above every uid, request id and message id that has been given out
  uidBound : Int
  requestBound : Int
  mailBound : Int

namespace Community

/-- The community before anyone has come. -/
def founded : Community := ⟨∅, ∅, ∅, fun _ => [], [], 1000, 1, 1⟩

/-- The name that a uid is shown by. -/
def Named (c : Community) (uid : Int) (name : String) : Prop :=
  (∃ digest, (uid, name, digest) ∈ c.accounts) ∨
    (∀ a ∈ c.accounts, a.1 ≠ uid) ∧ name = "用户" ++ toString uid

/-- The part of some mail that is for a user to read. -/
def mailFor (uid : Int) (posted : List (Int × DBChatMessage)) : List (Int × Int × Bytes) :=
  (posted.filter fun x => x.2.toUid == uid && !x.2.delivered).map fun x => (x.1, x.2.fromUid, x.2.content)

/-- **What a call means.** -/
inductive Step (hash : String → String) (c : Community) : (a : StoreCall) → a.Answer → Community → Prop
  | registered (name password : String) (uid : Int) (hfree : ∀ a ∈ c.accounts, a.2.1 ≠ name)
      (hnew : c.uidBound ≤ uid) : Step hash c (.registerUser name password) uid { c with
        accounts := insert (uid, name, hash password) c.accounts
        uidBound := uid + 1 }
  | nameTaken (name password : String) (h : ∃ a ∈ c.accounts, a.2.1 = name) :
      Step hash c (.registerUser name password) (-2) c
  | loggedIn (name password : String) (uid : Int) (h : (uid, name, hash password) ∈ c.accounts) :
      Step hash c (.verifyLogin name password) uid c
  | loginRefused (name password : String) (h : ∀ uid, (uid, name, hash password) ∉ c.accounts) :
      Step hash c (.verifyLogin name password) (-1) c
  | found (keyword : String) (users : List (Int × String)) (hnodup : users.Nodup) (hle : users.length ≤ 20)
      (hfound : ∀ x ∈ users, (∃ digest, (x.1, x.2, digest) ∈ c.accounts) ∧
        Store.toLower keyword <:+: Store.toLower x.2)
      (hall : users.length < 20 → ∀ a ∈ c.accounts,
        Store.toLower keyword <:+: Store.toLower a.2.1 → (a.1, a.2.1) ∈ users) :
      Step hash c (.searchUsers keyword) users c
  | asked (fromUid toUid : Int) (msg : String) (id : Int) (hfriends : s(fromUid, toUid) ∉ c.friends)
      (hnone : ∀ id text, (id, fromUid, toUid, text) ∉ c.asked) (hnew : c.requestBound ≤ id) :
      Step hash c (.addFriendRequest fromUid toUid msg) id { c with
        asked := insert (id, fromUid, toUid, msg) c.asked
        requestBound := id + 1 }
  | alreadyFriends (fromUid toUid : Int) (msg : String) (h : s(fromUid, toUid) ∈ c.friends) :
      Step hash c (.addFriendRequest fromUid toUid msg) (-2) c
  | alreadyAsked (fromUid toUid : Int) (msg : String) (hfriends : s(fromUid, toUid) ∉ c.friends)
      (h : ∃ id text, (id, fromUid, toUid, text) ∈ c.asked) :
      Step hash c (.addFriendRequest fromUid toUid msg) (-3) c
  | accepted (requestId acceptorUid fromUid : Int) (text : String)
      (h : (requestId, fromUid, acceptorUid, text) ∈ c.asked) :
      Step hash c (.acceptFriendRequest requestId acceptorUid) fromUid { c with
        asked := c.asked \ {(requestId, fromUid, acceptorUid, text)}
        friends := insert s(fromUid, acceptorUid) c.friends }
  | acceptRefused (requestId acceptorUid : Int)
      (h : ∀ fromUid text, (requestId, fromUid, acceptorUid, text) ∉ c.asked) :
      Step hash c (.acceptFriendRequest requestId acceptorUid) (-1) c
  | friends (uid : Int) (users : List (Int × String))
      (h : ∀ other name, (other, name) ∈ users ↔ s(uid, other) ∈ c.friends ∧ c.Named other name) :
      Step hash c (.getFriends uid) users c
  | pending (uid : Int) (infos : List FriendRequestInfo)
      (hnewest : infos.Pairwise fun i j => j.id < i.id)
      (h : ∀ i, i ∈ infos ↔ (i.id, i.fromUid, uid, i.message) ∈ c.asked ∧
        c.Named i.fromUid i.fromUsername) :
      Step hash c (.getPendingRequests uid) infos c
  | mail (uid : Int) : Step hash c (.queryOfflineMessages uid)
      ((c.mail uid).map fun x => ⟨x.1, x.2.1, uid, x.2.2, false⟩) c
  | delivered (uid maxId : Int) : Step hash c (.markDelivered uid maxId) () { c with
      mail := Function.update c.mail uid ((c.mail uid).filter fun x => maxId < x.1) }
  | handedIn (m : DBChatMessage) : Step hash c (.submit m) () { c with outbox := c.outbox ++ [m] }
  | waits : Step hash c .drain () c
  | posted (posted : List (Int × DBChatMessage)) (rest : List DBChatMessage) (bound : Int)
      (hout : c.outbox = posted.map Prod.snd ++ rest) (hids : (posted.map Prod.fst).Pairwise (· < ·))
      (hnew : ∀ x ∈ posted, c.mailBound ≤ x.1 ∧ x.1 < bound) (hbound : c.mailBound ≤ bound) :
      Step hash c .flush () { c with
        mail := fun uid => c.mail uid ++ mailFor uid posted
        outbox := rest
        mailBound := bound }
  -- what has not been stored is lost
  | restarted : Step hash c .restart () { c with outbox := [] }

/-- A step, as an event. -/
def Lives (hash : String → String) (c : Community) (e : Exchange) (c' : Community) : Prop :=
  Step hash c e.1 e.2 c'

end Community

/-! ## Tables as a community -/

def Store.community (st : Store) : Community where
  accounts := {a | ⟨a.1, a.2.1, a.2.2⟩ ∈ st.users}
  asked := {r | ⟨r.1, r.2.1, r.2.2.1, r.2.2.2, 0⟩ ∈ st.friendReqs}
  friends := {e | ∃ p ∈ st.friends, s(p.1, p.2) = e}
  mail uid := (st.messages.filter (Store.undelivered uid)).map fun m => (m.id, m.fromUid, m.content)
  outbox := st.batch ++ st.queue
  uidBound := st.nextUid
  requestBound := st.nextReqId
  mailBound := st.nextMsgId

/-- A call is answered from the tables and its effects reach the files. -/
def Disk.Serves (J : JsonLib) (hash : String → String) (d : Disk) (e : Exchange) (d' : Disk) : Prop :=
  e.2 = e.1.answer hash d.store ∧ Disk.step J hash e.1.op d = some d'

end AuraChat
