import AuraChat.Lib.Rely
import AuraChat.Lib.Reach
import AuraChat.Model.Tables
import Mathlib.Data.Fintype.Option
import Mathlib.Data.Fintype.Basic

set_option autoImplicit false

/-!
# The MySQL handle

In MySQL mode `DBBatchWriter` has one connection, `mysql_`, and no lock around it: the threads of the
`ThreadPool` and the writer loop make their calls of `libmysqlclient` on the same handle. Each call is
one atomic step. `mysql_query` replaces the result set of the handle and, for an `INSERT`, its last
insert id; `mysql_store_result` takes the result set and `mysql_insert_id` reads the id.

* `Statement`, `Statement.exec`: the statements that are issued, and what the server does for them;
* `Handle`, `DbCall`, `act`: the calls on the handle;
* `registerUser`, `verifyLogin`, `addFriendRequest`, `insertBatch`: the functions, as programs of calls;
* `Server`, `step`: the threads that run them.

The calls `mysql_num_rows`, `mysql_fetch_row` and `mysql_free_result` are on a result set that has been
taken, not on the handle.
-/

namespace AuraChat

open Interleave

namespace Mysql

/-! ## Tables -/

structure Database where
  users : List FileUser := []
  nextUid : ℕ := 1
  /-- `id`, `uid1` and `uid2`. -/
  friends : List (Int × Int × Int) := []
  friendRequests : List FileFriendRequest := []
  nextRequestId : ℕ := 1
  messages : List FileMessage := []
  nextMessageId : ℕ := 1
  deriving DecidableEq, Repr

/-- The tables that `connect_db` creates if they do not exist. -/
inductive Table
  | users | messages | friends | friendRequests
  deriving DecidableEq, Repr

inductive Statement
  | createTable (t : Table)
  /-- `SELECT uid FROM users WHERE username=`. -/
  | selectUser (username : String)
  /-- `SELECT uid FROM users WHERE username= AND password_hash=SHA2()`. -/
  | selectLogin (username password : String)
  | insertUser (username password : String)
  /-- `SELECT id FROM friends WHERE (uid1=LEAST() AND uid2=GREATEST())`. -/
  | selectFriend (fromUid toUid : Int)
  /-- `SELECT id FROM friend_requests WHERE from_uid= AND to_uid= AND status=0`. -/
  | selectRequest (fromUid toUid : Int)
  | insertRequest (fromUid toUid : Int) (msg : String)
  | insertMessages (batch : List DBChatMessage)
  deriving DecidableEq, Repr

namespace Statement

def isSelect : Statement → Bool
  | selectUser _ | selectLogin _ _ | selectFriend _ _ | selectRequest _ _ => true
  | createTable _ | insertUser _ _ | insertRequest _ _ _ | insertMessages _ => false

def isInsert : Statement → Bool
  | insertUser _ _ | insertRequest _ _ _ | insertMessages _ => true
  | createTable _ | selectUser _ | selectLogin _ _ | selectFriend _ _ | selectRequest _ _ => false

end Statement

/-- What the server answers: an error, the rows of a `SELECT` with one column, the first id given by an
`INSERT`, or just success. -/
inductive Answer
  | error
  | rows (l : List Int)
  | inserted (id : ℕ)
  | done
  deriving DecidableEq, Repr

/-- `collate` is the sort key of the collation, by which names are compared. -/
structure Sql where
  collate : String → String
  sha2 : String → String

/-- The largest value of an `INT` column. -/
def intMax : ℕ := 2147483647

variable (sql : Sql)

/-- The `WHERE` clause of `verify_login`. -/
def Matches (username password : String) (u : FileUser) : Prop :=
  sql.collate u.username = sql.collate username ∧ u.passwordHash = sql.sha2 password

instance (username password : String) (u : FileUser) :
    Decidable (Matches sql username password u) := by
  unfold Matches; infer_instance

/-- `INSERT INTO users`: the name has to fit the column and to be new, and the counter may not have run
out. -/
def Database.insertUser (username password : String) (db : Database) : Answer × Database :=
  match varchar 64 username with
  | none => (.error, db)
  | some name =>
      if (∃ u ∈ db.users, sql.collate u.username = sql.collate name) ∨ intMax < db.nextUid then
        (.error, db)
      else (.inserted db.nextUid, { db with
        nextUid := db.nextUid + 1
        users := db.users ++ [⟨db.nextUid, name, sql.sha2 password⟩] })

def Database.insertRequest (fromUid toUid : Int) (msg : String) (db : Database) : Answer × Database :=
  match varchar 255 msg with
  | none => (.error, db)
  | some message =>
      if intMax < db.nextRequestId then (.error, db)
      else (.inserted db.nextRequestId, { db with
        nextRequestId := db.nextRequestId + 1
        friendRequests := db.friendRequests ++ [⟨db.nextRequestId, fromUid, toUid, message, 0⟩] })

def Statement.exec (q : Statement) (db : Database) : Answer × Database :=
  match q with
  | createTable _ => (.done, db)
  | selectUser username => (.rows ((db.users.filter fun u =>
      sql.collate u.username = sql.collate username).map (·.uid)), db)
  | selectLogin username password =>
      (.rows ((db.users.filter fun u => Matches sql username password u).map (·.uid)), db)
  | insertUser username password => db.insertUser sql username password
  | selectFriend a b =>
      (.rows ((db.friends.filter fun f => f.2.1 = min a b ∧ f.2.2 = max a b).map (·.1)), db)
  | selectRequest a b => (.rows ((db.friendRequests.filter fun r =>
      r.fromUid = a ∧ r.toUid = b ∧ r.status = 0).map (·.id)), db)
  | insertRequest a b msg => db.insertRequest a b msg
  | insertMessages batch => (.inserted db.nextMessageId, { db with
      nextMessageId := db.nextMessageId + batch.length
      messages := db.messages ++ Store.rowsOf db.nextMessageId batch })

/-! ## The handle -/

/-- What the client library keeps in the `MYSQL` object. A handle that has been closed or has not been
connected yet is not open. -/
structure Handle where
  isOpen : Bool := true
  result : Option (List Int) := none
  lastInsertId : ℕ := 0
  deriving DecidableEq, Repr

/-- The handle after an answer of the server. -/
def Handle.receive (h : Handle) : Answer → Handle
  | .error | .done => { h with result := none }
  | .rows l => { h with result := some l }
  | .inserted id => { h with result := none, lastInsertId := id }

structure World where
  db : Database := {}
  handle : Handle := {}
  deriving DecidableEq, Repr

/-- The calls of `libmysqlclient` on the handle. -/
inductive DbCall
  | ping
  | close
  | init
  | realConnect
  | query (q : Statement)
  | storeResult
  | insertId
  deriving DecidableEq, Repr

/-- What a call returns; a `Bool` is whether it has succeeded. -/
@[reducible] def Reply : DbCall → Type
  | .ping | .init | .realConnect | .query _ => Bool
  | .close => Unit
  | .storeResult => Option (List Int)
  | .insertId => ℕ

/-- One call. The network decides whether it reaches the server (`ok`). -/
def act : (a : DbCall) → Bool → World → Reply a × World
  | .ping, ok, w => (ok && w.handle.isOpen, w)
  | .close, _, w => ((), { w with handle := { isOpen := false } })
  | .init, ok, w => (ok, { w with handle := { isOpen := false } })
  | .realConnect, ok, w => (ok, { w with handle := { w.handle with isOpen := ok, result := none } })
  | .query q, ok, w =>
      if ok && w.handle.isOpen then
        ((q.exec sql w.db).1 ≠ .error, ⟨(q.exec sql w.db).2, w.handle.receive (q.exec sql w.db).1⟩)
      else (false, { w with handle := { w.handle with result := none } })
  | .storeResult, _, w => (w.handle.result, { w with handle := { w.handle with result := none } })
  | .insertId, _, w => (w.handle.lastInsertId, w)

/-! ## The functions -/

def mysqlPing : Prog Reply Bool := Prog.perform DbCall.ping

def mysqlClose : Prog Reply Unit := Prog.perform DbCall.close

def mysqlInit : Prog Reply Bool := Prog.perform DbCall.init

def mysqlRealConnect : Prog Reply Bool := Prog.perform DbCall.realConnect

def mysqlQuery (q : Statement) : Prog Reply Bool := Prog.perform (DbCall.query q)

def mysqlStoreResult : Prog Reply (Option (List Int)) := Prog.perform DbCall.storeResult

def mysqlInsertId : Prog Reply ℕ := Prog.perform DbCall.insertId

def createTables : List Table → Prog Reply Bool
  | [] => pure true
  | t :: ts => do
      if ← mysqlQuery (.createTable t) then createTables ts else pure false

def connectDb : Prog Reply Bool := do
  mysqlClose
  if ← mysqlInit then
    if ← mysqlRealConnect then createTables [.users, .messages, .friends, .friendRequests]
    else pure false
  else pure false

def ensureConnected : Prog Reply Bool := do
  if ← mysqlPing then pure true else connectDb

/-- Whether a `SELECT` finds a row; not if it fails. -/
def findsRow (q : Statement) : Prog Reply Bool := do
  if ← mysqlQuery q then
    let res ← mysqlStoreResult
    pure (res.getD [] ≠ [])
  else pure false

/-- `(int)`. -/
def toInt (n : ℕ) : Int := (n : Int).bmod (2 ^ 32)

/-- An `INSERT` and the id that it has given, or `-1`. -/
def insertRow (q : Statement) : Prog Reply Int := do
  if ← mysqlQuery q then
    let id ← mysqlInsertId
    pure (toInt id)
  else pure (-1)

def registerUser (username password : String) : Prog Reply Int := do
  if ← ensureConnected then
    if ← findsRow (.selectUser username) then pure (-2)
    else insertRow (.insertUser username password)
  else pure (-1)

def verifyLogin (username password : String) : Prog Reply Int := do
  if ← ensureConnected then
    if ← mysqlQuery (.selectLogin username password) then
      let res ← mysqlStoreResult
      pure ((res.getD []).headD (-1))
    else pure (-1)
  else pure (-1)

def addFriendRequest (fromUid toUid : Int) (msg : String) : Prog Reply Int := do
  if ← ensureConnected then
    if ← findsRow (.selectFriend fromUid toUid) then pure (-2)
    else if ← findsRow (.selectRequest fromUid toUid) then pure (-3)
    else insertRow (.insertRequest fromUid toUid msg)
  else pure (-1)

/-- The writer loop, once it has taken a batch from the queue. It returns nothing: here 0. -/
def insertBatch (batch : List DBChatMessage) : Prog Reply Int := do
  if ← ensureConnected then
    let _ ← mysqlQuery (.insertMessages batch)
    pure 0
  else pure 0

/-! ## Threads -/

inductive DbOp
  | registerUser (username password : String)
  | verifyLogin (username password : String)
  | addFriendRequest (fromUid toUid : Int) (msg : String)
  | insertBatch (batch : List DBChatMessage)
  deriving DecidableEq, Repr

def DbOp.prog : DbOp → Prog Reply Int
  | registerUser u p => Mysql.registerUser u p
  | verifyLogin u p => Mysql.verifyLogin u p
  | addFriendRequest a b msg => Mysql.addFriendRequest a b msg
  | insertBatch batch => Mysql.insertBatch batch

/-- A thread of the pool, or the writer loop. -/
abbrev Caller (n : ℕ) : Type := Option (Fin n)

/-- The writer loop inserts batches, and the threads of the pool call the rest. -/
def DbOp.RunsOn {n : ℕ} : DbOp → Caller n → Prop
  | insertBatch batch, c => c = none ∧ batch ≠ []
  | registerUser _ _, c | verifyLogin _ _, c | addFriendRequest _ _ _, c => c.isSome

instance {n : ℕ} (c : Caller n) : (op : DbOp) → Decidable (op.RunsOn c)
  | .insertBatch _ | .registerUser _ _ | .verifyLogin _ _ | .addFriendRequest _ _ _ => by
      unfold DbOp.RunsOn; infer_instance

/-- A function that a thread is in, and what is left of it. -/
structure Running where
  op : DbOp
  rest : Prog Reply Int

structure Server (n : ℕ) where
  world : World := {}
  threads : Caller n → Option Running := fun _ => none
  /-- The functions that have returned, with their results. -/
  log : List (DbOp × Int) := []

inductive Label (n : ℕ)
  | start (c : Caller n) (op : DbOp)
  /-- The thread makes its next call, or returns. -/
  | run (c : Caller n) (ok : Bool)
  deriving DecidableEq, Repr

def Server.resume {n : ℕ} (s : Server n) (c : Caller n) (ok : Bool) (r : Running) : Server n :=
  match r.rest with
  | .ret x => { s with
      threads := Function.update s.threads c none
      log := s.log ++ [(r.op, x)] }
  | .call a k => { s with
      world := (act sql a ok s.world).2
      threads := Function.update s.threads c (some ⟨r.op, k (act sql a ok s.world).1⟩) }

def step {n : ℕ} : Label n → Server n → Option (Server n)
  | .start c op, s =>
      if (s.threads c).isNone ∧ op.RunsOn c then
        some { s with threads := Function.update s.threads c (some ⟨op, op.prog⟩) }
      else none
  | .run c ok, s => (s.threads c).map (s.resume sql c ok)

end Mysql

end AuraChat
