import AuraChat.Lib.Lexer
import AuraChat.Model.Mysql
import AuraChat.Model.Search

set_option autoImplicit false

/-!
# The texts of the statements

In MySQL mode every function of `DBBatchWriter` puts its statements together from fixed texts, numbers
(`std::to_string`) and strings (`esc`), and hands them to `mysql_query` as C strings.

* `escBytes`: `esc` on the bytes of a `std::string`, for any escaping of the bytes; `escapeByte`, the one that
  is documented;
* `Query`, `Query.text`: the statements with their values, and their texts, as the source concatenates them;
* `Query.site`, `Query.parts`, `Query.values`: the place in the source, and the text with places for the
  values.
-/

namespace AuraChat

namespace Mysql

open Lexer (Piece Value)

/-! ## Escaping -/

/-- What `mysql_real_escape_string` writes for a byte. -/
def escapeByte (b : UInt8) : Bytes :=
  if b = 0x00 then [0x5C, 0x30]
  else if b = 0x0A then [0x5C, 0x6E]
  else if b = 0x0D then [0x5C, 0x72]
  else if b = 0x5C then [0x5C, 0x5C]
  else if b = 0x27 then [0x5C, 0x27]
  else if b = 0x22 then [0x5C, 0x22]
  else if b = 0x1A then [0x5C, 0x5A]
  else [b]

/-- A C string ends at its first zero byte. -/
def cBytes (s : Bytes) : Bytes := s.takeWhile (· ≠ 0)

/-- `esc`, with what `mysql_real_escape_string` writes for a byte. -/
def escBytes (escape : UInt8 → Bytes) (s : Bytes) : Bytes := cBytes (s.flatMap escape)

/-- What a backslash and a byte stand for in a string literal of a statement. -/
def unescapeByte (b : UInt8) : Bytes :=
  if b = 0x30 then [0x00]
  else if b = 0x62 then [0x08]
  else if b = 0x6E then [0x0A]
  else if b = 0x72 then [0x0D]
  else if b = 0x74 then [0x09]
  else if b = 0x5A then [0x1A]
  else if b = 0x25 ∨ b = 0x5F then [0x5C, b]
  else [b]

/-! ## Statements -/

/-- The statements of `DBBatchWriter`, under the functions that issue them. -/
inductive Query
  | registerCheck (username : String)
  | registerInsert (username password : String)
  | verifyLogin (username password : String)
  | queryOfflineMessages (uid : Int)
  | searchUsers (keyword : String)
  | addFriendCheck (fromUid toUid : Int)
  | addFriendDup (fromUid toUid : Int)
  | addFriendInsert (fromUid toUid : Int) (msg : String)
  | acceptCheck (requestId acceptorUid : Int)
  | acceptUpdate (requestId : Int)
  | acceptInsert (fromUid toUid : Int)
  | getFriends (uid : Int)
  | getPendingRequests (uid : Int)
  | getUsername (uid : Int)
  | markDelivered (uid maxId : Int)
  | insertBatch (batch : List DBChatMessage)
  deriving DecidableEq, Repr

def toStringBytes (n : Int) : Bytes := bytes (toString n)

section Texts

variable (escape : UInt8 → Bytes)

/-- The row of a message, in the loop over the batch. -/
def rowText (m : DBChatMessage) : Bytes :=
  bytes "(" ++ toStringBytes m.fromUid ++ bytes ","
    ++ toStringBytes m.toUid ++ bytes ",'"
    ++ escBytes escape m.content ++ bytes "',"
    ++ (if m.delivered then bytes "1" else bytes "0") ++ bytes ")"

/-- The loop over the batch, with a comma in front of every row but the first. -/
def rowTexts : List DBChatMessage → Bytes
  | [] => []
  | m :: ms => rowText escape m ++ ms.flatMap fun m => bytes "," ++ rowText escape m

def Query.text : Query → Bytes
  | registerCheck username =>
      bytes "SELECT uid FROM users WHERE username='" ++ escBytes escape (bytes username) ++ bytes "'"
  | registerInsert username password =>
      bytes "INSERT INTO users (username,password_hash) VALUES ('" ++ escBytes escape (bytes username)
        ++ bytes "',SHA2('" ++ escBytes escape (bytes password) ++ bytes "',256))"
  | verifyLogin username password =>
      bytes "SELECT uid FROM users WHERE username='" ++ escBytes escape (bytes username)
        ++ bytes "' AND password_hash=SHA2('" ++ escBytes escape (bytes password) ++ bytes "',256)"
  | queryOfflineMessages uid =>
      bytes "SELECT id,from_uid,to_uid,content FROM messages WHERE to_uid=" ++ toStringBytes uid
        ++ bytes " AND delivered=0 ORDER BY id"
  | searchUsers keyword =>
      bytes "SELECT uid,username FROM users WHERE username LIKE '%" ++ escBytes escape (bytes keyword)
        ++ bytes "%' LIMIT 20"
  | addFriendCheck fromUid toUid =>
      bytes "SELECT id FROM friends WHERE (uid1=LEAST(" ++ toStringBytes fromUid ++ bytes ","
        ++ toStringBytes toUid ++ bytes ") AND uid2=GREATEST(" ++ toStringBytes fromUid ++ bytes ","
        ++ toStringBytes toUid ++ bytes "))"
  | addFriendDup fromUid toUid =>
      bytes "SELECT id FROM friend_requests WHERE from_uid=" ++ toStringBytes fromUid
        ++ bytes " AND to_uid=" ++ toStringBytes toUid ++ bytes " AND status=0"
  | addFriendInsert fromUid toUid msg =>
      bytes "INSERT INTO friend_requests (from_uid,to_uid,message) VALUES (" ++ toStringBytes fromUid
        ++ bytes "," ++ toStringBytes toUid ++ bytes ",'" ++ escBytes escape (bytes msg) ++ bytes "')"
  | acceptCheck requestId acceptorUid =>
      bytes "SELECT from_uid,to_uid FROM friend_requests WHERE id=" ++ toStringBytes requestId
        ++ bytes " AND to_uid=" ++ toStringBytes acceptorUid ++ bytes " AND status=0"
  | acceptUpdate requestId =>
      bytes "UPDATE friend_requests SET status=1 WHERE id=" ++ toStringBytes requestId
  | acceptInsert fromUid toUid =>
      bytes "INSERT INTO friends (uid1,uid2) VALUES (" ++ toStringBytes (min fromUid toUid) ++ bytes ","
        ++ toStringBytes (max fromUid toUid) ++ bytes ")"
  | getFriends uid =>
      bytes ("SELECT u.uid,u.username FROM users u INNER JOIN friends f ON " ++
        "(u.uid=f.uid1 OR u.uid=f.uid2) WHERE (f.uid1=") ++ toStringBytes uid
        ++ bytes " OR f.uid2=" ++ toStringBytes uid ++ bytes ") AND u.uid!=" ++ toStringBytes uid
  | getPendingRequests uid =>
      bytes ("SELECT fr.id,fr.from_uid,u.username,fr.message FROM friend_requests fr " ++
        "INNER JOIN users u ON fr.from_uid=u.uid WHERE fr.to_uid=") ++ toStringBytes uid
        ++ bytes " AND fr.status=0 ORDER BY fr.id DESC"
  | getUsername uid => bytes "SELECT username FROM users WHERE uid=" ++ toStringBytes uid
  | markDelivered uid maxId =>
      bytes "UPDATE messages SET delivered=1 WHERE to_uid=" ++ toStringBytes uid
        ++ bytes " AND delivered=0 AND id<=" ++ toStringBytes maxId
  | insertBatch batch =>
      bytes "INSERT INTO messages (from_uid,to_uid,content,delivered) VALUES " ++ rowTexts escape batch

end Texts

/-! ## Places -/

/-- Where a statement is put together, and how many rows it has. -/
inductive Site
  | registerCheck | registerInsert | verifyLogin | queryOfflineMessages | searchUsers | addFriendCheck
  | addFriendDup | addFriendInsert | acceptCheck | acceptUpdate | acceptInsert | getFriends
  | getPendingRequests | getUsername | markDelivered
  | insertBatch (rows : ℕ)
  deriving DecidableEq, Repr

def Query.site : Query → Site
  | registerCheck _ => .registerCheck
  | registerInsert _ _ => .registerInsert
  | verifyLogin _ _ => .verifyLogin
  | queryOfflineMessages _ => .queryOfflineMessages
  | searchUsers _ => .searchUsers
  | addFriendCheck _ _ => .addFriendCheck
  | addFriendDup _ _ => .addFriendDup
  | addFriendInsert _ _ _ => .addFriendInsert
  | acceptCheck _ _ => .acceptCheck
  | acceptUpdate _ => .acceptUpdate
  | acceptInsert _ _ => .acceptInsert
  | getFriends _ => .getFriends
  | getPendingRequests _ => .getPendingRequests
  | getUsername _ => .getUsername
  | markDelivered _ _ => .markDelivered
  | insertBatch batch => .insertBatch batch.length

/-- A row of the batch, and the rows after the first one. -/
def rowParts : List Piece :=
  [.text (bytes "("), .number, .text (bytes ","), .number, .text (bytes ","), .string [] [],
    .text (bytes ","), .number, .text (bytes ")")]

def nextRows : ℕ → List Piece
  | 0 => []
  | n + 1 => .text (bytes ",") :: (rowParts ++ nextRows n)

/-- The text in front of the first place. -/
def Site.start : Site → Bytes
  | registerCheck | verifyLogin => bytes "SELECT uid FROM users WHERE username="
  | registerInsert => bytes "INSERT INTO users (username,password_hash) VALUES ("
  | queryOfflineMessages => bytes "SELECT id,from_uid,to_uid,content FROM messages WHERE to_uid="
  | searchUsers => bytes "SELECT uid,username FROM users WHERE username LIKE "
  | addFriendCheck => bytes "SELECT id FROM friends WHERE (uid1=LEAST("
  | addFriendDup => bytes "SELECT id FROM friend_requests WHERE from_uid="
  | addFriendInsert => bytes "INSERT INTO friend_requests (from_uid,to_uid,message) VALUES ("
  | acceptCheck => bytes "SELECT from_uid,to_uid FROM friend_requests WHERE id="
  | acceptUpdate => bytes "UPDATE friend_requests SET status=1 WHERE id="
  | acceptInsert => bytes "INSERT INTO friends (uid1,uid2) VALUES ("
  | getFriends => bytes ("SELECT u.uid,u.username FROM users u INNER JOIN friends f ON " ++
      "(u.uid=f.uid1 OR u.uid=f.uid2) WHERE (f.uid1=")
  | getPendingRequests => bytes ("SELECT fr.id,fr.from_uid,u.username,fr.message FROM friend_requests fr " ++
      "INNER JOIN users u ON fr.from_uid=u.uid WHERE fr.to_uid=")
  | getUsername => bytes "SELECT username FROM users WHERE uid="
  | markDelivered => bytes "UPDATE messages SET delivered=1 WHERE to_uid="
  | insertBatch _ => bytes "INSERT INTO messages (from_uid,to_uid,content,delivered) VALUES "

def Site.rest : Site → List Piece
  | registerCheck => [.string [] []]
  | registerInsert =>
      [.string [] [], .text (bytes ",SHA2("), .string [] [], .text (bytes ",256))")]
  | verifyLogin =>
      [.string [] [], .text (bytes " AND password_hash=SHA2("), .string [] [], .text (bytes ",256)")]
  | queryOfflineMessages => [.number, .text (bytes " AND delivered=0 ORDER BY id")]
  | searchUsers => [.string (bytes "%") (bytes "%"), .text (bytes " LIMIT 20")]
  | addFriendCheck =>
      [.number, .text (bytes ","), .number, .text (bytes ") AND uid2=GREATEST("), .number,
        .text (bytes ","), .number, .text (bytes "))")]
  | addFriendDup | acceptCheck =>
      [.number, .text (bytes " AND to_uid="), .number, .text (bytes " AND status=0")]
  | addFriendInsert =>
      [.number, .text (bytes ","), .number, .text (bytes ","), .string [] [], .text (bytes ")")]
  | acceptUpdate | getUsername => [.number]
  | acceptInsert => [.number, .text (bytes ","), .number, .text (bytes ")")]
  | getFriends => [.number, .text (bytes " OR f.uid2="), .number, .text (bytes ") AND u.uid!="), .number]
  | getPendingRequests => [.number, .text (bytes " AND fr.status=0 ORDER BY fr.id DESC")]
  | markDelivered => [.number, .text (bytes " AND delivered=0 AND id<="), .number]
  | insertBatch 0 => []
  | insertBatch (n + 1) => rowParts ++ nextRows n

def Site.parts (s : Site) : List Piece := .text s.start :: s.rest

def rowValues (m : DBChatMessage) : List Value :=
  [.number m.fromUid, .number m.toUid, .string m.content, .number (if m.delivered then 1 else 0)]

/-- The values, in the order of their places. -/
def Query.values : Query → List Value
  | registerCheck username => [.string (bytes username)]
  | registerInsert username password => [.string (bytes username), .string (bytes password)]
  | verifyLogin username password => [.string (bytes username), .string (bytes password)]
  | queryOfflineMessages uid => [.number uid]
  | searchUsers keyword => [.string (bytes keyword)]
  | addFriendCheck fromUid toUid => [.number fromUid, .number toUid, .number fromUid, .number toUid]
  | addFriendDup fromUid toUid => [.number fromUid, .number toUid]
  | addFriendInsert fromUid toUid msg => [.number fromUid, .number toUid, .string (bytes msg)]
  | acceptCheck requestId acceptorUid => [.number requestId, .number acceptorUid]
  | acceptUpdate requestId => [.number requestId]
  | acceptInsert fromUid toUid => [.number (min fromUid toUid), .number (max fromUid toUid)]
  | getFriends uid => [.number uid, .number uid, .number uid]
  | getPendingRequests uid => [.number uid]
  | getUsername uid => [.number uid]
  | markDelivered uid maxId => [.number uid, .number maxId]
  | insertBatch batch => batch.flatMap rowValues

/-- The statement behind one of the handle; those of `connect_db` have no values. -/
def Statement.query : Statement → Option Query
  | createTable _ => none
  | selectUser username => some (.registerCheck username)
  | selectLogin username password => some (.verifyLogin username password)
  | insertUser username password => some (.registerInsert username password)
  | selectFriend fromUid toUid => some (.addFriendCheck fromUid toUid)
  | selectRequest fromUid toUid => some (.addFriendDup fromUid toUid)
  | insertRequest fromUid toUid msg => some (.addFriendInsert fromUid toUid msg)
  | insertMessages batch => some (.insertBatch batch)

end Mysql

end AuraChat
