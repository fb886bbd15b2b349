import AuraChat.Lib.Like
import AuraChat.Model.Store
import AuraChat.Model.Tables

set_option autoImplicit false

/-!
# The user search in MySQL mode

`search_users` puts the keyword, escaped by `esc`, between two wildcards of a `LIKE` pattern. The pattern is
a string literal of the statement, so MySQL reads it twice: as a literal, then as a pattern.

* `esc`, `searchSql`: the statement;
* `stringLiteral`, `execSearch`: what MySQL does for it;
* `searchUsers`: the MySQL branch of `search_users`.
-/

namespace AuraChat

namespace Mysql

/-! ## The statement -/

def nul : Char := Char.ofNat 0

def ctrlZ : Char := Char.ofNat 26

def doubleQuote : Char := Char.ofNat 34

def quote : Char := Char.ofNat 39

/-- What `mysql_real_escape_string` writes for a character. -/
def escapeChar (c : Char) : List Char :=
  if c = nul then ['\\', '0']
  else if c = '\n' then ['\\', 'n']
  else if c = '\r' then ['\\', 'r']
  else if c = '\\' then ['\\', '\\']
  else if c = quote then ['\\', quote]
  else if c = doubleQuote then ['\\', doubleQuote]
  else if c = ctrlZ then ['\\', 'Z']
  else [c]

/-- `DBBatchWriter::esc`: the escaped characters, read back as a C string. -/
def esc (s : String) : String := cString (String.ofList (s.toList.flatMap escapeChar))

def searchSql (keyword : String) : String :=
  "SELECT uid,username FROM users WHERE username LIKE '%" ++ esc keyword ++ "%' LIMIT 20"

/-! ## The server -/

/-- What a backslash and a character stand for in a string literal. In front of a wildcard the backslash
stays. -/
def unescape (c : Char) : List Char :=
  if c = '0' then [nul]
  else if c = 'b' then [Char.ofNat 8]
  else if c = 'n' then ['\n']
  else if c = 'r' then ['\r']
  else if c = 't' then ['\t']
  else if c = 'Z' then [ctrlZ]
  else if c = '%' ∨ c = '_' then ['\\', c]
  else [c]

/-- The text of a string literal behind its first quote, and what follows it. -/
def stringLiteral : List Char → Option (List Char × List Char)
  | [] => none
  | [c] => if c = quote then some ([], []) else none
  | c :: c' :: s =>
      if c = '\\' then (stringLiteral s).map fun r => (unescape c' ++ r.1, r.2)
      else if c = quote then
        if c' = quote then (stringLiteral s).map fun r => (quote :: r.1, r.2) else some ([], c' :: s)
      else (stringLiteral (c' :: s)).map fun r => (c :: r.1, r.2)

/-- Two characters that are the same in a collation without cases. -/
def sameLetter (a b : Char) : Bool := a.toLower == b.toLower

def like (pattern : List Char) (text : String) : Bool :=
  Like.accepts sameLetter (Like.parse pattern) text.toList

/-- The statement up to the string literal. -/
def selectLike : List Char := "SELECT uid,username FROM users WHERE username LIKE '".toList

def limit20 : List Char := " LIMIT 20".toList

/-- The answer to the statement: an error for any other text. -/
def execSearch (users : List FileUser) (sql : String) : Option (List (Int × String)) :=
  if selectLike <+: sql.toList then
    match stringLiteral (sql.toList.drop selectLike.length) with
    | none => none
    | some (pattern, rest) =>
        if rest = limit20 then
          some (((users.filter fun u => like pattern u.username).take 20).map fun u => (u.uid, u.username))
        else none
  else none

/-- The MySQL branch of `search_users`, on a connection that answers. -/
def searchUsers (exec : String → Option (List (Int × String))) (keyword : String) : List (Int × String) :=
  match exec (cString (searchSql keyword)) with
  | none => []
  | some rows => rows.map fun row => (row.1, cString row.2)

end Mysql

end AuraChat
