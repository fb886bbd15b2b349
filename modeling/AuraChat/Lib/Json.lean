import Mathlib.Tactic.Common

set_option autoImplicit false

/-!
# JSON documents

The values of a JSON library whose objects are ordered maps and whose strings are byte strings, and
the way such a library reads fields out of a document: an access of the wrong kind raises an
exception (`none`).

* `Json`, `Json.Canonical`, `Json.Utf8`: objects have their keys in order, and all strings are valid
  UTF-8;
* `Json.value`, `Json.field`, `Json.items`: reading a document;
* `JsonLib`, **`JsonLib.Lawful`**: what is relied on of the functions `dump` and `parse` between
  documents and texts.
-/

/-- A JSON document. Strings are byte strings, and the keys of an object are listed in order. -/
inductive Json : Type
  | null
  | bool (b : Bool)
  | int (n : Int)
  | str (s : List UInt8)
  | arr (xs : List Json)
  | obj (fields : List (String × Json))

/-- The bytes are valid UTF-8. -/
def ValidUtf8 (s : List UInt8) : Prop := (⟨s.toArray⟩ : ByteArray).IsValidUTF8

instance (s : List UInt8) : Decidable (ValidUtf8 s) := by unfold ValidUtf8; infer_instance

namespace Json

/-- The lexicographic order of byte strings. -/
def bytesLt : List UInt8 → List UInt8 → Bool
  | _, [] => false
  | [], _ :: _ => true
  | a :: as, b :: bs => a < b || (a = b && bytesLt as bs)

/-- The order of the keys of an object. -/
def keyLt (k l : String) : Bool := bytesLt k.toUTF8.data.toList l.toUTF8.data.toList

/-- Every object of the document has its keys in order, each once. -/
inductive Canonical : Json → Prop
  | null : Canonical null
  | bool (b : Bool) : Canonical (bool b)
  | int (n : Int) : Canonical (int n)
  | str (s : List UInt8) : Canonical (str s)
  | arr {xs : List Json} (h : ∀ x ∈ xs, Canonical x) : Canonical (arr xs)
  | obj {fields : List (String × Json)} (hkeys : (fields.map Prod.fst).Pairwise fun k l => keyLt k l = true)
      (h : ∀ p ∈ fields, Canonical p.2) : Canonical (obj fields)

/-- Every string of the document is valid UTF-8. -/
inductive Utf8 : Json → Prop
  | null : Utf8 null
  | bool (b : Bool) : Utf8 (bool b)
  | int (n : Int) : Utf8 (int n)
  | str {s : List UInt8} (h : ValidUtf8 s) : Utf8 (str s)
  | arr {xs : List Json} (h : ∀ x ∈ xs, Utf8 x) : Utf8 (arr xs)
  | obj {fields : List (String × Json)} (h : ∀ p ∈ fields, Utf8 p.2) : Utf8 (obj fields)

attribute [simp] Canonical.bool Canonical.int Canonical.str Utf8.bool Utf8.int

@[simp] theorem canonical_arr {xs : List Json} : Canonical (.arr xs) ↔ ∀ x ∈ xs, Canonical x :=
  ⟨fun h => by cases h; assumption, .arr⟩

@[simp] theorem canonical_obj {fields : List (String × Json)} :
    Canonical (.obj fields) ↔ ((fields.map Prod.fst).Pairwise fun k l => keyLt k l = true) ∧
      ∀ p ∈ fields, Canonical p.2 :=
  ⟨fun h => by cases h; exact ⟨‹_›, ‹_›⟩, fun h => .obj h.1 h.2⟩

@[simp] theorem utf8_str {s : List UInt8} : Utf8 (.str s) ↔ ValidUtf8 s :=
  ⟨fun h => by cases h; assumption, .str⟩

@[simp] theorem utf8_arr {xs : List Json} : Utf8 (.arr xs) ↔ ∀ x ∈ xs, Utf8 x :=
  ⟨fun h => by cases h; assumption, .arr⟩

@[simp] theorem utf8_obj {fields : List (String × Json)} : Utf8 (.obj fields) ↔ ∀ p ∈ fields, Utf8 p.2 :=
  ⟨fun h => by cases h; assumption, .obj⟩

/-! ## Reading a document -/

/-- The value under a key, if the document is an object that has it. -/
def get? (key : String) : Json → Option Json
  | obj fields => (fields.find? fun p => p.1 == key).map Prod.snd
  | _ => none

/-- Read a value as a number; a truth value counts as one. -/
def asInt : Json → Option Int
  | int n => some n
  | bool b => some (if b then 1 else 0)
  | _ => none

def asBool : Json → Option Bool
  | bool b => some b
  | _ => none

def asBytes : Json → Option (List UInt8)
  | str s => some s
  | _ => none

/-- Read a value as a text. -/
def asString : Json → Option String
  | str s => String.fromUTF8? ⟨s.toArray⟩
  | _ => none

variable {α : Type}

/-- `j.value(key, default)`: only an object can be asked, and what it has must be of the right kind. -/
def value (read : Json → Option α) (key : String) (default : α) : Json → Option α
  | obj fields => match (obj fields).get? key with
    | none => some default
    | some v => read v
  | _ => none

/-- `j[key]`, read as a value: a missing key gives a null value, which nothing can be read from. -/
def field (read : Json → Option α) (key : String) (j : Json) : Option α := (j.get? key).bind read

/-- What a loop over a value visits. -/
def items : Json → List Json
  | null => []
  | arr xs => xs
  | obj fields => fields.map Prod.snd
  | j => [j]

/-- The rows under a key, if there are any. -/
def rows (read : Json → Option α) (key : String) (j : Json) : Option (List α) :=
  match j.get? key with
  | none => some []
  | some v => v.items.mapM read

theorem asString_utf8 (s : String) : asString (.str s.toUTF8.data.toList) = some s := by
  have h : (⟨s.toUTF8.data.toList.toArray⟩ : ByteArray) = s.toUTF8 := by simp
  rw [asString, h, String.fromUTF8?, String.toUTF8_eq_toByteArray, dif_pos s.isValidUTF8]
  rfl

theorem validUtf8_utf8 (s : String) : ValidUtf8 s.toUTF8.data.toList := by
  have h : (⟨s.toUTF8.data.toList.toArray⟩ : ByteArray) = s.toUTF8 := by simp
  rw [ValidUtf8, h]
  exact s.isValidUTF8

/-- Rows are read back as they were written. -/
theorem mapM_map_some {β : Type} {write : β → Json} {read : Json → Option β} (xs : List β)
    (h : ∀ x, read (write x) = some x) : (xs.map write).mapM read = some xs := by
  induction xs with
  | nil => rfl
  | cons x xs ih => simp [List.mapM_cons, h, ih]

end Json

/-! ## Texts -/

/-- The functions of a JSON library between documents and texts; `none` is an exception. -/
structure JsonLib where
  dump : Json → Option (List UInt8)
  parse : List UInt8 → Option Json

/-- **What is relied on of a JSON library**: a document with a string that is not valid UTF-8 cannot
be dumped, any other document is read back from its text, and the empty text is no document. -/
structure JsonLib.Lawful (J : JsonLib) : Prop where
  parse_dump : ∀ j, j.Canonical → j.Utf8 → ∃ t, J.dump j = some t ∧ J.parse t = some j
  dump_invalid : ∀ j, ¬ j.Utf8 → J.dump j = none
  parse_nil : J.parse [] = none
