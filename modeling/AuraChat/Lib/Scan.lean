import Mathlib.Data.List.TakeWhile
import Mathlib.Tactic.Common

set_option autoImplicit false

/-!
# Reading words and numbers from a text

What the C++ library makes of a text: `operator>>` into a string or an `int` skips blanks first, and
`std::from_chars` does not. The texts are byte strings in the classic locale.

* `Scan.word`, `Scan.int`: extraction from a stream, with what is left of it;
* `Scan.fromChars`: `std::from_chars` in base 10;
* `Scan.word_ne_nil`, `Scan.length_word`, `Scan.length_int`: a word has a character, and what is left is shorter.
-/

namespace Scan

/-- `isspace`. -/
def isSpace (b : UInt8) : Bool := b = 0x20 ∨ (0x09 ≤ b ∧ b ≤ 0x0D)

def isDigit (b : UInt8) : Bool := 0x30 ≤ b ∧ b ≤ 0x39

/-- The value of decimal digits, with a sign. -/
def value (negative : Bool) (ds : List UInt8) : Int :=
  let n : ℕ := ds.foldl (fun n b => 10 * n + (b.toNat - 0x30)) 0
  if negative then -n else n

/-- A sign at the front, and what follows it; `plus` if there may be one for positive numbers. -/
def sign (plus : Bool) : List UInt8 → Bool × List UInt8
  | [] => (false, [])
  | b :: s =>
      if b = 0x2D then (true, s)
      else if plus = true ∧ b = 0x2B then (false, s)
      else (false, b :: s)

/-- The value fits into an `int`. -/
def InRange (v : Int) : Prop := -2147483648 ≤ v ∧ v < 2147483648

instance (v : Int) : Decidable (InRange v) := by unfold InRange; infer_instance

/-- `operator>>` into a `std::string`. -/
def word (s : List UInt8) : Option (List UInt8 × List UInt8) :=
  let s := s.dropWhile isSpace
  if s = [] then none else some (s.takeWhile fun b => !isSpace b, s.dropWhile fun b => !isSpace b)

/-- `operator>>` into an `int`: it fails without digits, and on a number that is out of range. -/
def int (s : List UInt8) : Option (Int × List UInt8) :=
  let (negative, s) := sign true (s.dropWhile isSpace)
  let v := value negative (s.takeWhile isDigit)
  if s.takeWhile isDigit ≠ [] ∧ InRange v then some (v, s.dropWhile isDigit) else none

/-- What `std::from_chars` returns. -/
inductive FromChars
  | parsed (v : Int) (rest : List UInt8)
  | outOfRange
  | invalid
  deriving DecidableEq, Repr

/-- `std::from_chars` for an `int` in base 10. -/
def fromChars (s : List UInt8) : FromChars :=
  let (negative, s) := sign false s
  let v := value negative (s.takeWhile isDigit)
  if s.takeWhile isDigit = [] then .invalid
  else if InRange v then .parsed v (s.dropWhile isDigit)
  else .outOfRange

theorem length_dropWhile_le (p : UInt8 → Bool) (s : List UInt8) : (s.dropWhile p).length ≤ s.length :=
  (List.dropWhile_sublist p).length_le

theorem exists_word {b : UInt8} (hb : isSpace b = false) (s : List UInt8) :
    ∃ w rest, word (b :: s) = some (w, rest) := by
  refine ⟨(b :: s).takeWhile fun b => !isSpace b, (b :: s).dropWhile fun b => !isSpace b, ?_⟩
  rw [word, List.dropWhile_cons_of_neg (by rw [hb]; exact Bool.false_ne_true)]
  exact if_neg (List.cons_ne_nil b s)

/-- A word has a character. -/
theorem word_ne_nil {s w rest : List UInt8} (h : word s = some (w, rest)) : w ≠ [] := by
  simp only [word] at h
  split_ifs at h with hs
  obtain ⟨rfl, -⟩ := Prod.mk.inj (Option.some.inj h)
  have hhead := List.head?_dropWhile_not isSpace s
  cases hd : s.dropWhile isSpace with
  | nil => exact absurd hd hs
  | cons b bs =>
      rw [hd] at hhead
      have hb : isSpace b = false := by simpa using hhead
      rw [List.takeWhile_cons_of_pos (by rw [hb]; rfl)]
      exact List.cons_ne_nil _ _

/-- What follows a word is shorter than the text. -/
theorem length_word {s w rest : List UInt8} (h : word s = some (w, rest)) : rest.length < s.length := by
  simp only [word] at h
  split_ifs at h with hs
  obtain ⟨-, rfl⟩ := Prod.mk.inj (Option.some.inj h)
  have hskip := length_dropWhile_le isSpace s
  -- the first character of the word is not left
  cases hd : s.dropWhile isSpace with
  | nil => exact absurd hd hs
  | cons b bs =>
      have hb : isSpace b = false := by
        have hhead := List.head?_dropWhile_not isSpace s
        rw [hd] at hhead
        simpa using hhead
      rw [hd, List.length_cons] at hskip
      rw [List.dropWhile_cons_of_pos (by rw [hb]; rfl)]
      have hrest := length_dropWhile_le (fun b => !isSpace b) bs
      omega

theorem length_sign (plus : Bool) (s : List UInt8) : (sign plus s).2.length ≤ s.length := by
  cases s with
  | nil => exact le_rfl
  | cons b s =>
      rw [sign]
      split_ifs
      · exact Nat.le_succ _
      · exact Nat.le_succ _
      · exact le_rfl

/-- What follows a number is no longer than the text. -/
theorem length_int {s rest : List UInt8} {v : Int} (h : int s = some (v, rest)) :
    rest.length ≤ s.length := by
  simp only [int] at h
  split_ifs at h with hs
  obtain ⟨-, rfl⟩ := Prod.mk.inj (Option.some.inj h)
  calc ((sign true (s.dropWhile isSpace)).2.dropWhile isDigit).length
      ≤ (sign true (s.dropWhile isSpace)).2.length := length_dropWhile_le _ _
    _ ≤ (s.dropWhile isSpace).length := length_sign _ _
    _ ≤ s.length := length_dropWhile_le _ _

end Scan
