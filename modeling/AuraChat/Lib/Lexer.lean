import AuraChat.Lib.Utf8
import Mathlib.Data.List.Basic
import Mathlib.Data.Option.Basic
import Mathlib.Tactic.Common

set_option autoImplicit false

/-!
# Statement texts and their tokens

A statement of a language with words, symbols and quoted strings, put together from fixed text, numbers and
strings that are escaped.

* `Mode`, `step`, `scan`, `lex`: the lexer, one character after another;
* `Piece`, `render`, `fill`: a statement with places for values, its text and its tokens;
* **`lex_render`**: the lexer reads exactly these tokens, for every escaping that it undoes (`Undoes`);
* **`fill_inj`**, `fill_ne_of_clash`: the tokens determine the values, and the statement.
-/

namespace Lexer

/-- The quote that starts and ends a string. -/
def quote : UInt8 := 0x27

inductive Token
  | word (w : List UInt8)
  | symbol (b : UInt8)
  | literal (s : List UInt8)
  deriving DecidableEq, Repr

/-- Where the lexer is, with what it has read of the token. -/
inductive Mode
  | between
  | word (w : List UInt8)
  | minus
  | literal (s : List UInt8)
  | escape (s : List UInt8)
  /-- After a quote in a string: the end, or the first half of a doubled quote. -/
  | quoted (s : List UInt8)
  deriving DecidableEq, Repr

abbrev Result : Type := Option (List Token × Mode)

def Result.emit (ts : List Token) (r : Result) : Result := r.map fun r => (ts ++ r.1, r.2)

/-- A letter, a digit or an underscore. -/
def isWord (b : UInt8) : Bool :=
  (0x30 ≤ b && b ≤ 0x39) || (0x41 ≤ b && b ≤ 0x5A) || (0x61 ≤ b && b ≤ 0x7A) || b = 0x5F

/-- `( ) , . = < > !`. -/
def symbols : List UInt8 := [0x28, 0x29, 0x2C, 0x2E, 0x3D, 0x3C, 0x3E, 0x21]

/-- The first character of a token, or a blank. Comments and other quotes are refused. -/
def first (b : UInt8) : Result :=
  if isWord b then some ([], .word [b])
  else if b = quote then some ([], .literal [])
  else if b = 0x2D then some ([], .minus)
  else if b = 0x20 then some ([], .between)
  else if b ∈ symbols then some ([.symbol b], .between)
  else none

section Scan

variable (unescape : UInt8 → List UInt8)

/-- One character. Two minus signs start a comment, and a word before a quote says how to read the string:
both are refused. -/
def step : Mode → UInt8 → Result
  | .between, b => first b
  | .word w, b =>
      if isWord b then some ([], .word (w ++ [b]))
      else if b = quote then none
      else (first b).emit [.word w]
  | .minus, b => if b = 0x2D then none else (first b).emit [.symbol 0x2D]
  | .literal s, b =>
      if b = 0x5C then some ([], .escape s)
      else if b = quote then some ([], .quoted s)
      else some ([], .literal (s ++ [b]))
  | .escape s, b => some ([], .literal (s ++ unescape b))
  | .quoted s, b => if b = quote then some ([], .literal (s ++ [quote])) else (first b).emit [.literal s]

def scan : Mode → List UInt8 → Result
  | m, [] => some ([], m)
  | m, b :: s => (step unescape m b).bind fun r => (scan r.2 s).emit r.1

/-- The end of the text, which may not be in a string. -/
def finish : Mode → Option (List Token)
  | .between => some []
  | .word w => some [.word w]
  | .minus => some [.symbol 0x2D]
  | .quoted s => some [.literal s]
  | .literal _ | .escape _ => none

def close (r : Result) : Option (List Token) := r.bind fun r => (finish r.2).map (r.1 ++ ·)

def lex (s : List UInt8) : Option (List Token) := close (scan unescape .between s)

@[simp] theorem emit_nil (r : Result) : r.emit [] = r := by
  cases r <;> rfl

theorem emit_emit (ts us : List Token) (r : Result) : (r.emit us).emit ts = r.emit (ts ++ us) := by
  cases r with
  | none => rfl
  | some r => simp only [Result.emit, Option.map_some, List.append_assoc]

/-- The lexer goes on where it has stopped. -/
theorem scan_append (s t : List UInt8) : ∀ m : Mode,
    scan unescape m (s ++ t) = (scan unescape m s).bind fun r => (scan unescape r.2 t).emit r.1 := by
  induction s with
  | nil => intro m; exact (emit_nil _).symm
  | cons b s ih =>
      intro m
      show ((step unescape m b).bind fun r => (scan unescape r.2 (s ++ t)).emit r.1) = _
      rw [scan]
      cases step unescape m b with
      | none => rfl
      | some r =>
          simp only [Option.bind_some, ih]
          cases scan unescape r.2 s with
          | none => rfl
          | some r' => exact emit_emit r.1 r'.1 _

end Scan

/-! ### Numbers -/

/-- The tokens and the characters of a number. -/
def sign (n : Int) : List Token := if n < 0 then [.symbol 0x2D] else []

def digits (n : Int) : List UInt8 := (Nat.toDigits 10 n.natAbs).map fun c => UInt8.ofNat c.toNat

/-- The text of a number. -/
def numeral (n : Int) : List UInt8 := (if n < 0 then [0x2D] else []) ++ digits n

theorem mem_digitChars {k : ℕ} {c : Char} (h : c ∈ Nat.toDigits 10 k) : 0x30 ≤ c.toNat ∧ c.toNat ≤ 0x39 := by
  have hd : c.isDigit = true := Nat.isDigit_of_mem_toDigits (by decide) (by decide) h
  simp only [Char.isDigit, ge_iff_le, Bool.and_eq_true, decide_eq_true_eq, UInt32.le_iff_toNat_le] at hd
  exact hd

theorem isWord_of_mem_digits {n : Int} {b : UInt8} (h : b ∈ digits n) : isWord b = true := by
  have hdigit : ∀ k ≤ 0x39, 0x30 ≤ k → isWord (UInt8.ofNat k) = true := by decide
  obtain ⟨c, hc, rfl⟩ := List.mem_map.mp h
  obtain ⟨hlow, hhigh⟩ := mem_digitChars hc
  exact hdigit _ hhigh hlow

theorem digits_ne_nil (n : Int) : digits n ≠ [] :=
  fun h => Nat.toDigits_ne_nil (List.map_eq_nil_iff.mp h)

/-- The digits and the sign determine the number. -/
theorem eq_of_sign_digits {a b : Int} (hs : a < 0 ↔ b < 0) (hd : digits a = digits b) : a = b := by
  have hback : ∀ n : Int, (digits n).map (fun d => Char.ofNat d.toNat) = Nat.toDigits 10 n.natAbs := by
    intro n
    rw [digits, List.map_map]
    refine (List.map_congr_left fun c hc => ?_).trans (List.map_id _)
    have hlt : c.toNat < 256 := Nat.lt_of_le_of_lt (mem_digitChars hc).2 (by decide)
    show Char.ofNat (UInt8.ofNat c.toNat).toNat = c
    rw [UInt8.toNat_ofNat_of_lt' hlt, Char.ofNat_toNat]
  have habs : a.natAbs = b.natAbs := by
    calc a.natAbs
      _ = Nat.ofDigitChars 10 (Nat.toDigits 10 a.natAbs) 0 := Nat.ofDigitChars_ten_toDigits.symm
      _ = Nat.ofDigitChars 10 (Nat.toDigits 10 b.natAbs) 0 := by rw [← hback, hd, hback]
      _ = b.natAbs := Nat.ofDigitChars_ten_toDigits
  omega

theorem toUTF8_append (s t : String) :
    (s ++ t).toUTF8.data.toList = s.toUTF8.data.toList ++ t.toUTF8.data.toList := by
  simp

theorem toUTF8_digits (n : Int) : n.natAbs.repr.toUTF8.data.toList = digits n := by
  have hascii : ∀ cs : List Char, (∀ c ∈ cs, 0x30 ≤ c.toNat ∧ c.toNat ≤ 0x39) →
      cs.flatMap String.utf8EncodeChar = cs.map fun c => UInt8.ofNat c.toNat := by
    intro cs hcs
    induction cs with
    | nil => rfl
    | cons c cs ih =>
        obtain ⟨hc, hcs⟩ := List.forall_mem_cons.mp hcs
        have hone : String.utf8EncodeChar c = [UInt8.ofNat c.toNat] := by
          rw [String.utf8EncodeChar, if_pos (show c.val.toNat ≤ 0x7F from Nat.le_trans hc.2 (by decide))]
          rfl
        rw [List.flatMap_cons, hone, ih hcs]
        rfl
  rw [Nat.repr_eq_ofList_toDigits, String.toUTF8_eq_toByteArray, String.toByteArray_ofList, List.utf8Encode,
    toByteArray_eq]
  exact hascii _ fun c => mem_digitChars

/-- Numbers are written as `toString` writes them. -/
theorem toUTF8_toString (n : Int) : (toString n).toUTF8.data.toList = numeral n := by
  cases n with
  | ofNat k =>
      rw [numeral, if_neg (by simp)]
      exact toUTF8_digits k
  | negSucc k =>
      rw [numeral, if_pos (Int.negSucc_lt_zero k), ← toUTF8_digits]
      exact toUTF8_append "-" _

/-! ### Strings and numbers in a text -/

section Inside

variable (unescape escape : UInt8 → List UInt8)

/-- The tokens of the rest of a text. -/
def lexFrom (m : Mode) (s : List UInt8) : Option (List Token) := close (scan unescape m s)

/-- In a literal, what is written for a character is read as the character. -/
def Undoes : Prop :=
  ∀ (s : List UInt8) (b : UInt8), scan unescape (.literal s) (escape b) = some ([], .literal (s ++ [b]))

/-- The characters that stand for themselves in a literal. -/
def Plain (s : List UInt8) : Prop := ∀ b ∈ s, b ≠ 0x5C ∧ b ≠ quote

instance : DecidablePred Plain := fun s => List.decidableBAll (fun b => b ≠ 0x5C ∧ b ≠ quote) s

/-- A text that ends the token in front of it, be it a literal or a word. -/
def Ends (s : List UInt8) : Prop := ∀ b ∈ s.head?, isWord b = false ∧ b ≠ quote

instance : DecidablePred Ends := fun s =>
  have : Decidable (∀ b ∈ s.head?.toList, isWord b = false ∧ b ≠ quote) := List.decidableBAll _ _
  decidable_of_iff (∀ b ∈ s.head?.toList, isWord b = false ∧ b ≠ quote)
    (forall_congr' fun _ => imp_congr_left Option.mem_toList)

variable {unescape escape}

theorem close_emit (ts : List Token) (r : Result) : close (r.emit ts) = (close r).map (ts ++ ·) := by
  cases r with
  | none => rfl
  | some r =>
      show (finish r.2).map ((ts ++ r.1) ++ ·) = ((finish r.2).map (r.1 ++ ·)).map (ts ++ ·)
      rw [Option.map_map]
      exact congrArg (Option.map · _) (funext fun us => List.append_assoc ts r.1 us)

theorem lexFrom_append {m m' : Mode} {s : List UInt8} {ts : List Token}
    (h : scan unescape m s = some (ts, m')) (t : List UInt8) :
    lexFrom unescape m (s ++ t) = (lexFrom unescape m' t).map (ts ++ ·) := by
  rw [lexFrom, scan_append, h, Option.bind_some, close_emit]
  rfl

/-- Where a token ends, the lexer starts the next one. -/
theorem lexFrom_ends {m : Mode} {t : Token} {s : List UInt8} (hfinish : finish m = some [t])
    (hstep : ∀ b ∈ s.head?, step unescape m b = (first b).emit [t]) :
    lexFrom unescape m s = (lexFrom unescape .between s).map ([t] ++ ·) := by
  cases s with
  | nil =>
      show (finish m).map ([] ++ ·) = _
      rw [hfinish]
      rfl
  | cons b s =>
      have hc := hstep b rfl
      have hscan : scan unescape m (b :: s) = (scan unescape .between (b :: s)).emit [t] := by
        rw [scan, scan, hc]
        show _ = Result.emit [t] ((first b).bind fun r => (scan unescape r.2 s).emit r.1)
        cases first b with
        | none => rfl
        | some r => exact (emit_emit [t] r.1 _).symm
      rw [lexFrom, hscan, close_emit]
      rfl

theorem lexFrom_word {w s : List UInt8} (h : Ends s) :
    lexFrom unescape (.word w) s = (lexFrom unescape .between s).map ([.word w] ++ ·) := by
  refine lexFrom_ends rfl fun b hc => ?_
  obtain ⟨hword, hquote⟩ := h b hc
  rw [step, if_neg (by rw [hword]; exact Bool.false_ne_true), if_neg hquote]

theorem lexFrom_quoted {k s : List UInt8} (h : Ends s) :
    lexFrom unescape (.quoted k) s = (lexFrom unescape .between s).map ([.literal k] ++ ·) :=
  lexFrom_ends rfl fun b hc => by rw [step, if_neg (h b hc).2]

theorem Undoes.scan_flatMap (h : Undoes unescape escape) (k : List UInt8) : ∀ s : List UInt8,
    scan unescape (.literal s) (k.flatMap escape) = some ([], .literal (s ++ k)) := by
  induction k with
  | nil => intro s; rw [List.append_nil]; rfl
  | cons b k ih =>
      intro s
      rw [List.flatMap_cons, scan_append, h s b, Option.bind_some, emit_nil, ih, List.append_assoc]
      rfl

theorem scan_plain {k : List UInt8} (hk : Plain k) : ∀ s : List UInt8,
    scan unescape (.literal s) k = some ([], .literal (s ++ k)) := by
  induction k with
  | nil => intro s; rw [List.append_nil]; rfl
  | cons b k ih =>
      intro s
      obtain ⟨hc, hk⟩ := List.forall_mem_cons.mp hk
      rw [scan, step, if_neg hc.1, if_neg hc.2, Option.bind_some, emit_nil, ih hk, List.append_assoc]
      rfl

theorem scan_word {w : List UInt8} (hw : ∀ b ∈ w, isWord b = true) : ∀ v : List UInt8,
    scan unescape (.word v) w = some ([], .word (v ++ w)) := by
  induction w with
  | nil => intro v; rw [List.append_nil]; rfl
  | cons b w ih =>
      intro v
      obtain ⟨hc, hw⟩ := List.forall_mem_cons.mp hw
      rw [scan, step, if_pos hc, Option.bind_some, emit_nil, ih hw, List.append_assoc]
      rfl

/-- The text of a literal. -/
def literalText (escape : UInt8 → List UInt8) (before s after : List UInt8) : List UInt8 :=
  quote :: (before ++ s.flatMap escape ++ after ++ [quote])

/-- **A literal is read as one token**, whatever is in it. -/
theorem lexFrom_literal (h : Undoes unescape escape) {before after t : List UInt8} (s : List UInt8)
    (hbefore : Plain before) (hafter : Plain after) (ht : Ends t) :
    lexFrom unescape .between (literalText escape before s after ++ t) =
      (lexFrom unescape .between t).map ([.literal (before ++ s ++ after)] ++ ·) := by
  have hinside : scan unescape (.literal []) (before ++ s.flatMap escape ++ after) =
      some ([], .literal (before ++ s ++ after)) := by
    rw [scan_append, scan_append, scan_plain hbefore, Option.bind_some, emit_nil, h.scan_flatMap,
      Option.bind_some, emit_nil, scan_plain hafter]
    rfl
  have hscan : scan unescape .between (literalText escape before s after) =
      some ([], .quoted (before ++ s ++ after)) := by
    show (scan unescape (.literal []) (before ++ s.flatMap escape ++ after ++ [quote])).emit [] = _
    rw [emit_nil, scan_append, hinside, Option.bind_some, emit_nil]
    rfl
  rw [lexFrom_append hscan, lexFrom_quoted ht, Option.map_map]
  rfl

theorem scan_digits (n : Int) : scan unescape .between (digits n) = some ([], .word (digits n)) := by
  have hw : ∀ b ∈ digits n, isWord b = true := fun b => isWord_of_mem_digits
  cases hn : digits n with
  | nil => exact absurd hn (digits_ne_nil n)
  | cons b w =>
      obtain ⟨hc, hw⟩ := List.forall_mem_cons.mp (hn ▸ hw)
      rw [scan, step, first, if_pos hc, Option.bind_some, emit_nil, scan_word hw]
      rfl

theorem scan_minus_digits (n : Int) :
    scan unescape .minus (digits n) = some ([.symbol 0x2D], .word (digits n)) := by
  have hw : ∀ b ∈ digits n, isWord b = true := fun b => isWord_of_mem_digits
  cases hn : digits n with
  | nil => exact absurd hn (digits_ne_nil n)
  | cons b w =>
      obtain ⟨hc, hw⟩ := List.forall_mem_cons.mp (hn ▸ hw)
      have hminus : b ≠ 0x2D := fun h => absurd (h ▸ hc) (by decide)
      rw [scan, step, if_neg hminus, first, if_pos hc]
      show (scan unescape (.word [b]) w).emit [.symbol 0x2D] = _
      rw [scan_word hw]
      rfl

theorem scan_number (n : Int) :
    scan unescape .between (numeral n) = some (sign n, .word (digits n)) := by
  rw [numeral, sign]
  split_ifs with hn
  · show (scan unescape .minus (digits n)).emit [] = _
    rw [emit_nil, scan_minus_digits]
  · exact scan_digits n

/-- **A number is read as a number**, with a sign in front of it if it is negative. -/
theorem lexFrom_number (n : Int) {t : List UInt8} (ht : Ends t) :
    lexFrom unescape .between (numeral n ++ t) =
      (lexFrom unescape .between t).map ((sign n ++ [.word (digits n)]) ++ ·) := by
  rw [lexFrom_append (scan_number n), lexFrom_word ht, Option.map_map]
  exact congrArg (Option.map · _) (funext fun us => (List.append_assoc (sign n) _ us).symm)

end Inside

/-! ### Statements with places for values -/

inductive Piece
  | text (s : List UInt8)
  /-- A literal with a place in it. -/
  | string (before after : List UInt8)
  | number
  deriving DecidableEq, Repr

inductive Value
  | string (s : List UInt8)
  | number (n : Int)
  deriving DecidableEq, Repr

/-- The values are for the places, one after another. -/
def Fits : List Piece → List Value → Prop
  | [], vs => vs = []
  | .text _ :: ps, vs => Fits ps vs
  | .string _ _ :: ps, .string _ :: vs => Fits ps vs
  | .number :: ps, .number _ :: vs => Fits ps vs
  | _ :: _, _ => False

section Statements

variable (unescape escape : UInt8 → List UInt8)

def render : List Piece → List Value → List UInt8
  | .text s :: ps, vs => s ++ render ps vs
  | .string before after :: ps, .string s :: vs => literalText escape before s after ++ render ps vs
  | .number :: ps, .number n :: vs => numeral n ++ render ps vs
  | _, _ => []

/-- The tokens of a fixed text. -/
def fixed (s : List UInt8) : List Token := (lex unescape s).getD []

/-- The tokens of a statement: those of its texts, and the values between them. -/
def fill : List Piece → List Value → List Token
  | .text s :: ps, vs => fixed unescape s ++ fill ps vs
  | .string before after :: ps, .string s :: vs => .literal (before ++ s ++ after) :: fill ps vs
  | .number :: ps, .number n :: vs => sign n ++ .word (digits n) :: fill ps vs
  | _, _ => []

/-- What follows a place ends its token. -/
def EndsPlace : List Piece → Prop
  | [] => True
  | .text s :: _ => s ≠ [] ∧ Ends s
  | .string _ _ :: _ | .number :: _ => False

instance : DecidablePred EndsPlace
  | [] => isTrue trivial
  | .text s :: _ => inferInstanceAs (Decidable (s ≠ [] ∧ Ends s))
  | .string _ _ :: _ | .number :: _ => isFalse id

/-- The texts in front of a place end between two tokens, those after it end its token, and all of them are
texts that the lexer reads. -/
def Legible : List Piece → Prop
  | [] => True
  | [.text s] => (lex unescape s).isSome
  | .text s :: ps => (scan unescape .between s).map (·.2) = some .between ∧ Legible ps
  | .string before after :: ps => Plain before ∧ Plain after ∧ EndsPlace ps ∧ Legible ps
  | .number :: ps => EndsPlace ps ∧ Legible ps

instance decidableLegible : DecidablePred (Legible unescape)
  | [] => isTrue trivial
  | [.text s] => inferInstanceAs (Decidable ((lex unescape s).isSome = true))
  | .text s :: p :: ps =>
      have := decidableLegible (p :: ps)
      inferInstanceAs (Decidable ((scan unescape .between s).map (·.2) = some .between ∧ _))
  | .string before after :: ps =>
      have := decidableLegible ps
      inferInstanceAs (Decidable (Plain before ∧ Plain after ∧ EndsPlace ps ∧ Legible unescape ps))
  | .number :: ps =>
      have := decidableLegible ps
      inferInstanceAs (Decidable (EndsPlace ps ∧ Legible unescape ps))

variable {unescape escape}

theorem endsPlace_text {s : List UInt8} {ps : List Piece} :
    EndsPlace (.text s :: ps) ↔ s ≠ [] ∧ Ends s := Iff.rfl

theorem legible_text {s : List UInt8} {p : Piece} {ps : List Piece} : Legible unescape (.text s :: p :: ps) ↔
    (scan unescape .between s).map (·.2) = some .between ∧ Legible unescape (p :: ps) := Iff.rfl

theorem legible_string {before after : List UInt8} {ps : List Piece} :
    Legible unescape (.string before after :: ps) ↔
      Plain before ∧ Plain after ∧ EndsPlace ps ∧ Legible unescape ps := Iff.rfl

theorem legible_number {ps : List Piece} :
    Legible unescape (.number :: ps) ↔ EndsPlace ps ∧ Legible unescape ps := Iff.rfl

theorem ends_append {s : List UInt8} (hne : s ≠ []) (h : Ends s) (t : List UInt8) : Ends (s ++ t) := by
  cases s with
  | nil => exact absurd rfl hne
  | cons b s => exact h

theorem EndsPlace.ends {ps : List Piece} (h : EndsPlace ps) (vs : List Value) : Ends (render escape ps vs) := by
  cases ps with
  | nil => rintro b ⟨⟩
  | cons p ps =>
      cases p with
      | text s => exact ends_append h.1 h.2 _
      | string before after => exact h.elim
      | number => exact h.elim

theorem lexFrom_text {s t : List UInt8}
    (h : (scan unescape .between s).map (·.2) = some .between) :
    lexFrom unescape .between (s ++ t) = (lexFrom unescape .between t).map (fixed unescape s ++ ·) := by
  obtain ⟨⟨ts, m⟩, hs, hm⟩ := Option.map_eq_some_iff.mp h
  obtain rfl : m = .between := hm
  have hfixed : fixed unescape s = ts := by
    rw [fixed, lex, hs]
    exact List.append_nil ts
  rw [lexFrom_append hs, hfixed]

/-- **The tokens of a statement**: no value changes how the texts are read. -/
theorem lex_render (h : Undoes unescape escape) (ps : List Piece) (hps : Legible unescape ps) :
    ∀ vs : List Value, Fits ps vs → lex unescape (render escape ps vs) = some (fill unescape ps vs) := by
  induction ps with
  | nil => intro vs _; rfl
  | cons p ps ih =>
      intro vs hvs
      cases p with
      | text s =>
          cases ps with
          | nil =>
              obtain ⟨ts, hs⟩ := Option.isSome_iff_exists.mp hps
              cases vs with
              | nil =>
                  show lex unescape (s ++ []) = some (fixed unescape s ++ [])
                  rw [List.append_nil, List.append_nil, fixed, hs]
                  rfl
              | cons v vs => cases hvs
          | cons q ps =>
              have hlex := lexFrom_text (t := render escape (q :: ps) vs) hps.1
              exact hlex.trans (congrArg _ (ih hps.2 vs hvs))
      | string before after =>
          cases vs with
          | nil => exact hvs.elim
          | cons v vs =>
              cases v with
              | number n => exact hvs.elim
              | string s =>
                  have hends : Ends (render escape ps vs) := hps.2.2.1.ends vs
                  have hlex := lexFrom_literal h s hps.1 hps.2.1 hends
                  exact hlex.trans (congrArg _ (ih hps.2.2.2 vs hvs))
      | number =>
          cases vs with
          | nil => exact hvs.elim
          | cons v vs =>
              cases v with
              | string s => exact hvs.elim
              | number n =>
                  have hends : Ends (render escape ps vs) := hps.1.ends vs
                  refine ((lexFrom_number n hends).trans (congrArg _ (ih hps.2 vs hvs))).trans ?_
                  exact congrArg some (List.append_assoc (sign n) _ _)

/-! ### The bytes of a statement -/

/-- No fixed text has the byte. -/
def Avoid (b : UInt8) (ps : List Piece) : Prop :=
  ∀ p ∈ ps, match p with
    | .text s => b ∉ s
    | .string before after => b ∉ before ∧ b ∉ after
    | .number => True

instance (b : UInt8) : DecidablePred (Avoid b) := fun ps =>
  have : DecidablePred fun p : Piece => match p with
      | .text s => b ∉ s
      | .string before after => b ∉ before ∧ b ∉ after
      | .number => True
    | .text s => inferInstanceAs (Decidable (b ∉ s))
    | .string before after => inferInstanceAs (Decidable (b ∉ before ∧ b ∉ after))
    | .number => isTrue trivial
  List.decidableBAll _ ps

theorem Avoid.append {b : UInt8} {ps qs : List Piece} (hps : Avoid b ps) (hqs : Avoid b qs) :
    Avoid b (ps ++ qs) := List.forall_mem_append.mpr ⟨hps, hqs⟩

theorem not_mem_numeral {b : UInt8} (hword : isWord b = false) (hminus : b ≠ 0x2D) (n : Int) :
    b ∉ numeral n := by
  rw [numeral, List.mem_append, not_or]
  refine ⟨?_, fun hb => Bool.false_ne_true (hword ▸ isWord_of_mem_digits hb)⟩
  split_ifs
  · rwa [List.mem_singleton]
  · exact List.not_mem_nil

theorem not_mem_literalText {b : UInt8} (hquote : b ≠ quote) (hescape : ∀ c, b ∉ escape c)
    {before after : List UInt8} (h : b ∉ before ∧ b ∉ after) (s : List UInt8) :
    b ∉ literalText escape before s after := by
  have hs : b ∉ s.flatMap escape := by
    rw [List.mem_flatMap]
    rintro ⟨c, -, hc⟩
    exact hescape c hc
  simp only [literalText, List.mem_cons, List.mem_append, List.not_mem_nil, or_false, not_or]
  exact ⟨hquote, ⟨⟨h.1, hs⟩, h.2⟩, hquote⟩

/-- A byte that the escaping takes out is in no statement. -/
theorem not_mem_render {b : UInt8} (hword : isWord b = false) (hminus : b ≠ 0x2D) (hquote : b ≠ quote)
    (hescape : ∀ c, b ∉ escape c) (ps : List Piece) (hps : Avoid b ps) :
    ∀ vs : List Value, b ∉ render escape ps vs := by
  induction ps with
  | nil => exact fun _ => List.not_mem_nil
  | cons p ps ih =>
      intro vs
      obtain ⟨hp, hrest⟩ := List.forall_mem_cons.mp hps
      cases p with
      | text s => exact fun h => (List.mem_append.mp h).elim hp (ih hrest vs)
      | string before after =>
          match vs with
          | [] | .number _ :: _ => exact List.not_mem_nil
          | .string s :: vs =>
              exact fun h => (List.mem_append.mp h).elim (not_mem_literalText hquote hescape hp s) (ih hrest vs)
      | number =>
          match vs with
          | [] | .string _ :: _ => exact List.not_mem_nil
          | .number n :: vs =>
              exact fun h => (List.mem_append.mp h).elim (not_mem_numeral hword hminus n) (ih hrest vs)

/-! ### Different statements -/

theorem sign_append {n : Int} {ts us : List Token}
    (h : sign n ++ .word (digits n) :: ts = us) : (n < 0 ↔ us.head? = some (.symbol 0x2D)) := by
  subst h
  rw [sign]
  split_ifs with hn <;> simp [hn]

/-- A number and what follows it. -/
theorem number_inj {a b : Int} {ts us : List Token}
    (h : sign a ++ .word (digits a) :: ts = sign b ++ .word (digits b) :: us) : a = b ∧ ts = us := by
  have hs : a < 0 ↔ b < 0 := (sign_append h).trans (sign_append rfl).symm
  have hsign : sign a = sign b := by simp only [sign, hs]
  rw [hsign, List.append_cancel_left_eq] at h
  obtain ⟨hd, hts⟩ := List.cons.inj h
  exact ⟨eq_of_sign_digits hs (Token.word.inj hd), hts⟩

/-- **The tokens determine the values**. -/
theorem fill_inj (ps : List Piece) : ∀ {vs ws : List Value}, Fits ps vs → Fits ps ws →
    fill unescape ps vs = fill unescape ps ws → vs = ws := by
  induction ps with
  | nil =>
      intro vs ws hvs hws _
      exact hvs.trans hws.symm
  | cons p ps ih =>
      intro vs ws hvs hws h
      cases p with
      | text s => exact ih hvs hws (List.append_cancel_left h)
      | string before after =>
          match vs, ws, hvs, hws, h with
          | .string s :: vs, .string t :: ws, hvs, hws, h =>
              obtain ⟨hst, hrest⟩ := List.cons.inj h
              have hst : s = t :=
                List.append_cancel_left (List.append_cancel_right (Token.literal.inj hst))
              rw [hst, ih hvs hws hrest]
      | number =>
          match vs, ws, hvs, hws, h with
          | .number a :: vs, .number b :: ws, hvs, hws, h =>
              obtain ⟨hab, hrest⟩ := number_inj h
              rw [hab, ih hvs hws hrest]

/-- A text that is neither the beginning of the other one nor the other way round. -/
def Apart (s t : List UInt8) : Prop := ¬ s <+: t ∧ ¬ t <+: s

instance (s t : List UInt8) : Decidable (Apart s t) := inferInstanceAs (Decidable (_ ∧ _))

/-- Statements that start with texts apart are different, with any values. -/
theorem Apart.render_ne {s t : List UInt8} (h : Apart s t) (ps qs : List Piece) (vs ws : List Value) :
    render escape (.text s :: ps) vs ≠ render escape (.text t :: qs) ws := by
  intro heq
  have hs : s <+: t ++ render escape qs ws := ⟨render escape ps vs, heq⟩
  rcases List.prefix_or_prefix_of_prefix hs (List.prefix_append t _) with hst | hts
  · exact h.1 hst
  · exact h.2 hts

variable (unescape)

/-- Two statements with the same texts and places, one of which ends earlier. -/
def Clash : List Piece → List Piece → Prop
  | .text s :: ps, .text t :: qs => s = t ∧ Clash ps qs
  | .string _ _ :: ps, .string _ _ :: qs => Clash ps qs
  | .number :: ps, .number :: qs => Clash ps qs
  | [], .text t :: _ => fixed unescape t ≠ []
  | .text s :: _, [] => fixed unescape s ≠ []
  | _, _ => False

variable {unescape}

theorem Clash.append_left (ps : List Piece) {qs rs : List Piece} (h : Clash unescape qs rs) :
    Clash unescape (ps ++ qs) (ps ++ rs) := by
  induction ps with
  | nil => exact h
  | cons p ps ih =>
      cases p with
      | text s => exact ⟨rfl, ih⟩
      | string before after => exact ih
      | number => exact ih

/-- Statements that clash have different tokens, with any values. -/
theorem fill_ne_of_clash (ps : List Piece) : ∀ {qs : List Piece} {vs ws : List Value},
    Clash unescape ps qs → Fits ps vs → Fits qs ws → fill unescape ps vs ≠ fill unescape qs ws := by
  induction ps with
  | nil =>
      intro qs vs ws hclash hvs hws h
      match qs, hclash with
      | .text t :: qs, hclash => exact hclash (List.append_eq_nil_iff.mp h.symm).1
  | cons p ps ih =>
      intro qs vs ws hclash hvs hws h
      match p, qs, hclash with
      | .text s, .text _ :: qs, ⟨rfl, hclash⟩ => exact ih hclash hvs hws (List.append_cancel_left h)
      | .text s, [], hclash => exact hclash (List.append_eq_nil_iff.mp h).1
      | .string _ _, .string _ _ :: qs, hclash =>
          match vs, ws, hvs, hws, h with
          | .string s :: vs, .string t :: ws, hvs, hws, h => exact ih hclash hvs hws (List.cons.inj h).2
      | .number, .number :: qs, hclash =>
          match vs, ws, hvs, hws, h with
          | .number a :: vs, .number b :: ws, hvs, hws, h => exact ih hclash hvs hws (number_inj h).2

end Statements

end Lexer
