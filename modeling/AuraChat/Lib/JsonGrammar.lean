import Mathlib.Tactic.Common
import AuraChat.Lib.Json

set_option autoImplicit false

/-!
# The grammar of JSON texts

The grammar of RFC 8259 over the bytes of a text in UTF-8, as relations between a text and what is left of
it after a phrase.

* `Value`: what a text denotes; numbers are kept as they are written;
* `Ws`, `Chars`, `IsNumber`, `Reads`: blanks, strings, numbers and values;
* `Document`: a whole text;
* **`Document.controls`**: a text has no other control characters than blanks.
-/

namespace JsonGrammar

/-- What a JSON text denotes. Strings are in UTF-8, and members are in the order of the text. -/
inductive Value : Type
  | null
  | bool (b : Bool)
  | num (lexeme : List UInt8)
  | str (s : List UInt8)
  | arr (elements : List Value)
  | obj (members : List (List UInt8 × Value))

namespace Value

/-- The value of the first member of this name. -/
def get? (key : List UInt8) : Value → Option Value
  | obj members => (members.find? fun m => m.1 == key).map Prod.snd
  | _ => none

end Value

/-! ## Blanks -/

def isSpace (b : UInt8) : Bool := b = 0x20 || b = 0x09 || b = 0x0A || b = 0x0D

inductive Ws : List UInt8 → List UInt8 → Prop
  | nil (t : List UInt8) : Ws t t
  | cons {b : UInt8} {t t' : List UInt8} (hb : isSpace b = true) (h : Ws t t') : Ws (b :: t) t'

/-! ## Strings -/

/-- What a backslash and a character stand for. -/
def unescape (c : UInt8) : Option UInt8 :=
  if c = 0x22 ∨ c = 0x5C ∨ c = 0x2F then some c
  else if c = 0x62 then some 0x08
  else if c = 0x66 then some 0x0C
  else if c = 0x6E then some 0x0A
  else if c = 0x72 then some 0x0D
  else if c = 0x74 then some 0x09
  else none

def hexValue (b : UInt8) : Option ℕ :=
  if 0x30 ≤ b ∧ b ≤ 0x39 then some (b.toNat - 0x30)
  else if 0x41 ≤ b ∧ b ≤ 0x46 then some (b.toNat - 0x37)
  else if 0x61 ≤ b ∧ b ≤ 0x66 then some (b.toNat - 0x57)
  else none

/-- The number that four hexadecimal digits stand for. -/
def hex4 (a b c d : UInt8) : Option ℕ := do
  some (((← hexValue a) * 16 + (← hexValue b)) * 256 + (← hexValue c) * 16 + (← hexValue d))

def IsHighSurrogate (n : ℕ) : Prop := 0xD800 ≤ n ∧ n < 0xDC00

def IsLowSurrogate (n : ℕ) : Prop := 0xDC00 ≤ n ∧ n < 0xE000

/-- The code point of a pair of surrogates. -/
def surrogatePair (high low : ℕ) : ℕ := 0x10000 + (high - 0xD800) * 0x400 + (low - 0xDC00)

/-- The characters of a string and its closing quote: what they stand for, the text, and what follows. -/
inductive Chars : List UInt8 → List UInt8 → List UInt8 → Prop
  | close (t : List UInt8) : Chars [] (0x22 :: t) t
  | plain {b : UInt8} {s t t' : List UInt8} (hb : 0x20 ≤ b ∧ b ≠ 0x22 ∧ b ≠ 0x5C) (h : Chars s t t') :
      Chars (b :: s) (b :: t) t'
  | escaped {b c : UInt8} {s t t' : List UInt8} (hc : unescape c = some b) (h : Chars s t t') :
      Chars (b :: s) (0x5C :: c :: t) t'
  | unicode {a b c d : UInt8} {n : ℕ} {s t t' : List UInt8} (hn : hex4 a b c d = some n)
      (hs : ¬ IsHighSurrogate n ∧ ¬ IsLowSurrogate n) (h : Chars s t t') :
      Chars (String.utf8EncodeChar (Char.ofNat n) ++ s) (0x5C :: 0x75 :: a :: b :: c :: d :: t) t'
  | surrogates {a b c d a' b' c' d' : UInt8} {high low : ℕ} {s t t' : List UInt8}
      (hhigh : hex4 a b c d = some high) (hh : IsHighSurrogate high)
      (hlow : hex4 a' b' c' d' = some low) (hl : IsLowSurrogate low) (h : Chars s t t') :
      Chars (String.utf8EncodeChar (Char.ofNat (surrogatePair high low)) ++ s)
        (0x5C :: 0x75 :: a :: b :: c :: d :: 0x5C :: 0x75 :: a' :: b' :: c' :: d' :: t) t'

/-! ## Numbers -/

/-- The bytes of a text are looked at one by one. -/
scoped instance decidableForallMem (p : UInt8 → Prop) [DecidablePred p] (t : List UInt8) :
    Decidable (∀ b ∈ t, p b) :=
  List.decidableBAll p t

def IsDigit (b : UInt8) : Prop := 0x30 ≤ b ∧ b ≤ 0x39

instance : DecidablePred IsDigit := fun b => inferInstanceAs (Decidable (0x30 ≤ b ∧ b ≤ 0x39))

def IsDigits (t : List UInt8) : Prop := t ≠ [] ∧ ∀ b ∈ t, IsDigit b

inductive IsInt : List UInt8 → Prop
  | zero : IsInt [0x30]
  | pos {d : UInt8} {ds : List UInt8} (hd : 0x31 ≤ d ∧ d ≤ 0x39) (hds : ∀ b ∈ ds, IsDigit b) : IsInt (d :: ds)

inductive IsFrac : List UInt8 → Prop
  | none : IsFrac []
  | some {ds : List UInt8} (h : IsDigits ds) : IsFrac (0x2E :: ds)

inductive IsExp : List UInt8 → Prop
  | none : IsExp []
  | some {e : UInt8} {sign ds : List UInt8} (he : e = 0x65 ∨ e = 0x45)
      (hsign : sign = [] ∨ sign = [0x2B] ∨ sign = [0x2D]) (h : IsDigits ds) : IsExp (e :: (sign ++ ds))

inductive IsNumber : List UInt8 → Prop
  | mk {minus int frac exp : List UInt8} (hm : minus = [] ∨ minus = [0x2D]) (hi : IsInt int)
      (hf : IsFrac frac) (he : IsExp exp) : IsNumber (minus ++ (int ++ (frac ++ exp)))

/-! ## Values -/

/-- A phrase: a value, the elements of an array, or the members of an object. -/
inductive Phrase
  | value (v : Value)
  | elements (vs : List Value)
  | members (ms : List (List UInt8 × Value))

/-- A text starts with a phrase, and what follows it. -/
inductive Reads : Phrase → List UInt8 → List UInt8 → Prop
  | null (t : List UInt8) : Reads (.value .null) (0x6E :: 0x75 :: 0x6C :: 0x6C :: t) t
  | true (t : List UInt8) : Reads (.value (.bool true)) (0x74 :: 0x72 :: 0x75 :: 0x65 :: t) t
  | false (t : List UInt8) : Reads (.value (.bool false)) (0x66 :: 0x61 :: 0x6C :: 0x73 :: 0x65 :: t) t
  | num {n : List UInt8} (h : IsNumber n) (t : List UInt8) : Reads (.value (.num n)) (n ++ t) t
  | str {s t t' : List UInt8} (h : Chars s t t') : Reads (.value (.str s)) (0x22 :: t) t'
  | emptyArr {t t' : List UInt8} (h : Ws t (0x5D :: t')) : Reads (.value (.arr [])) (0x5B :: t) t'
  | arr {vs : List Value} {t t' : List UInt8} (h : Reads (.elements vs) t (0x5D :: t')) :
      Reads (.value (.arr vs)) (0x5B :: t) t'
  | emptyObj {t t' : List UInt8} (h : Ws t (0x7D :: t')) : Reads (.value (.obj [])) (0x7B :: t) t'
  | obj {ms : List (List UInt8 × Value)} {t t' : List UInt8} (h : Reads (.members ms) t (0x7D :: t')) :
      Reads (.value (.obj ms)) (0x7B :: t) t'
  | element {v : Value} {t t₁ t₂ t' : List UInt8} (hw : Ws t t₁) (hv : Reads (.value v) t₁ t₂)
      (hw' : Ws t₂ t') : Reads (.elements [v]) t t'
  | elements {v : Value} {vs : List Value} {t t₁ t₂ t₃ t' : List UInt8} (hw : Ws t t₁)
      (hv : Reads (.value v) t₁ t₂) (hw' : Ws t₂ (0x2C :: t₃)) (hvs : Reads (.elements vs) t₃ t') :
      Reads (.elements (v :: vs)) t t'
  | member {k : List UInt8} {v : Value} {t t₁ t₂ t₃ t₄ t₅ t' : List UInt8} (hw : Ws t (0x22 :: t₁))
      (hk : Chars k t₁ t₂) (hc : Ws t₂ (0x3A :: t₃)) (hc' : Ws t₃ t₄) (hv : Reads (.value v) t₄ t₅)
      (hw' : Ws t₅ t') : Reads (.members [(k, v)]) t t'
  | members {k : List UInt8} {v : Value} {ms : List (List UInt8 × Value)}
      {t t₁ t₂ t₃ t₄ t₅ t₆ t' : List UInt8} (hw : Ws t (0x22 :: t₁)) (hk : Chars k t₁ t₂)
      (hc : Ws t₂ (0x3A :: t₃)) (hc' : Ws t₃ t₄) (hv : Reads (.value v) t₄ t₅) (hw' : Ws t₅ (0x2C :: t₆))
      (hms : Reads (.members ms) t₆ t') : Reads (.members ((k, v) :: ms)) t t'

/-- A JSON text in UTF-8. -/
structure Document (v : Value) (text : List UInt8) : Prop where
  utf8 : ValidUtf8 text
  reads : ∃ t t', Ws text t ∧ Reads (.value v) t t' ∧ Ws t' []

/-! ## Control characters -/

/-- A byte that is no control character, or a blank. -/
def Allowed (b : UInt8) : Prop := b < 0x20 → b = 0x09 ∨ b = 0x0A ∨ b = 0x0D

instance : DecidablePred Allowed := fun b => inferInstanceAs (Decidable (b < 0x20 → _))

/-- The text starts with allowed bytes, and what follows them. -/
def Passes (t t' : List UInt8) : Prop := ∃ u, t = u ++ t' ∧ ∀ b ∈ u, Allowed b

theorem allowed_of_le {b : UInt8} (h : 0x20 ≤ b) : Allowed b := fun hlt =>
  absurd h (UInt8.not_le.mpr hlt)

theorem Passes.refl (t : List UInt8) : Passes t t := ⟨[], rfl, fun _ hb => absurd hb List.not_mem_nil⟩

theorem Passes.trans {t t₁ t₂ : List UInt8} (h : Passes t t₁) (h' : Passes t₁ t₂) : Passes t t₂ := by
  obtain ⟨u, rfl, hu⟩ := h
  obtain ⟨u', rfl, hu'⟩ := h'
  exact ⟨u ++ u', (List.append_assoc _ _ _).symm, List.forall_mem_append.mpr ⟨hu, hu'⟩⟩

theorem Passes.cons {b : UInt8} {t t' : List UInt8} (hb : Allowed b) (h : Passes t t') :
    Passes (b :: t) t' := by
  obtain ⟨u, rfl, hu⟩ := h
  exact ⟨b :: u, rfl, List.forall_mem_cons.mpr ⟨hb, hu⟩⟩

theorem Passes.append {u t : List UInt8} (hu : ∀ b ∈ u, Allowed b) : Passes (u ++ t) t := ⟨u, rfl, hu⟩

theorem allowed_of_isSpace {b : UInt8} (h : isSpace b = true) : Allowed b := by
  intro hlt
  simp only [isSpace, Bool.or_eq_true, decide_eq_true_eq] at h
  obtain ((rfl | h) | h) | h := h
  · exact absurd hlt (by decide)
  · exact .inl h
  · exact .inr (.inl h)
  · exact .inr (.inr h)

theorem allowed_of_unescape {b c : UInt8} (h : unescape c = some b) : Allowed c := by
  rw [unescape] at h
  split_ifs at h with hself hb hf hn hr ht
  · obtain rfl | rfl | rfl := hself <;> decide
  all_goals
    subst c
    decide

theorem allowed_of_hexValue {b : UInt8} {n : ℕ} (h : hexValue b = some n) : Allowed b := by
  rw [hexValue] at h
  split_ifs at h with hd hu hl
  · exact allowed_of_le (UInt8.le_trans (by decide) hd.1)
  · exact allowed_of_le (UInt8.le_trans (by decide) hu.1)
  · exact allowed_of_le (UInt8.le_trans (by decide) hl.1)

theorem Ws.passes {t t' : List UInt8} (h : Ws t t') : Passes t t' := by
  induction h with
  | nil t => exact .refl t
  | cons hb _ ih => exact ih.cons (allowed_of_isSpace hb)

theorem allowed_of_hex4 {a b c d : UInt8} {n : ℕ} (h : hex4 a b c d = some n) :
    Allowed a ∧ Allowed b ∧ Allowed c ∧ Allowed d := by
  simp only [hex4, Option.bind_eq_bind, Option.bind_eq_some_iff] at h
  obtain ⟨_, ha, _, hb, _, hc, _, hd, -⟩ := h
  exact ⟨allowed_of_hexValue ha, allowed_of_hexValue hb, allowed_of_hexValue hc, allowed_of_hexValue hd⟩

theorem passes_unicode {a b c d : UInt8} {n : ℕ} {t t' : List UInt8} (hn : hex4 a b c d = some n)
    (h : Passes t t') : Passes (0x5C :: 0x75 :: a :: b :: c :: d :: t) t' := by
  obtain ⟨ha, hb, hc, hd⟩ := allowed_of_hex4 hn
  exact .cons (by decide) (.cons (by decide) (.cons ha (.cons hb (.cons hc (.cons hd h)))))

theorem Chars.passes {s t t' : List UInt8} (h : Chars s t t') : Passes t t' := by
  induction h with
  | close t => exact .cons (by decide) (.refl t)
  | plain hb _ ih => exact ih.cons (allowed_of_le hb.1)
  | escaped hc _ ih => exact .cons (by decide) (ih.cons (allowed_of_unescape hc))
  | unicode hn _ _ ih => exact passes_unicode hn ih
  | surrogates hhigh _ hlow _ _ ih => exact passes_unicode hhigh (passes_unicode hlow ih)

theorem allowed_of_isDigit {b : UInt8} (h : IsDigit b) : Allowed b :=
  allowed_of_le (UInt8.le_trans (by decide) h.1)

theorem IsNumber.allowed {n : List UInt8} (h : IsNumber n) : ∀ b ∈ n, Allowed b := by
  obtain ⟨hm, hi, hf, he⟩ := h
  refine List.forall_mem_append.mpr ⟨?_, List.forall_mem_append.mpr ⟨?_, List.forall_mem_append.mpr ⟨?_, ?_⟩⟩⟩
  · obtain rfl | rfl := hm <;> decide
  · cases hi with
    | zero => decide
    | pos hd hds =>
        exact List.forall_mem_cons.mpr ⟨allowed_of_le (UInt8.le_trans (by decide) hd.1),
          fun b hb => allowed_of_isDigit (hds b hb)⟩
  · cases hf with
    | none => decide
    | some h => exact List.forall_mem_cons.mpr ⟨by decide, fun b hb => allowed_of_isDigit (h.2 b hb)⟩
  · cases he with
    | none => decide
    | some he hsign h =>
        refine List.forall_mem_cons.mpr ⟨by obtain rfl | rfl := he <;> decide, List.forall_mem_append.mpr
          ⟨?_, fun b hb => allowed_of_isDigit (h.2 b hb)⟩⟩
        obtain rfl | rfl | rfl := hsign <;> decide

theorem Reads.passes {p : Phrase} {t t' : List UInt8} (h : Reads p t t') : Passes t t' := by
  induction h with
  | null t | true t => exact .append (u := [_, _, _, _]) (by decide)
  | false t => exact .append (u := [_, _, _, _, _]) (by decide)
  | num h t => exact .append h.allowed
  | str h => exact h.passes.cons (by decide)
  | emptyArr h | emptyObj h => exact (h.passes.trans (.cons (by decide) (.refl _))).cons (by decide)
  | arr _ ih | obj _ ih => exact (ih.trans (.cons (by decide) (.refl _))).cons (by decide)
  | element hw _ hw' ih => exact (hw.passes.trans ih).trans hw'.passes
  | elements hw _ hw' _ ih ih' =>
      exact ((hw.passes.trans ih).trans hw'.passes).trans (ih'.cons (by decide))
  | member hw hk hc hc' _ hw' ih =>
      have hkey := hw.passes.trans ((hk.passes.trans hc.passes).cons (by decide))
      exact hkey.trans (((hc'.passes.trans ih).trans hw'.passes).cons (by decide))
  | members hw hk hc hc' _ hw' _ ih ih' =>
      have hkey := hw.passes.trans ((hk.passes.trans hc.passes).cons (by decide))
      have hrest := ((hc'.passes.trans ih).trans hw'.passes).trans (ih'.cons (by decide))
      exact hkey.trans (hrest.cons (by decide))

/-- **A JSON text has no control characters but tabs, line feeds and carriage returns.** -/
theorem Document.controls {v : Value} {text : List UInt8} (h : Document v text) :
    ∀ b ∈ text, Allowed b := by
  obtain ⟨t, t', hw, hv, hw'⟩ := h.reads
  obtain ⟨u, hu, hall⟩ := (hw.passes.trans hv.passes).trans hw'.passes
  rw [List.append_nil] at hu
  exact hu ▸ hall

end JsonGrammar
