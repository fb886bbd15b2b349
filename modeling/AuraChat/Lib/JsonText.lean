import Mathlib.Data.Nat.Digits.Lemmas
import AuraChat.Lib.Json

set_option autoImplicit false

/-!
# JSON texts

A printer and a parser of JSON documents: the printer indents by two blanks a level and escapes
only what a JSON string must escape, and it refuses a string that is not valid UTF-8. The parser
reads integers only and keeps the fields of an object in the order of the text.

* `render`, `isUtf8`, `parseValue`;
* **`parseValue_render`**, **`lib_lawful`**: a document is read back from its text.
-/

namespace JsonText

/-! ## Strings -/

def hexDigit (n : ℕ) : UInt8 := if n < 10 then (0x30 + n).toUInt8 else (0x57 + n).toUInt8

def hexValue (b : UInt8) : Option ℕ :=
  if 0x30 ≤ b ∧ b ≤ 0x39 then some (b.toNat - 0x30)
  else if 0x61 ≤ b ∧ b ≤ 0x66 then some (b.toNat - 0x57)
  else none

/-- A byte inside a string: quotes, backslashes and control characters are escaped. -/
def escape (b : UInt8) : List UInt8 :=
  if b = 0x22 ∨ b = 0x5C then [0x5C, b]
  else if b = 0x08 then [0x5C, 0x62]
  else if b = 0x09 then [0x5C, 0x74]
  else if b = 0x0A then [0x5C, 0x6E]
  else if b = 0x0C then [0x5C, 0x66]
  else if b = 0x0D then [0x5C, 0x72]
  else if b < 0x20 then
    [0x5C, 0x75, 0x30, 0x30, hexDigit (b.toNat / 16), hexDigit (b.toNat % 16)]
  else [b]

/-- A string after its opening quote. -/
def renderString (s : List UInt8) : List UInt8 := s.flatMap escape ++ [0x22]

def unescape (c : UInt8) : Option UInt8 :=
  if c = 0x22 ∨ c = 0x5C ∨ c = 0x2F then some c
  else if c = 0x62 then some 0x08
  else if c = 0x74 then some 0x09
  else if c = 0x6E then some 0x0A
  else if c = 0x66 then some 0x0C
  else if c = 0x72 then some 0x0D
  else none

/-- Read a string up to its closing quote, and what follows it. -/
def parseString : List UInt8 → Option (List UInt8 × List UInt8)
  | [] => none
  | 0x22 :: t => some ([], t)
  | 0x5C :: 0x75 :: 0x30 :: 0x30 :: a :: b :: t => do
      let hi ← hexValue a
      let lo ← hexValue b
      let (s, t) ← parseString t
      some ((16 * hi + lo).toUInt8 :: s, t)
  | 0x5C :: c :: t => do
      let b ← unescape c
      let (s, t) ← parseString t
      some (b :: s, t)
  | b :: t => do
      let (s, t) ← parseString t
      some (b :: s, t)

theorem hexValue_hexDigit : ∀ n < 16, hexValue (hexDigit n) = some n := by decide

theorem parseString_plain {b : UInt8} (hquote : b ≠ 0x22) (hback : b ≠ 0x5C) (t : List UInt8) :
    parseString (b :: t) = (parseString t).map fun p => (b :: p.1, p.2) := by
  rw [parseString.eq_def]
  split
  · rename_i h
    cases h
  · rename_i h
    exact absurd (List.cons.inj h).1 hquote
  · rename_i h
    exact absurd (List.cons.inj h).1 hback
  · rename_i h
    exact absurd (List.cons.inj h).1 hback
  · rename_i h
    obtain ⟨rfl, rfl⟩ := List.cons.inj h
    cases parseString t <;> rfl

theorem parseString_short {b c : UInt8} (hc : unescape c = some b) (t : List UInt8) :
    parseString (0x5C :: c :: t) = (parseString t).map fun p => (b :: p.1, p.2) := by
  have hu : c ≠ 0x75 := by
    rintro rfl
    cases hc
  rw [parseString, hc]
  · cases parseString t <;> rfl
  · exact fun _ _ _ h _ => hu h

/-- An escaped byte is read back. -/
theorem parseString_escape (b : UInt8) (t : List UInt8) :
    parseString (escape b ++ t) = (parseString t).map fun p => (b :: p.1, p.2) := by
  unfold escape
  split_ifs with h1 h2 h3 h4 h5 h6 h7
  · rcases h1 with rfl | rfl
    · exact parseString_short rfl t
    · exact parseString_short rfl t
  · exact h2 ▸ parseString_short rfl t
  · exact h3 ▸ parseString_short rfl t
  · exact h4 ▸ parseString_short rfl t
  · exact h5 ▸ parseString_short rfl t
  · exact h6 ▸ parseString_short rfl t
  · have h32 : b.toNat < 32 := by simpa [UInt8.lt_iff_toNat_lt] using h7
    have hhi := hexValue_hexDigit (b.toNat / 16) (by omega)
    have hlo := hexValue_hexDigit (b.toNat % 16) (by omega)
    have hb : (16 * (b.toNat / 16) + b.toNat % 16).toUInt8 = b := by
      rw [Nat.div_add_mod]
      exact UInt8.ofNat_toNat
    simp only [List.cons_append, List.nil_append, parseString, hhi, hlo, Option.bind_eq_bind,
      Option.bind_some, hb]
    cases parseString t <;> rfl
  · exact parseString_plain (fun h => h1 (.inl h)) (fun h => h1 (.inr h)) t

theorem parseString_render (s t : List UInt8) :
    parseString (renderString s ++ t) = some (s, t) := by
  induction s with
  | nil => rfl
  | cons b s ih =>
      have hassoc : renderString (b :: s) ++ t = escape b ++ (renderString s ++ t) := by
        simp [renderString]
      rw [hassoc, parseString_escape, ih]
      rfl

/-! ## Numbers -/

def isDigit (b : UInt8) : Bool := 0x30 ≤ b && b ≤ 0x39

/-- The decimal digits, the most significant one first. -/
def renderNat (n : ℕ) : List UInt8 :=
  if n = 0 then [0x30] else ((Nat.digits 10 n).reverse.map fun d => (0x30 + d).toUInt8)

def renderInt (n : Int) : List UInt8 :=
  if n < 0 then 0x2D :: renderNat n.natAbs else renderNat n.natAbs

def parseNat (t : List UInt8) : Option (ℕ × List UInt8) :=
  if t.takeWhile isDigit = [] then none
  else some (Nat.ofDigits 10 ((t.takeWhile isDigit).reverse.map fun b => b.toNat - 0x30),
    t.dropWhile isDigit)

def parseInt : List UInt8 → Option (Int × List UInt8)
  | 0x2D :: t => (parseNat t).map fun p => (-(p.1 : Int), p.2)
  | t => (parseNat t).map fun p => ((p.1 : Int), p.2)

/-- What follows does not continue a number. -/
def Ends (t : List UInt8) : Prop := ∀ b ∈ t.head?, isDigit b = false

theorem digitByte : ∀ d < 10, isDigit (0x30 + d : ℕ).toUInt8 = true ∧
    ((0x30 + d : ℕ).toUInt8).toNat - 0x30 = d := by decide

theorem renderNat_digits (n : ℕ) : renderNat n ≠ [] ∧ (∀ b ∈ renderNat n, isDigit b = true) ∧
    Nat.ofDigits 10 ((renderNat n).reverse.map fun b => b.toNat - 0x30) = n := by
  rw [renderNat]
  split_ifs with h0
  · subst h0
    exact ⟨List.cons_ne_nil _ _, List.forall_mem_singleton.mpr rfl, rfl⟩
  · have hlt : ∀ d ∈ Nat.digits 10 n, d < 10 := fun d hd => Nat.digits_lt_base (by decide) hd
    refine ⟨?_, ?_, ?_⟩
    · simpa [Nat.digits_eq_nil_iff_eq_zero] using h0
    · refine List.forall_mem_map.mpr fun d hd => ?_
      exact (digitByte d (hlt d (List.mem_reverse.mp hd))).1
    · have hmap : ((Nat.digits 10 n).map fun d => ((0x30 + d).toUInt8).toNat - 0x30) =
          Nat.digits 10 n :=
        (List.map_congr_left fun d hd => (digitByte d (hlt d hd)).2).trans (List.map_id _)
      simp only [List.map_reverse, List.reverse_reverse, List.map_map, Function.comp_def]
      rw [hmap, Nat.ofDigits_digits]

theorem parseNat_render (n : ℕ) {t : List UInt8} (ht : Ends t) :
    parseNat (renderNat n ++ t) = some (n, t) := by
  obtain ⟨hne, hdig, hval⟩ := renderNat_digits n
  have htake : t.takeWhile isDigit = [] := by
    cases t with
    | nil => rfl
    | cons b t => rw [List.takeWhile_cons, ht b rfl]; rfl
  have hdrop : t.dropWhile isDigit = t := by
    cases t with
    | nil => rfl
    | cons b t => rw [List.dropWhile_cons, ht b rfl]; rfl
  rw [parseNat, List.takeWhile_append_of_pos hdig, List.dropWhile_append_of_pos hdig, htake, hdrop,
    List.append_nil, if_neg hne, hval]

theorem parseInt_render (n : Int) {t : List UInt8} (ht : Ends t) :
    parseInt (renderInt n ++ t) = some (n, t) := by
  rw [renderInt]
  split_ifs with h0
  · rw [List.cons_append, parseInt, parseNat_render _ ht]
    simp only [Option.map_some, Option.some.injEq, Prod.mk.injEq, and_true]
    omega
  · rw [parseInt, parseNat_render _ ht]
    · simp only [Option.map_some, Option.some.injEq, Prod.mk.injEq, and_true]
      omega
    · intro t' h
      obtain ⟨hne, hdig, -⟩ := renderNat_digits n.natAbs
      cases hr : renderNat n.natAbs with
      | nil => exact hne hr
      | cons b bs =>
          rw [hr, List.cons_append] at h
          have hb := hdig b (hr ▸ List.mem_cons_self)
          rw [(List.cons.inj h).1] at hb
          exact absurd hb (by decide)

/-! ## Documents -/

/-- The bytes of a key. -/
def keyBytes (k : String) : List UInt8 := k.toUTF8.data.toList

def newline (d : ℕ) : List UInt8 := 0x0A :: List.replicate d 0x20

mutual

/-- The text of a document, `d` blanks deep. -/
def render : ℕ → Json → List UInt8
  | _, .null => [0x6E, 0x75, 0x6C, 0x6C]
  | _, .bool true => [0x74, 0x72, 0x75, 0x65]
  | _, .bool false => [0x66, 0x61, 0x6C, 0x73, 0x65]
  | _, .int n => renderInt n
  | _, .str s => 0x22 :: renderString s
  | _, .arr [] => [0x5B, 0x5D]
  | d, .arr (x :: xs) => 0x5B ::
      (newline (d + 2) ++ (render (d + 2) x ++ (renderElems (d + 2) xs ++ (newline d ++ [0x5D]))))
  | _, .obj [] => [0x7B, 0x7D]
  | d, .obj (p :: ps) => 0x7B ::
      (newline (d + 2) ++ (renderField (d + 2) p ++ (renderFields (d + 2) ps ++ (newline d ++ [0x7D]))))

/-- The elements after the first one. -/
def renderElems : ℕ → List Json → List UInt8
  | _, [] => []
  | d, x :: xs => 0x2C :: (newline d ++ (render d x ++ renderElems d xs))

def renderField : ℕ → String × Json → List UInt8
  | d, (k, v) => 0x22 :: (renderString (keyBytes k) ++ 0x3A :: 0x20 :: render d v)

/-- The fields after the first one. -/
def renderFields : ℕ → List (String × Json) → List UInt8
  | _, [] => []
  | d, p :: ps => 0x2C :: (newline d ++ (renderField d p ++ renderFields d ps))

end

def isSpace (b : UInt8) : Bool := b = 0x20 || b = 0x0A || b = 0x0D || b = 0x09

def skip (t : List UInt8) : List UInt8 := t.dropWhile isSpace

mutual

/-- Read a document, and what follows it; the first argument bounds the depth of the recursion. -/
def parseValue : ℕ → List UInt8 → Option (Json × List UInt8)
  | 0, _ => none
  | n + 1, t => match parseInt (skip t) with
    | some (k, t) => some (.int k, t)
    | none => match skip t with
      | 0x6E :: 0x75 :: 0x6C :: 0x6C :: t => some (.null, t)
      | 0x74 :: 0x72 :: 0x75 :: 0x65 :: t => some (.bool true, t)
      | 0x66 :: 0x61 :: 0x6C :: 0x73 :: 0x65 :: t => some (.bool false, t)
      | 0x22 :: t => match parseString t with
        | some (s, t) => if ValidUtf8 s then some (.str s, t) else none
        | none => none
      | 0x5B :: t => match parseValue n t with
        | some (x, t) => (parseElems n t).map fun p => (.arr (x :: p.1), p.2)
        | none => match skip t with
          | 0x5D :: t => some (.arr [], t)
          | _ => none
      | 0x7B :: t => match parseField n t with
        | some (x, t) => (parseFields n t).map fun p => (.obj (x :: p.1), p.2)
        | none => match skip t with
          | 0x7D :: t => some (.obj [], t)
          | _ => none
      | _ => none

def parseElems : ℕ → List UInt8 → Option (List Json × List UInt8)
  | 0, _ => none
  | n + 1, t => match skip t with
    | 0x2C :: t => match parseValue n t with
      | some (x, t) => (parseElems n t).map fun p => (x :: p.1, p.2)
      | none => none
    | 0x5D :: t => some ([], t)
    | _ => none

def parseField : ℕ → List UInt8 → Option ((String × Json) × List UInt8)
  | 0, _ => none
  | n + 1, t => match skip t with
    | 0x22 :: t => match parseString t with
      | some (k, t) => match String.fromUTF8? ⟨k.toArray⟩, skip t with
        | some k, 0x3A :: t => (parseValue n t).map fun p => ((k, p.1), p.2)
        | _, _ => none
      | none => none
    | _ => none

def parseFields : ℕ → List UInt8 → Option (List (String × Json) × List UInt8)
  | 0, _ => none
  | n + 1, t => match skip t with
    | 0x2C :: t => match parseField n t with
      | some (x, t) => (parseFields n t).map fun p => (x :: p.1, p.2)
      | none => none
    | 0x7D :: t => some ([], t)
    | _ => none

end

@[simp] theorem skip_newline (d : ℕ) (t : List UInt8) : skip (newline d ++ t) = skip t := by
  refine List.dropWhile_append_of_pos fun b hb => ?_
  rcases List.mem_cons.mp hb with rfl | hb
  · rfl
  · rw [List.eq_of_mem_replicate hb]
    rfl

theorem parseValue_newline (n d : ℕ) (t : List UInt8) :
    parseValue n (newline d ++ t) = parseValue n t := by
  cases n with
  | zero => rfl
  | succ n => rw [parseValue, parseValue, skip_newline]

theorem parseField_newline (n d : ℕ) (t : List UInt8) :
    parseField n (newline d ++ t) = parseField n t := by
  cases n with
  | zero => rfl
  | succ n => rw [parseField, parseField, skip_newline]

theorem skip_cons {b : UInt8} (t : List UInt8) (hb : isSpace b = false) : skip (b :: t) = b :: t := by
  rw [skip, List.dropWhile_cons, hb]
  rfl

theorem ends_cons {b : UInt8} (t : List UInt8) (hb : isDigit b = false) : Ends (b :: t) := by
  intro b' h
  rw [← Option.some.inj h]
  exact hb

theorem skip_renderInt (n : Int) (t : List UInt8) : skip (renderInt n ++ t) = renderInt n ++ t := by
  obtain ⟨hne, hdig, -⟩ := renderNat_digits n.natAbs
  rw [renderInt]
  split_ifs
  · rfl
  · cases hr : renderNat n.natAbs with
    | nil => exact absurd hr hne
    | cons b bs =>
        have hb : isSpace b = false := by
          have hd := hdig b (hr ▸ List.mem_cons_self)
          by_contra h
          simp only [isSpace, Bool.not_eq_false, Bool.or_eq_true, decide_eq_true_eq] at h
          rcases h with ((rfl | rfl) | rfl) | rfl <;> exact absurd hd (by decide)
        rw [List.cons_append, skip_cons _ hb]

/-- After the elements or fields comes a comma or the closing line. -/
theorem ends_renderElems (d e : ℕ) (xs : List Json) (t : List UInt8) :
    Ends (renderElems d xs ++ (newline e ++ t)) := by
  cases xs with
  | nil => exact ends_cons _ rfl
  | cons x xs => exact ends_cons _ rfl

theorem ends_renderFields (d e : ℕ) (ps : List (String × Json)) (t : List UInt8) :
    Ends (renderFields d ps ++ (newline e ++ t)) := by
  cases ps with
  | nil => exact ends_cons _ rfl
  | cons p ps => exact ends_cons _ rfl

/-! The parser after an opening bracket, a comma and a closing bracket. -/

theorem parseValue_arr {n : ℕ} {t t' t'' : List UInt8} {x : Json} {xs : List Json}
    (hx : parseValue n t = some (x, t')) (hxs : parseElems n t' = some (xs, t'')) :
    parseValue (n + 1) (0x5B :: t) = some (.arr (x :: xs), t'') := by
  have hint : parseInt (0x5B :: t) = none := rfl
  rw [parseValue, skip_cons _ rfl]
  simp only [hint, hx, hxs, Option.map_some]

theorem parseValue_arr_nil (n : ℕ) (t : List UInt8) :
    parseValue (n + 1) (0x5B :: 0x5D :: t) = some (.arr [], t) := by
  have hvalue : parseValue n (0x5D :: t) = none := by cases n <;> rfl
  have hint : parseInt (0x5B :: 0x5D :: t) = none := rfl
  rw [parseValue, skip_cons _ rfl]
  simp only [hint, hvalue]
  rfl

theorem parseValue_obj {n : ℕ} {t t' t'' : List UInt8} {p : String × Json}
    {ps : List (String × Json)} (hp : parseField n t = some (p, t'))
    (hps : parseFields n t' = some (ps, t'')) :
    parseValue (n + 1) (0x7B :: t) = some (.obj (p :: ps), t'') := by
  have hint : parseInt (0x7B :: t) = none := rfl
  rw [parseValue, skip_cons _ rfl]
  simp only [hint, hp, hps, Option.map_some]

theorem parseValue_obj_nil (n : ℕ) (t : List UInt8) :
    parseValue (n + 1) (0x7B :: 0x7D :: t) = some (.obj [], t) := by
  have hfield : parseField n (0x7D :: t) = none := by cases n <;> rfl
  have hint : parseInt (0x7B :: 0x7D :: t) = none := rfl
  rw [parseValue, skip_cons _ rfl]
  simp only [hint, hfield]
  rfl

theorem parseElems_cons {n : ℕ} {t t' t'' : List UInt8} {x : Json} {xs : List Json}
    (hx : parseValue n t = some (x, t')) (hxs : parseElems n t' = some (xs, t'')) :
    parseElems (n + 1) (0x2C :: t) = some (x :: xs, t'') := by
  rw [parseElems, skip_cons _ rfl]
  simp only [hx, hxs, Option.map_some]

theorem parseElems_close (n d : ℕ) (t : List UInt8) :
    parseElems (n + 1) (newline d ++ 0x5D :: t) = some ([], t) := by
  rw [parseElems, skip_newline]
  rfl

theorem parseField_key {n : ℕ} {t t' : List UInt8} {v : Json} (k : String)
    (hv : parseValue n (0x20 :: t) = some (v, t')) :
    parseField (n + 1) (0x22 :: (renderString (keyBytes k) ++ 0x3A :: 0x20 :: t)) =
      some ((k, v), t') := by
  have hcolon : skip (0x3A :: 0x20 :: t) = 0x3A :: 0x20 :: t := skip_cons _ rfl
  have hkey : String.fromUTF8? ⟨(keyBytes k).toArray⟩ = some k := Json.asString_utf8 k
  rw [parseField, skip_cons _ rfl]
  simp only [parseString_render, hkey, hcolon, hv, Option.map_some]

theorem parseFields_cons {n : ℕ} {t t' t'' : List UInt8} {p : String × Json}
    {ps : List (String × Json)} (hp : parseField n t = some (p, t'))
    (hps : parseFields n t' = some (ps, t'')) :
    parseFields (n + 1) (0x2C :: t) = some (p :: ps, t'') := by
  rw [parseFields, skip_cons _ rfl]
  simp only [hp, hps, Option.map_some]

theorem parseFields_close (n d : ℕ) (t : List UInt8) :
    parseFields (n + 1) (newline d ++ 0x7D :: t) = some ([], t) := by
  rw [parseFields, skip_newline]
  rfl

theorem parseValue_blank (n : ℕ) (t : List UInt8) : parseValue n (0x20 :: t) = parseValue n t := by
  cases n with
  | zero => rfl
  | succ n => rfl

mutual

/-- **A document is read back from its text.** -/
theorem parseValue_render (d : ℕ) (j : Json) (hj : j.Utf8) (n : ℕ) (hn : (render d j).length < n)
    (t : List UInt8) (ht : Ends t) : parseValue n (render d j ++ t) = some (j, t) := by
  obtain ⟨n, rfl⟩ : ∃ m, n = m + 1 := ⟨n - 1, by omega⟩
  cases j with
  | null => rfl
  | bool b => cases b <;> rfl
  | int k => rw [parseValue, render, skip_renderInt, parseInt_render k ht]
  | str s =>
      have hint : parseInt (skip (render d (.str s) ++ t)) = none := rfl
      have hskip : skip (render d (.str s) ++ t) = 0x22 :: (renderString s ++ t) := rfl
      rw [parseValue, hint, hskip]
      simp only [parseString_render, if_pos (Json.utf8_str.mp hj)]
  | arr xs =>
      cases xs with
      | nil => exact parseValue_arr_nil n t
      | cons x xs =>
          obtain ⟨hx, hxs⟩ := List.forall_mem_cons.mp (Json.utf8_arr.mp hj)
          simp only [render, List.cons_append, List.append_assoc, List.nil_append, List.length_cons,
            List.length_append] at hn ⊢
          refine parseValue_arr ((parseValue_newline n _ _).trans ?_)
            (parseElems_render (d + 2) xs hxs n (by omega) d t)
          exact parseValue_render (d + 2) x hx n (by omega) _ (ends_renderElems _ _ _ _)
  | obj ps =>
      cases ps with
      | nil => exact parseValue_obj_nil n t
      | cons p ps =>
          obtain ⟨hp, hps⟩ := List.forall_mem_cons.mp (Json.utf8_obj.mp hj)
          simp only [render, List.cons_append, List.append_assoc, List.nil_append, List.length_cons,
            List.length_append] at hn ⊢
          refine parseValue_obj ((parseField_newline n _ _).trans ?_)
            (parseFields_render (d + 2) ps hps n (by omega) d t)
          exact parseField_render (d + 2) p hp n (by omega) _ (ends_renderFields _ _ _ _)

theorem parseElems_render (d : ℕ) (xs : List Json) (h : ∀ x ∈ xs, x.Utf8) (n : ℕ)
    (hn : (renderElems d xs).length < n) (e : ℕ) (t : List UInt8) :
    parseElems n (renderElems d xs ++ (newline e ++ 0x5D :: t)) = some (xs, t) := by
  obtain ⟨n, rfl⟩ : ∃ m, n = m + 1 := ⟨n - 1, by omega⟩
  cases xs with
  | nil => exact parseElems_close n e t
  | cons x xs =>
      obtain ⟨hx, hxs⟩ := List.forall_mem_cons.mp h
      simp only [renderElems, List.cons_append, List.append_assoc, List.length_cons,
        List.length_append] at hn ⊢
      refine parseElems_cons ((parseValue_newline n _ _).trans ?_)
        (parseElems_render d xs hxs n (by omega) e t)
      exact parseValue_render d x hx n (by omega) _ (ends_renderElems _ _ _ _)

theorem parseField_render (d : ℕ) (p : String × Json) (hp : p.2.Utf8) (n : ℕ)
    (hn : (renderField d p).length < n) (t : List UInt8) (ht : Ends t) :
    parseField n (renderField d p ++ t) = some (p, t) := by
  obtain ⟨n, rfl⟩ : ∃ m, n = m + 1 := ⟨n - 1, by omega⟩
  cases p with
  | mk k v =>
      simp only [renderField, List.cons_append, List.append_assoc, List.length_cons,
        List.length_append] at hn ⊢
      refine parseField_key k ((parseValue_blank n _).trans ?_)
      exact parseValue_render d v hp n (by omega) t ht

theorem parseFields_render (d : ℕ) (ps : List (String × Json)) (h : ∀ p ∈ ps, p.2.Utf8) (n : ℕ)
    (hn : (renderFields d ps).length < n) (e : ℕ) (t : List UInt8) :
    parseFields n (renderFields d ps ++ (newline e ++ 0x7D :: t)) = some (ps, t) := by
  obtain ⟨n, rfl⟩ : ∃ m, n = m + 1 := ⟨n - 1, by omega⟩
  cases ps with
  | nil => exact parseFields_close n e t
  | cons p ps =>
      obtain ⟨hp, hps⟩ := List.forall_mem_cons.mp h
      simp only [renderFields, List.cons_append, List.append_assoc, List.length_cons,
        List.length_append] at hn ⊢
      refine parseFields_cons ((parseField_newline n _ _).trans ?_)
        (parseFields_render d ps hps n (by omega) e t)
      exact parseField_render d p hp n (by omega) _ (ends_renderFields _ _ _ _)

end

/-! ## The library -/

mutual

/-- Whether every string of a document is valid UTF-8. -/
def isUtf8 : Json → Bool
  | .str s => decide (ValidUtf8 s)
  | .arr xs => allUtf8 xs
  | .obj ps => fieldsUtf8 ps
  | _ => true

def allUtf8 : List Json → Bool
  | [] => true
  | x :: xs => isUtf8 x && allUtf8 xs

def fieldUtf8 : String × Json → Bool
  | (_, v) => isUtf8 v

def fieldsUtf8 : List (String × Json) → Bool
  | [] => true
  | p :: ps => fieldUtf8 p && fieldsUtf8 ps

end

mutual

theorem isUtf8_iff (j : Json) : isUtf8 j = true ↔ j.Utf8 := by
  cases j with
  | null => exact ⟨fun _ => .null, fun _ => rfl⟩
  | bool b => exact ⟨fun _ => .bool b, fun _ => rfl⟩
  | int n => exact ⟨fun _ => .int n, fun _ => rfl⟩
  | str s => simp [isUtf8]
  | arr xs => rw [isUtf8, Json.utf8_arr, allUtf8_iff xs]
  | obj ps => rw [isUtf8, Json.utf8_obj, fieldsUtf8_iff ps]

theorem allUtf8_iff (xs : List Json) : allUtf8 xs = true ↔ ∀ x ∈ xs, x.Utf8 := by
  cases xs with
  | nil => simp [allUtf8]
  | cons x xs => rw [allUtf8, Bool.and_eq_true, isUtf8_iff x, allUtf8_iff xs, List.forall_mem_cons]

theorem fieldUtf8_iff (p : String × Json) : fieldUtf8 p = true ↔ p.2.Utf8 := by
  cases p with
  | mk k v => exact isUtf8_iff v

theorem fieldsUtf8_iff (ps : List (String × Json)) :
    fieldsUtf8 ps = true ↔ ∀ p ∈ ps, p.2.Utf8 := by
  cases ps with
  | nil => simp [fieldsUtf8]
  | cons p ps =>
      rw [fieldsUtf8, Bool.and_eq_true, fieldUtf8_iff p, fieldsUtf8_iff ps, List.forall_mem_cons]

end

/-- The printer with an indentation of two, and the parser of a whole text. -/
def lib : JsonLib where
  dump j := if isUtf8 j then some (render 0 j) else none
  parse t := match parseValue (t.length + 1) t with
    | some (j, rest) => if skip rest = [] then some j else none
    | none => none

/-- **The library is lawful.** -/
theorem lib_lawful : lib.Lawful where
  parse_dump j _ hj := by
    refine ⟨render 0 j, if_pos ((isUtf8_iff j).mpr hj), ?_⟩
    have h := parseValue_render 0 j hj _ (Nat.lt_succ_self _) [] (fun b hb => by cases hb)
    rw [List.append_nil] at h
    simp only [lib, h]
    rfl
  dump_invalid j hj := if_neg fun h => hj ((isUtf8_iff j).mp h)
  parse_nil := rfl

end JsonText
