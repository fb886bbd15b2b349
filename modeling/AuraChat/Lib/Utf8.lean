import AuraChat.Lib.Json

set_option autoImplicit false

/-!
# Texts in UTF-8

* `validUtf8_append`, `validUtf8_ascii`: texts put together, and texts in ASCII;
* **`validUtf8_flatMap`**: a rewriting of the ASCII characters of a text.
-/

theorem validUtf8_append {s t : List UInt8} (hs : ValidUtf8 s) (ht : ValidUtf8 t) : ValidUtf8 (s ++ t) := by
  have happ : (⟨(s ++ t).toArray⟩ : ByteArray) = ⟨s.toArray⟩ ++ ⟨t.toArray⟩ := by
    ext1
    simp
  rw [ValidUtf8, happ]
  exact hs.append ht

theorem validUtf8_nil : ValidUtf8 [] := ByteArray.isValidUTF8_empty

theorem toByteArray_eq (l : List UInt8) : l.toByteArray = ⟨l.toArray⟩ := by
  ext1
  simp

theorem validUtf8_encodeChar (c : Char) : ValidUtf8 (String.utf8EncodeChar c) := by
  rw [ValidUtf8, ← toByteArray_eq]
  exact Char.isValidUTF8_toByteArray_utf8EncodeChar

/-- A text in UTF-8 is the encoding of its characters. -/
theorem ValidUtf8.exists_chars {s : List UInt8} (h : ValidUtf8 s) :
    ∃ cs : List Char, s = cs.flatMap String.utf8EncodeChar := by
  obtain ⟨cs, hcs⟩ := h
  refine ⟨cs, ?_⟩
  rw [List.utf8Encode, toByteArray_eq] at hcs
  simpa using congrArg (fun b => b.data.toList) hcs

/-- A character in ASCII is encoded by itself, and the bytes of another one are not ASCII. -/
theorem utf8EncodeChar_cases (c : Char) :
    (c.toNat < 0x80 ∧ String.utf8EncodeChar c = [UInt8.ofNat c.toNat]) ∨
      ∀ b ∈ String.utf8EncodeChar c, 0x80 ≤ b := by
  have hhigh : ∀ n : ℕ, 0x80 ≤ n % 256 → (0x80 : UInt8) ≤ UInt8.ofNat n := by
    intro n hn
    rw [UInt8.le_iff_toNat_le, UInt8.toNat_ofNat']
    exact hn
  rw [String.utf8EncodeChar]
  split_ifs with h1 h2 h3
  · exact .inl ⟨Nat.lt_succ_of_le h1, rfl⟩
  all_goals
    right
    simp only [List.mem_cons, List.not_mem_nil, or_false, forall_eq_or_imp, forall_eq]
  · exact ⟨hhigh _ (by omega), hhigh _ (by omega)⟩
  · exact ⟨hhigh _ (by omega), hhigh _ (by omega), hhigh _ (by omega)⟩
  · exact ⟨hhigh _ (by omega), hhigh _ (by omega), hhigh _ (by omega), hhigh _ (by omega)⟩

theorem validUtf8_ascii {s : List UInt8} (h : ∀ b ∈ s, b < 0x80) : ValidUtf8 s := by
  have hone : ∀ n < 0x80, ValidUtf8 [UInt8.ofNat n] := by decide
  induction s with
  | nil => exact validUtf8_nil
  | cons b s ih =>
      obtain ⟨hb, hs⟩ := List.forall_mem_cons.mp h
      have hfirst := hone b.toNat (UInt8.lt_iff_toNat_lt.mp hb)
      rw [UInt8.ofNat_toNat] at hfirst
      exact validUtf8_append hfirst (ih hs)

theorem flatMap_eq_self {f : UInt8 → List UInt8} {s : List UInt8} (h : ∀ b ∈ s, f b = [b]) :
    s.flatMap f = s := by
  induction s with
  | nil => rfl
  | cons b s ih =>
      obtain ⟨hb, hs⟩ := List.forall_mem_cons.mp h
      rw [List.flatMap_cons, hb, ih hs]
      rfl

/-- **A text stays valid when its ASCII characters are rewritten to ASCII.** -/
theorem validUtf8_flatMap {f : UInt8 → List UInt8} (hkeep : ∀ b, 0x80 ≤ b → f b = [b])
    (hascii : ∀ b, b < 0x80 → ∀ b' ∈ f b, b' < 0x80) {s : List UInt8} (h : ValidUtf8 s) :
    ValidUtf8 (s.flatMap f) := by
  have hchar : ∀ c : Char, ValidUtf8 ((String.utf8EncodeChar c).flatMap f) := by
    intro c
    obtain ⟨hlt, henc⟩ | hhigh := utf8EncodeChar_cases c
    · rw [henc, List.flatMap_singleton]
      refine validUtf8_ascii (hascii _ ?_)
      rw [UInt8.lt_iff_toNat_lt, UInt8.toNat_ofNat', Nat.mod_eq_of_lt (Nat.lt_trans hlt (by decide))]
      exact hlt
    · rw [flatMap_eq_self fun b hb => hkeep b (hhigh b hb)]
      exact validUtf8_encodeChar c
  obtain ⟨cs, rfl⟩ := h.exists_chars
  clear h
  induction cs with
  | nil => exact validUtf8_nil
  | cons c cs ih =>
      rw [List.flatMap_cons, List.flatMap_append]
      exact validUtf8_append (hchar c) ih
