import AuraChat.Lib.Utf8
import AuraChat.Model.Llama

set_option autoImplicit false

/-!
# The request of the language model

The text of the request is spliced together from a template and two strings that `escape` has gone over. It
leaves control characters alone except for tabs, line feeds and carriage returns, and JSON has no others.

* `requestValue`, `reads_request`: what the request denotes, if the prompt has no other control characters;
* `validUtf8_request`;
* **`request_carries_iff`**.
-/

namespace AuraChat

namespace Llama

open JsonGrammar

/-! ## Strings -/

/-- An escaped string is read back. -/
theorem chars_escape {s : Bytes} (h : ∀ b ∈ s, Allowed b) (t : Bytes) : Chars s (escape s ++ 0x22 :: t) t := by
  induction s with
  | nil => exact .close t
  | cons b s ih =>
      obtain ⟨hb, hs⟩ := List.forall_mem_cons.mp h
      rw [escape, List.flatMap_cons, List.append_assoc, ← escape]
      rw [escapeByte]
      split_ifs with hq hb' hn hr ht
      · subst hq
        exact .escaped rfl (ih hs)
      · subst hb'
        exact .escaped rfl (ih hs)
      · subst hn
        exact .escaped rfl (ih hs)
      · subst hr
        exact .escaped rfl (ih hs)
      · subst ht
        exact .escaped rfl (ih hs)
      · refine .plain ⟨UInt8.not_lt.mp fun hlt => ?_, hq, hb'⟩ (ih hs)
        obtain h | h | h := hb hlt
        · exact ht h
        · exact hn h
        · exact hr h

theorem chars_plain {k : Bytes} (h : ∀ b ∈ k, 0x20 ≤ b ∧ b ≠ 0x22 ∧ b ≠ 0x5C) (t : Bytes) :
    Chars k (k ++ 0x22 :: t) t := by
  induction k with
  | nil => exact .close t
  | cons b k ih =>
      obtain ⟨hb, hk⟩ := List.forall_mem_cons.mp h
      exact .plain hb (ih hk)

theorem ws_append {w : Bytes} (h : ∀ b ∈ w, isSpace b = true) (t : Bytes) : Ws (w ++ t) t := by
  induction w with
  | nil => exact .nil t
  | cons b w ih =>
      obtain ⟨hb, hw⟩ := List.forall_mem_cons.mp h
      exact .cons hb (ih hw)

/-! ## The template -/

/-- A line break and `n` blanks. -/
def indent (n : ℕ) : Bytes := 0x0A :: List.replicate n 0x20

theorem ws_indent (n : ℕ) (t : Bytes) : Ws (indent n ++ t) t :=
  ws_append (List.forall_mem_cons.mpr ⟨rfl, fun b hb => by rw [List.eq_of_mem_replicate hb]; rfl⟩) t

/-- A key, a colon and a blank. -/
def keyText (key : Bytes) (t : Bytes) : Bytes := 0x22 :: (key ++ 0x22 :: 0x3A :: 0x20 :: t)

def IsKey (key : Bytes) : Prop := ∀ b ∈ key, 0x20 ≤ b ∧ b ≠ 0x22 ∧ b ≠ 0x5C

instance : DecidablePred IsKey := fun key =>
  List.decidableBAll (fun b => 0x20 ≤ b ∧ b ≠ 0x22 ∧ b ≠ 0x5C) key

theorem reads_members {key : Bytes} {v : Value} {ms : List (Bytes × Value)} {t t₁ t₂ t' : Bytes}
    (hw : Ws t (keyText key t₁)) (hk : IsKey key) (hv : Reads (.value v) t₁ (0x2C :: t₂))
    (hms : Reads (.members ms) t₂ t') : Reads (.members ((key, v) :: ms)) t t' :=
  .members hw (chars_plain hk _) (.nil _) (.cons rfl (.nil _)) hv (.nil _) hms

theorem reads_member {key : Bytes} {v : Value} {t t₁ t₂ t' : Bytes} (hw : Ws t (keyText key t₁))
    (hk : IsKey key) (hv : Reads (.value v) t₁ t₂) (hw' : Ws t₂ t') : Reads (.members [(key, v)]) t t' :=
  .member hw (chars_plain hk _) (.nil _) (.cons rfl (.nil _)) hv hw'

/-- A message of the request. -/
def messageValue (role content : Bytes) : Value :=
  .obj [(bytes "role", .str role), (bytes "content", .str content)]

/-- The text of a message, whose content has been escaped. -/
def messageText (role content t : Bytes) : Bytes :=
  0x7B :: keyText (bytes "role") (0x22 :: (role ++ 0x22 :: 0x2C :: 0x20 ::
    keyText (bytes "content") (0x22 :: (content ++ 0x22 :: 0x7D :: t))))

theorem reads_message {role content : Bytes} (hr : IsKey role) (hc : ∀ b ∈ content, Allowed b) (t : Bytes) :
    Reads (.value (messageValue role content)) (messageText role (escape content) t) t :=
  .obj (reads_members (.nil _) (by decide) (.str (chars_plain hr _))
    (reads_member (.cons rfl (.nil _)) (by decide) (.str (chars_escape hc _)) (.nil _)))

/-- What the request denotes. -/
def requestValue (prompt : Bytes) : Value :=
  .obj [(bytes "messages",
      .arr [messageValue (bytes "system") (systemPrompt prompt), messageValue (bytes "user") prompt]),
    (bytes "temperature", .num (bytes "0.7")),
    (bytes "max_tokens", .num (bytes (toString (maxTokens prompt)))),
    (bytes "stream", .bool true)]

/-- The request, phrase by phrase. -/
theorem requestBody_eq (prompt : Bytes) :
    requestBody prompt = 0x7B :: (indent 4 ++ keyText (bytes "messages") (0x5B :: (indent 8 ++
      messageText (bytes "system") (escape (systemPrompt prompt)) (0x2C :: (indent 8 ++
      messageText (bytes "user") (escape prompt) (indent 4 ++ 0x5D :: 0x2C :: (indent 4 ++
      keyText (bytes "temperature") (bytes "0.7" ++ 0x2C :: (indent 4 ++
      keyText (bytes "max_tokens") (bytes (toString (maxTokens prompt)) ++ 0x2C :: (indent 4 ++
      keyText (bytes "stream") (bytes "true" ++ (indent 0 ++ [0x7D]))))))))))))) := by
  have h₁ : bytes "\x7b\n    \"messages\": [\n        \x7b\"role\": \"system\", \"content\": \"" =
      0x7B :: (indent 4 ++ keyText (bytes "messages") (0x5B :: (indent 8 ++ 0x7B :: keyText (bytes "role")
        (0x22 :: (bytes "system" ++ 0x22 :: 0x2C :: 0x20 :: keyText (bytes "content") [0x22]))))) := by
    decide
  have h₂ : bytes "\"\x7d,\n        \x7b\"role\": \"user\", \"content\": \"" =
      0x22 :: 0x7D :: 0x2C :: (indent 8 ++ 0x7B :: keyText (bytes "role")
        (0x22 :: (bytes "user" ++ 0x22 :: 0x2C :: 0x20 :: keyText (bytes "content") [0x22]))) := by
    decide
  have h₃ : bytes "\"\x7d\n    ],\n    \"temperature\": 0.7,\n    \"max_tokens\": " =
      0x22 :: 0x7D :: (indent 4 ++ 0x5D :: 0x2C :: (indent 4 ++
        keyText (bytes "temperature") (bytes "0.7" ++ 0x2C :: (indent 4 ++ keyText (bytes "max_tokens") [])))) := by
    decide
  have h₄ : bytes ",\n    \"stream\": true\n\x7d" =
      0x2C :: (indent 4 ++ keyText (bytes "stream") (bytes "true" ++ (indent 0 ++ [0x7D]))) := by
    decide
  rw [requestBody, h₁, h₂, h₃, h₄]
  simp only [keyText, messageText, List.append_assoc, List.cons_append, List.nil_append]

theorem systemPrompt_allowed (prompt : Bytes) : ∀ b ∈ systemPrompt prompt, Allowed b := by
  rw [systemPrompt]
  split_ifs
  all_goals decide

theorem maxTokens_cases (prompt : Bytes) : maxTokens prompt = 4096 ∨ maxTokens prompt = 8196 := by
  simp only [maxTokens]
  split_ifs <;> simp

theorem isNumber_maxTokens (prompt : Bytes) : IsNumber (bytes (toString (maxTokens prompt))) := by
  have hnumber : ∀ d ds, (0x31 ≤ d ∧ d ≤ 0x39) → (∀ b ∈ ds, IsDigit b) → IsNumber (d :: ds) := by
    intro d ds hd hds
    simpa using IsNumber.mk (.inl rfl) (.pos hd hds) .none .none
  obtain h | h := maxTokens_cases prompt
  · rw [h, show bytes (toString 4096) = [0x34, 0x30, 0x39, 0x36] by decide]
    exact hnumber _ _ (by decide) (by decide)
  · rw [h, show bytes (toString 8196) = [0x38, 0x31, 0x39, 0x36] by decide]
    exact hnumber _ _ (by decide) (by decide)

theorem isNumber_temperature : IsNumber (bytes "0.7") := by
  rw [show bytes "0.7" = [] ++ ([0x30] ++ ([0x2E, 0x37] ++ [])) by decide]
  exact .mk (.inl rfl) .zero (.some ⟨by decide, by decide⟩) .none

theorem reads_request {prompt : Bytes} (h : ∀ b ∈ prompt, Allowed b) :
    Reads (.value (requestValue prompt)) (requestBody prompt) [] := by
  rw [requestBody_eq]
  refine .obj (reads_members (ws_indent 4 _) (by decide)
    (.arr (.elements (ws_indent 8 _) (reads_message (by decide) (systemPrompt_allowed prompt) _)
      (.nil _) (.element (ws_indent 8 _) (reads_message (by decide) h _) (ws_indent 4 _)))) ?_)
  refine reads_members (ws_indent 4 _) (by decide) (.num isNumber_temperature _) ?_
  refine reads_members (ws_indent 4 _) (by decide) (.num (isNumber_maxTokens prompt) _) ?_
  exact reads_member (ws_indent 4 _) (by decide) (.true _) (ws_indent 0 _)

/-! ## The text -/

theorem validUtf8_escape {s : Bytes} (h : ValidUtf8 s) : ValidUtf8 (escape s) := by
  refine validUtf8_flatMap (fun b hb => ?_) (fun b hb b' hb' => ?_) h
  · have hne : ∀ c : UInt8, c < 0x80 → b ≠ c := fun c hc he => absurd (he ▸ hb) (UInt8.not_le.mpr hc)
    rw [escapeByte, if_neg (hne _ (by decide)), if_neg (hne _ (by decide)), if_neg (hne _ (by decide)),
      if_neg (hne _ (by decide)), if_neg (hne _ (by decide))]
  · have hsmall : ∀ n < 0x80, ∀ c ∈ escapeByte (UInt8.ofNat n), c < 0x80 := by decide
    have hb₀ := hsmall b.toNat (UInt8.lt_iff_toNat_lt.mp hb)
    rw [UInt8.ofNat_toNat] at hb₀
    exact hb₀ b' hb'

theorem validUtf8_bytes (s : String) : ValidUtf8 (bytes s) := Json.validUtf8_utf8 s

theorem validUtf8_request {prompt : Bytes} (h : ValidUtf8 prompt) : ValidUtf8 (requestBody prompt) := by
  have hsystem : ValidUtf8 (systemPrompt prompt) := by
    rw [systemPrompt]
    split_ifs
    all_goals exact validUtf8_bytes _
  repeat' apply validUtf8_append
  all_goals first
    | exact validUtf8_bytes _
    | exact validUtf8_escape hsystem
    | exact validUtf8_escape h

/-- A control character of the prompt that is not escaped is in the request. -/
theorem mem_requestBody {prompt : Bytes} {b : UInt8} (hb : b ∈ prompt) (h : ¬ Allowed b) :
    b ∈ requestBody prompt := by
  have hescape : b ∈ escapeByte b := by
    rw [escapeByte]
    split_ifs with hq hb' hn hr ht
    · exact absurd (by rw [hq]; decide) h
    · exact absurd (by rw [hb']; decide) h
    · exact absurd (by rw [hn]; decide) h
    · exact absurd (by rw [hr]; decide) h
    · exact absurd (by rw [ht]; decide) h
    · exact List.mem_singleton_self b
  have hmem : b ∈ escape prompt := List.mem_flatMap.mpr ⟨b, hb, hescape⟩
  simp only [requestBody, List.mem_append, hmem, or_true, true_or]

/-- The request is a JSON text with two messages, and the second is the prompt of the user. -/
def Carries (prompt body : Bytes) : Prop :=
  ∃ v system user, Document v body ∧ v.get? (bytes "messages") = some (.arr [system, user]) ∧
    system.get? (bytes "role") = some (.str (bytes "system")) ∧
    user.get? (bytes "role") = some (.str (bytes "user")) ∧
    user.get? (bytes "content") = some (.str prompt)

/-- **When the request carries the prompt**: for a prompt in UTF-8, exactly if its only control characters
are tabs, line feeds and carriage returns. -/
theorem request_carries_iff {prompt : Bytes} (h : ValidUtf8 prompt) :
    Carries prompt (requestBody prompt) ↔ ∀ b ∈ prompt, b < 0x20 → b = 0x09 ∨ b = 0x0A ∨ b = 0x0D := by
  constructor
  · rintro ⟨v, -, -, hdoc, -⟩ b hb
    by_contra hbad
    exact hbad (hdoc.controls b (mem_requestBody hb hbad))
  · intro hall
    refine ⟨requestValue prompt, messageValue (bytes "system") (systemPrompt prompt),
      messageValue (bytes "user") prompt, ⟨validUtf8_request h, requestBody prompt, [], .nil _,
        reads_request hall, .nil _⟩, rfl, rfl, rfl, rfl⟩

/-- A prompt with quotes and a line break is carried. -/
theorem request_carries_sample : Carries (bytes "say \"hi\"\n") (requestBody (bytes "say \"hi\"\n")) :=
  (request_carries_iff (validUtf8_bytes _)).mpr (by decide)

/-- The control character `U+0001` is sent as it is. -/
theorem request_broken : ¬ ∀ prompt : Bytes, ValidUtf8 prompt → Carries prompt (requestBody prompt) := by
  intro h
  have hv : ValidUtf8 [0x01] := validUtf8_ascii (by decide)
  obtain ⟨v, -, -, hdoc, -⟩ := h [0x01] hv
  exact absurd (hdoc.controls 0x01 (mem_requestBody List.mem_cons_self (by decide))) (by decide)

end Llama

end AuraChat
