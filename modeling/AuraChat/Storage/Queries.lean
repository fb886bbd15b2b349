import AuraChat.Model.Queries
import AuraChat.Storage.Search

set_option autoImplicit false

/-!
# What MySQL reads of a statement

* `undoes_escapeByte`: the documented escaping is one that MySQL undoes in a literal;
* `text_eq`, `legible`, `fits`: every statement is its fixed texts with the values between them;
* `differ`: no two places of the source write the same statement;
* `exec_eq_of_text`, `bytes_searchSql`: the statements on the handle and the one of the search have these texts;
* **`no_injection`**: the tokens of every statement, for every escaping that MySQL undoes.
-/

namespace AuraChat

namespace Mysql

open Lexer

/-! ## Escaping -/

theorem zero_not_mem_escapeByte (b : UInt8) : (0 : UInt8) ∉ escapeByte b := by
  rw [escapeByte]
  split_ifs with h0 <;> simp_all [eq_comm]

/-- In a literal, an escaped byte is read as the byte. -/
theorem undoes_escapeByte : Undoes unescapeByte escapeByte := by
  intro s b
  by_cases hspecial : b ∈ ([0x00, 0x0A, 0x0D, 0x5C, 0x27, 0x22, 0x1A] : Bytes)
  · simp only [List.mem_cons, List.not_mem_nil, or_false] at hspecial
    rcases hspecial with rfl | rfl | rfl | rfl | rfl | rfl | rfl <;> rfl
  · simp only [List.mem_cons, List.not_mem_nil, or_false, not_or] at hspecial
    obtain ⟨h0, hn, hr, hb, hq, hd, hz⟩ := hspecial
    have hescape : escapeByte b = [b] := by
      rw [escapeByte, if_neg h0, if_neg hn, if_neg hr, if_neg hb, if_neg hq, if_neg hd, if_neg hz]
    rw [hescape, scan, Lexer.step, if_neg hb, if_neg (show b ≠ Lexer.quote from hq)]
    rfl

variable {escape : UInt8 → Bytes}

theorem escBytes_eq (hzero : ∀ b, (0 : UInt8) ∉ escape b) (s : Bytes) :
    escBytes escape s = s.flatMap escape := by
  refine List.takeWhile_eq_self_iff.mpr fun b hb => decide_eq_true fun hb0 => ?_
  obtain ⟨c, -, hc⟩ := List.mem_flatMap.mp hb
  exact hzero c (hb0 ▸ hc)

/-! ## The texts -/

theorem toStringBytes_eq (n : Int) : toStringBytes n = numeral n := toUTF8_toString n

theorem literal_append (hzero : ∀ b, (0 : UInt8) ∉ escape b) (before s after : Bytes) :
    [Lexer.quote] ++ before ++ escBytes escape s ++ after ++ [Lexer.quote] =
      literalText escape before s after := by
  rw [escBytes_eq hzero]
  simp only [literalText, List.cons_append, List.nil_append, List.append_assoc]

set_option maxRecDepth 4000 in
theorem legible_row {ps : List Piece} (h : Legible unescapeByte ps) : Legible unescapeByte (rowParts ++ ps) := by
  cases ps with
  | nil => decide
  | cons p ps =>
      simp only [rowParts, List.cons_append, List.nil_append, legible_text, legible_number, legible_string,
        endsPlace_text]
      exact ⟨by decide, by decide, by decide, by decide, by decide, by decide, by decide, by decide, by decide,
        by decide, by decide, h⟩

set_option maxRecDepth 4000 in
theorem legible_nextRows (n : ℕ) : Legible unescapeByte (nextRows n) := by
  induction n with
  | zero => trivial
  | succ n ih => exact ⟨by decide, legible_row ih⟩

set_option maxRecDepth 4000 in
theorem Site.legible (s : Site) : Legible unescapeByte s.parts := by
  cases s with
  | insertBatch rows =>
      cases rows with
      | zero => decide
      | succ n =>
          have hstart : (scan unescapeByte .between (Site.insertBatch 0).start).map (·.2) = some .between := by
            decide
          exact ⟨hstart, legible_row (legible_nextRows n)⟩
  | _ => decide

theorem fits_nextRows (ms : List DBChatMessage) : Fits (nextRows ms.length) (ms.flatMap rowValues) := by
  induction ms with
  | nil => rfl
  | cons m ms ih => exact ih

theorem Query.fits (q : Query) : Fits q.site.parts q.values := by
  cases q with
  | insertBatch batch =>
      cases batch with
      | nil => rfl
      | cons m ms => exact fits_nextRows ms
  | _ => rfl

theorem avoid_nextRows (n : ℕ) : Avoid 0 (nextRows n) := by
  have hrow : Avoid 0 (.text (bytes ",") :: rowParts) := by decide
  induction n with
  | zero => exact fun p hp => (List.not_mem_nil hp).elim
  | succ n ih => exact hrow.append ih

theorem Site.avoid (s : Site) : Avoid 0 s.parts := by
  cases s with
  | insertBatch rows =>
      have hrow : Avoid 0 (.text (Site.insertBatch 0).start :: rowParts) := by decide
      cases rows with
      | zero => decide
      | succ n => exact hrow.append (avoid_nextRows n)
  | _ => decide

theorem rowText_append (hzero : ∀ b, (0 : UInt8) ∉ escape b) (m : DBChatMessage) (ps : List Piece)
    (vs : List Value) :
    rowText escape m ++ render escape ps vs = render escape (rowParts ++ ps) (rowValues m ++ vs) := by
  have hopen : bytes ",'" = bytes "," ++ [Lexer.quote] := by decide
  have hclose : bytes "'," = [Lexer.quote] ++ bytes "," := by decide
  have hflag : (if m.delivered then bytes "1" else bytes "0") = numeral (if m.delivered then 1 else 0) := by
    cases m.delivered <;> decide
  have hliteral := literal_append hzero [] m.content []
  simp only [List.append_nil] at hliteral
  rw [rowText, hopen, hclose, hflag]
  simp only [rowParts, rowValues, List.cons_append, List.nil_append, render, ← hliteral, toStringBytes_eq,
    List.append_assoc]

theorem rowTexts_eq (hzero : ∀ b, (0 : UInt8) ∉ escape b) (m : DBChatMessage) (ms : List DBChatMessage) :
    rowTexts escape (m :: ms) =
      render escape (rowParts ++ nextRows ms.length) ((m :: ms).flatMap rowValues) := by
  have hnext : ∀ ms : List DBChatMessage, (ms.flatMap fun m => bytes "," ++ rowText escape m) =
      render escape (nextRows ms.length) (ms.flatMap rowValues) := by
    intro ms
    induction ms with
    | nil => rfl
    | cons m ms ih =>
        rw [List.flatMap_cons, ih, List.append_assoc, rowText_append hzero]
        rfl
  rw [rowTexts, hnext, rowText_append hzero]
  rfl

set_option maxRecDepth 2000 in
/-- Every statement is its texts with the values between them. -/
theorem Query.text_eq (hzero : ∀ b, (0 : UInt8) ∉ escape b) (q : Query) :
    q.text escape = render escape q.site.parts q.values := by
  have hquote : bytes "'" = [Lexer.quote] := by decide
  have huser : bytes "SELECT uid FROM users WHERE username='" =
      Site.start .registerCheck ++ [Lexer.quote] := by decide
  cases q with
  | registerCheck username =>
      simp only [text, huser, hquote, site, Site.parts, Site.rest, values, render, ← literal_append hzero,
        List.append_assoc, List.append_nil]
  | verifyLogin username password =>
      have hand : bytes "' AND password_hash=SHA2('" =
          [Lexer.quote] ++ (bytes " AND password_hash=SHA2(" ++ [Lexer.quote]) := by decide
      have hend : bytes "',256)" = [Lexer.quote] ++ bytes ",256)" := by decide
      have hstart : Site.start .registerCheck = Site.start .verifyLogin := rfl
      simp only [text, huser, hand, hend, hstart, site, Site.parts, Site.rest, values, render,
        ← literal_append hzero, List.append_assoc, List.append_nil]
  | registerInsert username password =>
      have hstart : bytes "INSERT INTO users (username,password_hash) VALUES ('" =
          Site.start .registerInsert ++ [Lexer.quote] := by decide
      have hsha : bytes "',SHA2('" = [Lexer.quote] ++ (bytes ",SHA2(" ++ [Lexer.quote]) := by decide
      have hend : bytes "',256))" = [Lexer.quote] ++ bytes ",256))" := by decide
      simp only [text, hstart, hsha, hend, site, Site.parts, Site.rest, values, render, ← literal_append hzero,
        List.append_assoc, List.append_nil]
  | searchUsers keyword =>
      have hstart : bytes "SELECT uid,username FROM users WHERE username LIKE '%" =
          Site.start .searchUsers ++ ([Lexer.quote] ++ bytes "%") := by decide
      have hend : bytes "%' LIMIT 20" = bytes "%" ++ ([Lexer.quote] ++ bytes " LIMIT 20") := by decide
      simp only [text, hstart, hend, site, Site.parts, Site.rest, values, render, ← literal_append hzero,
        List.append_assoc, List.append_nil]
  | addFriendInsert fromUid toUid msg =>
      have hopen : bytes ",'" = bytes "," ++ [Lexer.quote] := by decide
      have hend : bytes "')" = [Lexer.quote] ++ bytes ")" := by decide
      simp only [text, hopen, hend, site, Site.parts, Site.start, Site.rest, values, render,
        ← literal_append hzero, toStringBytes_eq, List.append_assoc, List.append_nil]
  | insertBatch batch =>
      cases batch with
      | nil => rfl
      | cons m ms => exact congrArg (Site.start (.insertBatch 0) ++ ·) (rowTexts_eq hzero m ms)
  | _ =>
      simp only [text, site, Site.parts, Site.start, Site.rest, values, render, toStringBytes_eq,
        List.append_assoc, List.append_nil]

/-! ## Different statements -/

theorem clash_rows {n m : ℕ} (h : n ≠ m) :
    Clash unescapeByte (nextRows n) (nextRows m) := by
  have hcomma : fixed unescapeByte (bytes ",") ≠ [] := by decide
  induction n generalizing m with
  | zero =>
      cases m with
      | zero => exact absurd rfl h
      | succ m => exact hcomma
  | succ n ih =>
      cases m with
      | zero => exact hcomma
      | succ m => exact (ih fun e => h (congrArg Nat.succ e)).append_left (.text (bytes ",") :: rowParts)

theorem clash_batches {n m : ℕ} (h : n ≠ m) :
    Clash unescapeByte (Site.insertBatch n).parts (Site.insertBatch m).parts := by
  have hopen : fixed unescapeByte (bytes "(") ≠ [] := by decide
  refine ⟨rfl, ?_⟩
  cases n with
  | zero =>
      cases m with
      | zero => exact absurd rfl h
      | succ m => exact hopen
  | succ n =>
      cases m with
      | zero => exact hopen
      | succ m => exact (clash_rows fun e => h (congrArg Nat.succ e)).append_left rowParts

set_option maxRecDepth 2000 in
/-- Two places of the source write different statements: most of them start differently. -/
theorem Site.differ (s t : Site) :
    s = t ∨ Apart s.start t.start ∨ Clash unescapeByte s.parts t.parts := by
  have hand : fixed unescapeByte (bytes " AND password_hash=SHA2(") ≠ [] := by decide
  cases s with
  | insertBatch n =>
      cases t with
      | insertBatch m =>
          by_cases h : n = m
          · exact .inl (congrArg _ h)
          · exact .inr (.inr (clash_batches h))
      | _ => exact .inr (.inl (show Apart (Site.insertBatch 0).start _ by decide))
  | _ =>
      cases t with
      | insertBatch m => exact .inr (.inl (show Apart _ (Site.insertBatch 0).start by decide))
      | _ =>
          first
          | exact .inl rfl
          | exact .inr (.inl (by decide))
          | exact .inr (.inr ⟨rfl, hand⟩)

theorem Query.lex_text (hundo : Undoes unescapeByte escape) (hzero : ∀ b, (0 : UInt8) ∉ escape b) (q : Query) :
    lex unescapeByte (q.text escape) = some (fill unescapeByte q.site.parts q.values) := by
  rw [q.text_eq hzero]
  exact lex_render hundo _ q.site.legible _ q.fits

theorem Query.text_inj (hundo : Undoes unescapeByte escape) (hzero : ∀ b, (0 : UInt8) ∉ escape b) {q q' : Query}
    (h : q.text escape = q'.text escape) : q.site = q'.site ∧ q.values = q'.values := by
  have hfill : fill unescapeByte q.site.parts q.values = fill unescapeByte q'.site.parts q'.values :=
    Option.some.inj ((q.lex_text hundo hzero).symm.trans ((congrArg _ h).trans (q'.lex_text hundo hzero)))
  rcases Site.differ q.site q'.site with hsite | hapart | hclash
  · have hfits := q.fits
    rw [hsite] at hfill hfits
    exact ⟨hsite, fill_inj _ hfits q'.fits hfill⟩
  · rw [q.text_eq hzero, q'.text_eq hzero] at h
    exact absurd h (hapart.render_ne _ _ _ _)
  · exact absurd hfill (fill_ne_of_clash _ hclash q.fits q'.fits)

/-! ## The statements of the handle and of the search -/

theorem bytes_inj {s t : String} : bytes s = bytes t ↔ s = t := by
  refine ⟨fun h => Option.some.inj ?_, congrArg bytes⟩
  rw [← Json.asString_utf8 s, ← Json.asString_utf8 t]
  exact congrArg (fun b => Json.asString (.str b)) h

theorem rowsOf_eq_of_values {ms ms' : List DBChatMessage} (h : ms.flatMap rowValues = ms'.flatMap rowValues) :
    ∀ next : Int, Store.rowsOf next ms = Store.rowsOf next ms' := by
  induction ms generalizing ms' with
  | nil =>
      cases ms' with
      | nil => exact fun _ => rfl
      | cons m' ms' => cases h
  | cons m ms ih =>
      cases ms' with
      | nil => cases h
      | cons m' ms' =>
          intro next
          simp only [List.flatMap_cons, rowValues, List.cons_append, List.nil_append, List.cons.injEq,
            Value.number.injEq, Value.string.injEq] at h
          obtain ⟨hfrom, hto, hcontent, hflag, hrest⟩ := h
          have hdelivered : m.delivered = m'.delivered := by
            cases hm : m.delivered <;> cases hm' : m'.delivered <;> simp_all
          rw [Store.rowsOf, Store.rowsOf, hfrom, hto, hcontent, hdelivered, ih hrest]

/-- What the server does for a statement depends on the text alone. -/
theorem exec_eq_of_text (hundo : Undoes unescapeByte escape) (hzero : ∀ b, (0 : UInt8) ∉ escape b) (sql : Sql)
    {s s' : Statement} {q q' : Query} (hq : s.query = some q) (hq' : s'.query = some q')
    (h : q.text escape = q'.text escape) : s.exec sql = s'.exec sql := by
  obtain ⟨hsite, hvalues⟩ := Query.text_inj hundo hzero h
  -- only statements from one place are left
  cases s <;> cases s' <;> simp only [Statement.query, Option.some.injEq, reduceCtorEq] at hq hq' <;>
    subst hq hq' <;> simp only [Query.site, reduceCtorEq, Site.insertBatch.injEq] at hsite
  case insertMessages.insertMessages batch batch' =>
      funext db
      simp only [Statement.exec, hsite, rowsOf_eq_of_values hvalues]
  all_goals
    simp only [Query.values, List.cons.injEq, Value.string.injEq, Value.number.injEq, bytes_inj,
      and_true] at hvalues
  all_goals simp only [hvalues]

theorem bytes_append₃ (s t u : String) : bytes (s ++ t ++ u) = bytes s ++ bytes t ++ bytes u := by
  rw [bytes, toUTF8_append, toUTF8_append]
  rfl

theorem bytes_ofList (cs : List Char) : bytes (String.ofList cs) = cs.flatMap String.utf8EncodeChar := by
  rw [bytes, String.toUTF8_eq_toByteArray, String.toByteArray_ofList, List.utf8Encode, toByteArray_eq]

theorem escapeByte_of_le {b : UInt8} (h : 0x80 ≤ b) : escapeByte b = [b] := by
  have hne : ∀ d : UInt8, d < 0x80 → b ≠ d := fun d hd e => absurd (e ▸ h) (UInt8.not_le.mpr hd)
  rw [escapeByte, if_neg (hne _ (by decide)), if_neg (hne _ (by decide)), if_neg (hne _ (by decide)),
    if_neg (hne _ (by decide)), if_neg (hne _ (by decide)), if_neg (hne _ (by decide)),
    if_neg (hne _ (by decide))]

/-- The escaped characters and the escaped bytes of a character. -/
theorem flatMap_escapeChar (c : Char) :
    (escapeChar c).flatMap String.utf8EncodeChar = (String.utf8EncodeChar c).flatMap escapeByte := by
  rcases utf8EncodeChar_cases c with ⟨hascii, -⟩ | hhigh
  · have h : ∀ n < 0x80, (escapeChar (Char.ofNat n)).flatMap String.utf8EncodeChar =
        (String.utf8EncodeChar (Char.ofNat n)).flatMap escapeByte := by decide
    have hc := h c.toNat hascii
    rwa [Char.ofNat_toNat] at hc
  · have hne : ∀ d : Char, (∃ b ∈ String.utf8EncodeChar d, b < 0x80) → c ≠ d := by
      rintro d ⟨b, hb, hlt⟩ rfl
      exact absurd (hhigh b hb) (UInt8.not_le.mpr hlt)
    have hc : escapeChar c = [c] := by
      rw [escapeChar, if_neg (hne _ (by decide)), if_neg (hne _ (by decide)), if_neg (hne _ (by decide)),
        if_neg (hne _ (by decide)), if_neg (hne _ (by decide)), if_neg (hne _ (by decide)),
        if_neg (hne _ (by decide))]
    rw [hc, List.flatMap_singleton]
    calc String.utf8EncodeChar c
      _ = (String.utf8EncodeChar c).flatMap fun b => [b] := (List.flatMap_singleton' _).symm
      _ = (String.utf8EncodeChar c).flatMap escapeByte :=
          List.flatMap_congr fun b hb => (escapeByte_of_le (hhigh b hb)).symm

theorem bytes_esc (s : String) : bytes (esc s) = escBytes escapeByte (bytes s) := by
  have hesc : esc s = String.ofList (s.toList.flatMap escapeChar) := by rw [← toList_esc, String.ofList_toList]
  have hs : bytes s = s.toList.flatMap String.utf8EncodeChar := by rw [← bytes_ofList, String.ofList_toList]
  rw [hesc, bytes_ofList, escBytes_eq zero_not_mem_escapeByte, hs, List.flatMap_assoc, List.flatMap_assoc]
  exact List.flatMap_congr fun c _ => flatMap_escapeChar c

theorem bytes_searchSql (keyword : String) :
    bytes (searchSql keyword) = (Query.searchUsers keyword).text escapeByte :=
  calc bytes (searchSql keyword)
    _ = bytes "SELECT uid,username FROM users WHERE username LIKE '%" ++ bytes (esc keyword) ++
        bytes "%' LIMIT 20" := bytes_append₃ _ _ _
    _ = (Query.searchUsers keyword).text escapeByte := by rw [bytes_esc, Query.text]

/-- **No injection**, for every escaping that MySQL undoes in a literal and that leaves no zero byte. Whatever
strings and numbers a statement is made from, `mysql_query` gets all of its text, MySQL reads the tokens of the
fixed texts with each string as one literal and each number as a number between them, and no other statement
has the same text. -/
theorem no_injection (hundo : Undoes unescapeByte escape) (hzero : ∀ b, (0 : UInt8) ∉ escape b) (q : Query) :
    cBytes (q.text escape) = q.text escape ∧
      lex unescapeByte (q.text escape) = some (fill unescapeByte q.site.parts q.values) ∧
      ∀ q' : Query, q.text escape = q'.text escape ↔ q.site = q'.site ∧ q.values = q'.values := by
  have hnone : (0 : UInt8) ∉ q.text escape := by
    rw [q.text_eq hzero]
    exact not_mem_render (by decide) (by decide) (by decide) hzero _ q.site.avoid _
  refine ⟨?_, q.lex_text hundo hzero, fun q' => ⟨Query.text_inj hundo hzero, fun h => ?_⟩⟩
  · exact List.takeWhile_eq_self_iff.mpr fun b hb => decide_eq_true fun e => hnone (e ▸ hb)
  · obtain ⟨hsite, hvalues⟩ := h
    rw [q.text_eq hzero, q'.text_eq hzero, hsite, hvalues]

/-- A user name that closes the string of a login. -/
theorem no_injection_quote :
    lex unescapeByte ((Query.verifyLogin "a' OR '1'='1" "p").text escapeByte) =
      some (fill unescapeByte (Site.verifyLogin).parts
        [.string (bytes "a' OR '1'='1"), .string (bytes "p")]) :=
  (no_injection undoes_escapeByte zero_not_mem_escapeByte (.verifyLogin "a' OR '1'='1" "p")).2.1

end Mysql

end AuraChat
