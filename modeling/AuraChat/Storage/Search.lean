import AuraChat.Model.Search
import Mathlib.Data.ENat.Basic
import Mathlib.Data.List.TakeWhile

set_option autoImplicit false

/-!
# The user search of the two backends

Read as a string literal, an escaped keyword is the keyword again. Read as a pattern, it is a word only if no
character of it is `%`, `_` or a backslash.

* `stringLiteral_escaped`, **`searchUsers_mysql`**: the rows that MySQL finds;
* `searchUsers_file`: the users that the file branch finds;
* `shortestName`: the shortest match of a keyword, in which only a plain keyword is found;
* **`searches_agree_iff`**: the keywords for which the two are the same.
-/

namespace AuraChat

open Mysql

variable {k rest : List Char} {c : Char}

/-! ## The string literal -/

theorem stringLiteral_escapeChar (c : Char) (rest : List Char) :
    stringLiteral (escapeChar c ++ rest) = (stringLiteral rest).map fun r => (c :: r.1, r.2) := by
  by_cases h0 : c = nul
  · subst h0; rfl
  by_cases hn : c = '\n'
  · subst hn; rfl
  by_cases hr : c = '\r'
  · subst hr; rfl
  by_cases hb : c = '\\'
  · subst hb; rfl
  by_cases hq : c = quote
  · subst hq; rfl
  by_cases hd : c = doubleQuote
  · subst hd; rfl
  by_cases hz : c = ctrlZ
  · subst hz; rfl
  have hc : escapeChar c = [c] := by simp only [escapeChar, h0, hn, hr, hb, hq, hd, hz, if_false]
  rw [hc, List.singleton_append]
  cases rest with
  | nil => simp only [stringLiteral, hq, if_false, Option.map_none]
  | cons c' s => simp only [stringLiteral, hb, hq, if_false]

theorem stringLiteral_escaped (k rest : List Char) :
    stringLiteral (k.flatMap escapeChar ++ rest) = (stringLiteral rest).map fun r => (k ++ r.1, r.2) := by
  induction k with
  | nil => simp
  | cons c k ih =>
      rw [List.flatMap_cons, List.append_assoc, stringLiteral_escapeChar, ih, Option.map_map]
      rfl

theorem nul_not_mem_escapeChar (c : Char) : nul ∉ escapeChar c := by
  rw [escapeChar]
  split_ifs with h0 <;> simp_all [nul, quote, doubleQuote, eq_comm]

theorem cString_of_not_mem {s : String} (h : nul ∉ s.toList) : cString s = s := by
  rw [cString, List.takeWhile_eq_self_iff.mpr, String.ofList_toList]
  intro c hc
  exact decide_eq_true fun he : c = nul => h (he ▸ hc)

theorem toList_esc (s : String) : (esc s).toList = s.toList.flatMap escapeChar := by
  rw [esc, cString_of_not_mem, String.toList_ofList]
  rw [String.toList_ofList, List.mem_flatMap]
  rintro ⟨c, -, hc⟩
  exact nul_not_mem_escapeChar c hc

/-- The keyword between two wildcards. -/
def searchPattern (keyword : String) : List Char := '%' :: (keyword.toList ++ ['%'])

theorem toList_append₃ (a b c : String) : (a ++ b ++ c).toList = a.toList ++ b.toList ++ c.toList := by
  rw [String.toList_append, String.toList_append]

theorem toList_searchSql (keyword : String) :
    (searchSql keyword).toList =
      selectLike ++ '%' :: (keyword.toList.flatMap escapeChar ++ '%' :: quote :: limit20) := by
  have hbefore : "SELECT uid,username FROM users WHERE username LIKE '%".toList = selectLike ++ ['%'] := by
    decide
  have hafter : "%' LIMIT 20".toList = '%' :: quote :: limit20 := by decide
  calc (searchSql keyword).toList
    _ = "SELECT uid,username FROM users WHERE username LIKE '%".toList ++ (esc keyword).toList ++
        "%' LIMIT 20".toList := toList_append₃ _ _ _
    _ = selectLike ++ ['%'] ++ (esc keyword).toList ++ '%' :: quote :: limit20 :=
        congrArg₂ (fun before after => before ++ (esc keyword).toList ++ after) hbefore hafter
    _ = _ := by
        rw [toList_esc]
        simp only [List.append_assoc, List.cons_append, List.nil_append]

theorem stringLiteral_searchSql (keyword : String) :
    stringLiteral ('%' :: (keyword.toList.flatMap escapeChar ++ '%' :: quote :: limit20)) =
      some (searchPattern keyword, limit20) := by
  have hpercent : ∀ rest, stringLiteral ('%' :: rest) = (stringLiteral rest).map fun r => ('%' :: r.1, r.2) :=
    stringLiteral_escapeChar '%'
  rw [hpercent, stringLiteral_escaped, hpercent]
  rfl

/-- **The rows that MySQL finds**: the pattern is the keyword between two wildcards. -/
theorem searchUsers_mysql (users : List FileUser) (keyword : String) :
    searchUsers (execSearch users) keyword =
      ((users.filter fun u => like (searchPattern keyword) u.username).take 20).map
        fun u => (u.uid, cString u.username) := by
  have hnul : nul ∉ (searchSql keyword).toList := by
    have hends : nul ∉ selectLike ∧ nul ∉ '%' :: quote :: limit20 := by decide
    rw [toList_searchSql]
    simp only [List.mem_append, List.mem_cons, List.mem_flatMap, not_or]
    refine ⟨hends.1, by decide, fun ⟨c, _, hc⟩ => nul_not_mem_escapeChar c hc, ?_⟩
    simpa only [List.mem_cons, not_or] using hends.2
  have hexec : execSearch users (searchSql keyword) =
      some (((users.filter fun u => like (searchPattern keyword) u.username).take 20).map
        fun u => (u.uid, u.username)) := by
    rw [execSearch, toList_searchSql, if_pos (List.prefix_append _ _), List.drop_left,
      stringLiteral_searchSql]
    exact if_pos rfl
  rw [searchUsers, cString_of_not_mem hnul, hexec]
  simp only [List.map_map]
  rfl

/-! ## The pattern -/

theorem forall₂_sameLetter {t : List Char} :
    List.Forall₂ (fun c x => sameLetter c x = true) k t ↔ k.map Char.toLower = t.map Char.toLower := by
  rw [← List.forall₂_eq_eq_eq, List.forall₂_map_left_iff, List.forall₂_map_right_iff]
  simp only [sameLetter, beq_iff_eq]

theorem like_plain {keyword : String} (h : Like.Plain keyword.toList) (name : String) :
    like (searchPattern keyword) name = true ↔ Store.toLower keyword <:+: Store.toLower name := by
  rw [like, searchPattern, Like.parse, Like.parse_plain h]
  refine (Like.accepts_infix _).trans ?_
  rw [Store.toLower, Store.toLower, List.infix_map_iff]
  simp only [forall₂_sameLetter]

/-! ## The shortest name -/

/-- The tokens of a keyword and the wildcard behind it. -/
def keywordTokens (k : List Char) : List (Like.Token Char) := Like.parse (k ++ ['%'])

/-- The shortest match of a keyword. -/
def shortestName (k : List Char) : List Char := Like.shortest 'x' (keywordTokens k)

theorem shortestName_cons (h : c ≠ '%' ∧ c ≠ '_' ∧ c ≠ '\\') :
    shortestName (c :: k) = c :: shortestName k := by
  rw [shortestName, keywordTokens, List.cons_append, Like.parse_cons h]
  rfl

theorem length_shortestName_le (k : List Char) : (shortestName k).length ≤ k.length := by
  induction k using Like.parse_cases with
  | nil | last => exact Nat.le_refl _
  | all p ih => exact Nat.le_succ_of_le ih
  | any p ih => exact Nat.succ_le_succ ih
  | escaped c p ih => exact Nat.le_succ_of_le (Nat.succ_le_succ ih)
  | one c p hc ih =>
      rw [shortestName_cons hc]
      exact Nat.succ_le_succ ih

/-- A keyword with another character is not the same as its shortest match, which is shorter or has another
character at its place. -/
theorem plain_of_shortestName (h : k.map Char.toLower = (shortestName k).map Char.toLower) :
    Like.Plain k := by
  have hlen := congrArg List.length h
  rw [List.length_map, List.length_map] at hlen
  induction k using Like.parse_cases with
  | nil => exact fun c hc => absurd hc List.not_mem_nil
  | all p ih =>
      have hshort : (shortestName ('%' :: p)).length = (shortestName p).length := rfl
      have hle := length_shortestName_le p
      rw [List.length_cons] at hlen
      omega
  | any p ih => exact absurd (List.cons.inj h).1 (by decide)
  | last => exact absurd (List.cons.inj h).1 (by decide)
  | escaped c p ih =>
      have hshort : (shortestName ('\\' :: c :: p)).length = (shortestName p).length + 1 := rfl
      have hle := length_shortestName_le p
      rw [List.length_cons, List.length_cons] at hlen
      omega
  | one c p hc ih =>
      rw [shortestName_cons hc] at h hlen
      exact List.forall_mem_cons.mpr ⟨hc, ih (List.cons.inj h).2 (Nat.succ.inj hlen)⟩

theorem mem_shortestName (h : c ∈ shortestName k) : c = 'x' ∨ c ∈ k ∨ c = '%' := by
  have htoken : ∀ p : List Char, .one c ∈ Like.parse p → c ∈ p := by
    intro p hmem
    induction p using Like.parse_cases with
    | nil => cases hmem
    | all p ih | any p ih =>
        refine List.mem_cons_of_mem _ (ih ?_)
        cases hmem with
        | tail _ hmem => exact hmem
    | last =>
        cases hmem with
        | head => exact List.mem_cons_self
        | tail _ hmem => cases hmem
    | escaped c' p ih =>
        cases hmem with
        | head => simp
        | tail _ hmem => simp [ih hmem]
    | one c' p hc ih =>
        rw [Like.parse_cons hc] at hmem
        cases hmem with
        | head => exact List.mem_cons_self
        | tail _ hmem => exact List.mem_cons_of_mem _ (ih hmem)
  refine (Like.mem_shortest h).imp id fun hmem => ?_
  simpa using htoken _ hmem

/-! ## The file branch -/

theorem searchLoop_eq (keyword : String) (users : List FileUser) (acc : List (Int × String))
    (h : acc.length + users.length ≤ 20) :
    Store.searchLoop keyword users acc =
      acc ++ (users.filter fun u => Store.toLower keyword <:+: Store.toLower u.username).map
        fun u => (u.uid, u.username) := by
  induction users generalizing acc with
  | nil => exact (List.append_nil acc).symm
  | cons u users ih =>
      rw [List.length_cons] at h
      have hlast : ∀ acc' : List (Int × String), acc'.length ≤ acc.length + 1 → 20 ≤ acc'.length →
          users = [] := fun acc' hle h20 => List.eq_nil_of_length_eq_zero (by omega)
      rw [Store.searchLoop]
      by_cases hfind : Store.toLower keyword <:+: Store.toLower u.username
      · rw [if_pos hfind, List.filter_cons_of_pos (by simpa using hfind), List.map_cons]
        by_cases h20 : 20 ≤ (acc ++ [(u.uid, u.username)]).length
        · rw [if_pos h20, hlast _ (by simp) h20]
          rfl
        · rw [if_neg h20, ih _ (by simp; omega), List.append_assoc]
          rfl
      · rw [if_neg hfind, List.filter_cons_of_neg (by simpa using hfind)]
        by_cases h20 : 20 ≤ acc.length
        · rw [if_pos h20, hlast _ (by simp) h20]
          exact (List.append_nil acc).symm
        · rw [if_neg h20, ih _ (by omega)]

theorem searchUsers_file {st : Store} (h : st.users.length ≤ 20) (keyword : String) :
    st.searchUsers keyword =
      (st.users.filter fun u => Store.toLower keyword <:+: Store.toLower u.username).map
        fun u => (u.uid, u.username) := by
  rw [Store.searchUsers, searchLoop_eq _ _ _ (by simpa using h)]
  rfl

/-! ## The agreement -/

def Ascii (s : String) : Prop := ∀ c ∈ s.toList, c.toNat < 128

instance : DecidablePred Ascii := fun s => List.decidableBAll (fun c : Char => c.toNat < 128) s.toList

/-- A user with an ASCII name of one to `n` characters. -/
structure FileUser.Registered (n : ℕ∞) (u : FileUser) : Prop where
  ascii : Ascii u.username
  pos : 1 ≤ u.username.toList.length
  le : (u.username.toList.length : ℕ∞) ≤ n

/-- The two backends find the same users of every table of at most 20. -/
def SearchesAgree (n : ℕ∞) (keyword : String) : Prop :=
  ∀ st : Store, st.users.length ≤ 20 → (∀ u ∈ st.users, u.Registered n) →
    ((st.searchUsers keyword).map Prod.fst).Perm
      ((searchUsers (execSearch st.users) keyword).map Prod.fst)

theorem perm_of_filter_eq {st : Store} {keyword : String} (h20 : st.users.length ≤ 20)
    (h : ∀ u ∈ st.users, Store.toLower keyword <:+: Store.toLower u.username ↔
      like (searchPattern keyword) u.username = true) :
    ((st.searchUsers keyword).map Prod.fst).Perm
      ((searchUsers (execSearch st.users) keyword).map Prod.fst) := by
  have hfilter : (st.users.filter fun u => Store.toLower keyword <:+: Store.toLower u.username) =
      st.users.filter fun u => like (searchPattern keyword) u.username :=
    List.filter_congr fun u hu => by
      rw [Bool.eq_iff_iff, decide_eq_true_iff]
      exact h u hu
  rw [searchUsers_file h20, searchUsers_mysql, hfilter,
    List.take_of_length_le ((List.length_filter_le _ _).trans h20), List.map_map, List.map_map]
  rfl

/-- The shortest name that the pattern of a keyword matches. -/
def shortestMatch (keyword : String) : List Char :=
  if shortestName keyword.toList = [] then ['x'] else shortestName keyword.toList

theorem length_shortestMatch (keyword : String) :
    (shortestMatch keyword).length = max 1 (Like.minLength (keywordTokens keyword.toList)) := by
  have hlen : (shortestName keyword.toList).length = Like.minLength (keywordTokens keyword.toList) :=
    Like.length_shortest _ _
  rw [shortestMatch, ← hlen]
  by_cases h : shortestName keyword.toList = []
  · rw [if_pos h, h]
    rfl
  · rw [if_neg h]
    exact (max_eq_right (List.length_pos_iff.mpr h)).symm

theorem ascii_shortestMatch {keyword : String} (hk : Ascii keyword) :
    Ascii (String.ofList (shortestMatch keyword)) := by
  intro c hc
  rw [String.toList_ofList, shortestMatch] at hc
  have hmem : c = 'x' ∨ c ∈ keyword.toList ∨ c = '%' := by
    by_cases h : shortestName keyword.toList = []
    · rw [if_pos h] at hc
      exact .inl (List.mem_singleton.mp hc)
    · rw [if_neg h] at hc
      exact mem_shortestName hc
  obtain rfl | hc | rfl := hmem
  · decide
  · exact hk c hc
  · decide

theorem sameLetter_self (c : Char) : sameLetter c c = true := beq_self_eq_true _

theorem like_shortestMatch (keyword : String) :
    like (searchPattern keyword) (String.ofList (shortestMatch keyword)) = true := by
  have hmatch : Like.accepts sameLetter (keywordTokens keyword.toList) (shortestName keyword.toList) = true :=
    Like.accepts_shortest sameLetter_self _ _
  rw [like, String.toList_ofList]
  refine Like.accepts_all.mpr ⟨shortestName keyword.toList, ?_, hmatch⟩
  rw [shortestMatch]
  by_cases h : shortestName keyword.toList = []
  · rw [if_pos h, h]
    exact List.nil_suffix
  · rw [if_neg h]

/-- A keyword that is found in the shortest match of its pattern is plain. -/
theorem plain_of_infix {keyword : String}
    (h : Store.toLower keyword <:+: (shortestMatch keyword).map Char.toLower) :
    Like.Plain keyword.toList := by
  by_cases hnil : shortestName keyword.toList = []
  · -- every character of the keyword is an x
    rw [shortestMatch, if_pos hnil] at h
    intro c hc
    have hx : c.toLower = 'x' := by simpa using h.subset (List.mem_map_of_mem hc)
    refine ⟨?_, ?_, ?_⟩ <;> rintro rfl <;> exact absurd hx (by decide)
  · rw [shortestMatch, if_neg hnil] at h
    have hlen := h.length_le
    have hle := length_shortestName_le keyword.toList
    rw [Store.toLower, List.length_map, List.length_map] at hlen
    refine plain_of_shortestName (h.eq_of_length ?_)
    rw [Store.toLower, List.length_map, List.length_map]
    omega

/-- Neither backend finds a name that is shorter than every match of the pattern. -/
theorem neither_finds {keyword name : String} (hpos : 1 ≤ name.toList.length)
    (hshort : name.toList.length < (shortestMatch keyword).length) :
    Store.toLower keyword <:+: Store.toLower name ↔ like (searchPattern keyword) name = true := by
  have hname : (shortestName keyword.toList).length = Like.minLength (keywordTokens keyword.toList) :=
    Like.length_shortest _ _
  rw [length_shortestMatch] at hshort
  refine iff_of_false (fun hfind => ?_) (fun hlike => ?_)
  · have hlen := hfind.length_le
    have hkey := length_shortestName_le keyword.toList
    rw [Store.toLower, Store.toLower, List.length_map, List.length_map] at hlen
    omega
  · obtain ⟨t, hsuf, ht⟩ := Like.accepts_all.mp hlike
    have hmin : Like.minLength (keywordTokens keyword.toList) ≤ t.length := Like.minLength_le ht
    have hlen := hsuf.length_le
    omega

/-- **The backends agree on the keywords without wildcards.** For an ASCII keyword, the two backends find the
same users of every table of at most 20 users with ASCII names, of one to `n` characters, exactly if the
keyword contains none of `%`, `_` and backslash, or the names are all shorter than those that its pattern
matches. -/
theorem searches_agree_iff (n : ℕ∞) {keyword : String} (hk : Ascii keyword) :
    SearchesAgree n keyword ↔ Like.Plain keyword.toList ∨
      n < (max 1 (Like.minLength (keywordTokens keyword.toList)) : ℕ) := by
  rw [← length_shortestMatch]
  constructor
  · intro hagree
    by_cases hn : n < (shortestMatch keyword).length
    · exact .inr hn
    -- the only user has the shortest name that the pattern matches
    left
    let u : FileUser := ⟨1000, String.ofList (shortestMatch keyword), ""⟩
    let st : Store := { users := [u] }
    have hu : u.Registered n := by
      refine ⟨ascii_shortestMatch hk, ?_, ?_⟩
      · rw [String.toList_ofList, length_shortestMatch]
        exact le_max_left _ _
      · rw [String.toList_ofList]
        exact not_lt.mp hn
    have h20 : st.users.length ≤ 20 := (by decide : 1 ≤ 20)
    have hsame := hagree st h20 (List.forall_mem_singleton.mpr hu)
    have hlike : like (searchPattern keyword) u.username = true := like_shortestMatch keyword
    rw [searchUsers_file h20, searchUsers_mysql] at hsame
    have hlen := hsame.length_eq
    by_cases hfind : Store.toLower keyword <:+: Store.toLower u.username
    · refine plain_of_infix ?_
      rwa [Store.toLower, Store.toLower, String.toList_ofList] at hfind
    · simp [st, hlike, hfind] at hlen
  · rintro (hplain | hn) st h20 hst
    · exact perm_of_filter_eq h20 fun u _ => (like_plain hplain u.username).symm
    · refine perm_of_filter_eq h20 fun u hu => ?_
      apply neither_finds (hst u hu).pos
      have hlt := lt_of_le_of_lt (hst u hu).le hn
      exact Nat.cast_lt.mp hlt

/-- The names that MySQL stores have at most 64 characters. The keyword `_` finds a user there who has another
name. -/
theorem searches_agree_sample : SearchesAgree 64 "ann" ∧ ¬ SearchesAgree 64 "_" := by
  refine ⟨(searches_agree_iff 64 (by decide)).mpr (.inl (by decide)), fun h => ?_⟩
  obtain hplain | hlong := (searches_agree_iff 64 (by decide)).mp h
  · exact absurd hplain (by decide)
  · have hone : max 1 (Like.minLength (keywordTokens "_".toList)) = 1 := by decide
    rw [hone] at hlong
    exact absurd hlong (by decide)

/-- The search for `_` finds the user `ab` in MySQL mode only. -/
theorem searches_disagree : ¬ ∀ keyword, Ascii keyword → SearchesAgree ⊤ keyword := by
  intro h
  let st : Store := { users := [⟨1000, "ab", ""⟩] }
  have hu : ∀ u ∈ st.users, u.Registered ⊤ :=
    List.forall_mem_singleton.mpr ⟨by decide, by decide, le_top⟩
  have hperm := h "_" (by decide) st (by decide) hu
  have hfile : st.searchUsers "_" = [] := by decide
  have hmysql : searchUsers (execSearch st.users) "_" = [(1000, "ab")] := by
    rw [searchUsers_mysql]
    decide
  rw [hfile, hmysql] at hperm
  exact absurd hperm.length_eq (by decide)

end AuraChat
