import Mathlib.Data.List.Infix
import Mathlib.Data.List.Forall2

set_option autoImplicit false

/-!
# Patterns with wildcards

A pattern of the SQL operator `LIKE` is a list of tokens: a character, any one character, or any sequence.

* `Token`, `parse`: the tokens of a pattern that is written with `%`, `_` and a backslash to escape;
* `Plain`, `parse_plain`: the words in which every character stands for itself;
* `accepts`: the matcher, for a comparison of characters;
* **`accepts_infix`**: the pattern of a word between two sequences is the search for the word;
* `minLength`, `minLength_le`, `accepts_shortest`: the length of the shortest match.
-/

namespace Like

inductive Token (α : Type)
  | one (c : α)
  | any
  | all
  deriving DecidableEq, Repr

/-- The tokens of a pattern. A backslash at the end stands for itself. -/
def parse : List Char → List (Token Char)
  | [] => []
  | '%' :: p => .all :: parse p
  | '_' :: p => .any :: parse p
  | ['\\'] => [.one '\\']
  | '\\' :: c :: p => .one c :: parse p
  | c :: p => .one c :: parse p

/-- A word without the characters that a pattern reads otherwise. -/
def Plain (k : List Char) : Prop := ∀ c ∈ k, c ≠ '%' ∧ c ≠ '_' ∧ c ≠ '\\'

instance : DecidablePred Plain := fun k =>
  List.decidableBAll (fun c => c ≠ '%' ∧ c ≠ '_' ∧ c ≠ '\\') k

theorem parse_cons {c : Char} {k : List Char} (h : c ≠ '%' ∧ c ≠ '_' ∧ c ≠ '\\') :
    parse (c :: k) = .one c :: parse k := by
  obtain ⟨hp, hu, hb⟩ := h
  rw [parse.eq_def]
  split <;> simp_all

theorem parse_plain {k rest : List Char} (h : Plain k) :
    parse (k ++ rest) = k.map .one ++ parse rest := by
  induction k with
  | nil => rfl
  | cons c k ih =>
      obtain ⟨hc, hk⟩ := List.forall_mem_cons.mp h
      rw [List.cons_append, parse_cons hc, ih hk]
      rfl

/-- The cases in which `parse` reads a pattern. -/
@[elab_as_elim]
theorem parse_cases {motive : List Char → Prop} (p : List Char) (nil : motive [])
    (all : ∀ p, motive p → motive ('%' :: p)) (any : ∀ p, motive p → motive ('_' :: p))
    (last : motive ['\\']) (escaped : ∀ c p, motive p → motive ('\\' :: c :: p))
    (one : ∀ c p, c ≠ '%' ∧ c ≠ '_' ∧ c ≠ '\\' → motive p → motive (c :: p)) : motive p := by
  refine parse.induct motive nil all any last escaped (fun c p hp hu hs hb ih => ?_) p
  refine one c p ⟨hp, hu, fun hc => ?_⟩ ih
  cases p with
  | nil => exact hs hc rfl
  | cons c' p => exact hb c' p hc rfl

variable {α : Type} {same : α → α → Bool} {p : List (Token α)} {s : List α}

def accepts (same : α → α → Bool) : List (Token α) → List α → Bool
  | [], s => s.isEmpty
  | .one _ :: _, [] => false
  | .one c :: p, x :: s => same c x && accepts same p s
  | .any :: _, [] => false
  | .any :: p, _ :: s => accepts same p s
  | .all :: p, s => s.tails.any fun t => accepts same p t

@[simp] theorem accepts_nil : accepts same [] s = true ↔ s = [] := by
  simp [accepts]

@[simp] theorem accepts_one (c : α) :
    accepts same (.one c :: p) s = true ↔ ∃ x t, s = x :: t ∧ same c x = true ∧ accepts same p t = true := by
  cases s with
  | nil => simp [accepts]
  | cons x t => simp [accepts]

@[simp] theorem accepts_any :
    accepts same (.any :: p) s = true ↔ ∃ x t, s = x :: t ∧ accepts same p t = true := by
  cases s with
  | nil => simp [accepts]
  | cons x t => simp [accepts]

@[simp] theorem accepts_all :
    accepts same (.all :: p) s = true ↔ ∃ t, t <:+ s ∧ accepts same p t = true := by
  simp [accepts]

/-! ## Words -/

/-- A word in front of a pattern. -/
theorem accepts_word (k : List α) :
    accepts same (k.map .one ++ p) s = true ↔
      ∃ s₁ s₂, s = s₁ ++ s₂ ∧ List.Forall₂ (fun c x => same c x = true) k s₁ ∧ accepts same p s₂ = true := by
  induction k generalizing s with
  | nil => simp
  | cons c k ih =>
      rw [List.map_cons, List.cons_append, accepts_one]
      constructor
      · rintro ⟨x, t, rfl, hc, ht⟩
        obtain ⟨s₁, s₂, rfl, hk, hp⟩ := ih.mp ht
        exact ⟨x :: s₁, s₂, rfl, .cons hc hk, hp⟩
      · rintro ⟨s₁, s₂, rfl, hk, hp⟩
        cases hk with
        | @cons _ x _ t hc hk => exact ⟨x, t ++ s₂, rfl, hc, ih.mpr ⟨t, s₂, rfl, hk, hp⟩⟩

/-- **The pattern of a word between two sequences finds the word.** -/
theorem accepts_infix (k : List α) :
    accepts same (.all :: (k.map .one ++ [.all])) s = true ↔
      ∃ t, t <:+: s ∧ List.Forall₂ (fun c x => same c x = true) k t := by
  rw [accepts_all]
  constructor
  · rintro ⟨u, ⟨a, rfl⟩, hu⟩
    obtain ⟨t, b, rfl, hk, -⟩ := (accepts_word k).mp hu
    exact ⟨t, ⟨a, b, by rw [List.append_assoc]⟩, hk⟩
  · rintro ⟨t, ⟨a, b, rfl⟩, hk⟩
    have hall : accepts same [.all] b = true := accepts_all.mpr ⟨[], List.nil_suffix, accepts_nil.mpr rfl⟩
    refine ⟨t ++ b, ⟨a, by rw [List.append_assoc]⟩, (accepts_word k).mpr ⟨t, b, rfl, hk, hall⟩⟩

/-! ## Shortest matches -/

/-- A text in which `x` stands for any character and nothing for a sequence. -/
def shortest (x : α) : List (Token α) → List α
  | [] => []
  | .one c :: p => c :: shortest x p
  | .any :: p => x :: shortest x p
  | .all :: p => shortest x p

def minLength : List (Token α) → ℕ
  | [] => 0
  | .one _ :: p | .any :: p => minLength p + 1
  | .all :: p => minLength p

theorem length_shortest (x : α) (p : List (Token α)) : (shortest x p).length = minLength p := by
  induction p with
  | nil => rfl
  | cons t p ih => cases t <;> simp [shortest, minLength, ih]

theorem mem_shortest {x c : α} (h : c ∈ shortest x p) : c = x ∨ .one c ∈ p := by
  induction p with
  | nil => cases h
  | cons t p ih =>
      cases t with
      | one c' =>
          cases h with
          | head => exact .inr List.mem_cons_self
          | tail _ h => exact (ih h).imp id (List.mem_cons_of_mem _)
      | any =>
          cases h with
          | head => exact .inl rfl
          | tail _ h => exact (ih h).imp id (List.mem_cons_of_mem _)
      | all => exact (ih h).imp id (List.mem_cons_of_mem _)

/-- The shortest text matches. -/
theorem accepts_shortest (hsame : ∀ c, same c c = true) (x : α) (p : List (Token α)) :
    accepts same p (shortest x p) = true := by
  induction p with
  | nil => rfl
  | cons t p ih =>
      cases t with
      | one c => exact accepts_one c |>.mpr ⟨c, _, rfl, hsame c, ih⟩
      | any => exact accepts_any.mpr ⟨x, _, rfl, ih⟩
      | all => exact accepts_all.mpr ⟨_, List.suffix_rfl, ih⟩

/-- No text that matches is shorter. -/
theorem minLength_le (h : accepts same p s = true) : minLength p ≤ s.length := by
  induction p generalizing s with
  | nil => exact Nat.zero_le _
  | cons t p ih =>
      cases t with
      | one c =>
          obtain ⟨x, t, rfl, -, ht⟩ := (accepts_one c).mp h
          exact Nat.succ_le_succ (ih ht)
      | any =>
          obtain ⟨x, t, rfl, ht⟩ := accepts_any.mp h
          exact Nat.succ_le_succ (ih ht)
      | all =>
          obtain ⟨t, hsuf, ht⟩ := accepts_all.mp h
          exact (ih ht).trans hsuf.length_le

end Like
