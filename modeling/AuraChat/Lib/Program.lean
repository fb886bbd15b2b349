import Mathlib.Logic.Function.Basic
import Mathlib.Tactic.Common

set_option autoImplicit false

/-!
# Programs of atomic calls

A program is a tree of calls: a node performs a call `a` and continues with the reply `r : R a`.
The calls of one program are atomic; what happens between two of them is left to whoever runs the
program, so the same tree serves as a sequential program (`exec`) and as one thread among others.

* `Prog R α`, its monad structure and `Prog.perform`;
* `Prog.Path p h q`: after the calls and replies `h`, the rest of `p` is `q`;
* `Prog.answered`, `Prog.path_answered`: the path of a program whose calls are answered by a function;
* `Prog.Sat G h p Q`: every call of `p` meets the guard `G` in the history it is made in, and
  every result meets `Q`. The guard sees the history, so it can say what came before a call;
* **`Prog.Path.guard`**, `Prog.Path.history`: a call about to be made on a path of a program meets its
  guard, and the history of the path keeps what guarded calls keep;
* `Prog.Sat.keep`: guards that depend on the history, from calls that do not;
* `Prog.Avoids p q`: the program `q` makes no call that meets `p`; `Prog.Spares`: nor does it while the
  replies are as they may be;
* `Prog.exec`, `Prog.wp`, **`Prog.exec_wp`**: a program run alone, with preconditions that are computed
  through its structure.
-/

namespace Interleave

/-- Programs over calls `A` with replies `R`, returning `α`. -/
inductive Prog {A : Type} (R : A → Type) (α : Type) : Type
  | ret (x : α)
  | call (a : A) (k : R a → Prog R α)

/-- A call together with its reply. -/
abbrev Event {A : Type} (R : A → Type) : Type := Σ a, R a

namespace Prog

variable {A : Type} {R : A → Type} {α β : Type}

/-- Sequencing. -/
protected def bind : Prog R α → (α → Prog R β) → Prog R β
  | .ret x, f => f x
  | .call a k, f => .call a fun r => (k r).bind f

instance : Monad (Prog R) where
  pure := .ret
  bind := Prog.bind

theorem map_id (p : Prog R α) : p.bind .ret = p := by
  induction p with
  | ret x => rfl
  | call a k ih => exact congrArg (Prog.call a) (funext ih)

theorem bind_bind {γ : Type} (p : Prog R α) (f : α → Prog R β) (g : β → Prog R γ) :
    (p.bind f).bind g = p.bind fun x => (f x).bind g := by
  induction p with
  | ret x => rfl
  | call a k ih => exact congrArg (Prog.call a) (funext ih)

instance : LawfulMonad (Prog R) := .mk' (Prog R) map_id (fun _ _ => rfl) bind_bind

/-- The program making one call. -/
def perform (a : A) : Prog R (R a) := .call a .ret

/-! ## Paths -/

/-- After the calls and replies `h`, the rest of the program `p` is `q`. -/
inductive Path (p : Prog R α) : List (Event R) → Prog R α → Prop
  | nil : Path p [] p
  | snoc {h : List (Event R)} {a : A} {k : R a → Prog R α} (r : R a) :
      Path p h (.call a k) → Path p (h ++ [⟨a, r⟩]) (k r)

theorem Path.cons {a : A} {k : R a → Prog R α} {r : R a} {h : List (Event R)} {q : Prog R α}
    (hp : Path (k r) h q) : Path (.call a k) (⟨a, r⟩ :: h) q := by
  induction hp with
  | nil => exact .snoc r .nil
  | snoc r' _ ih => exact .snoc r' ih

/-- The history of a program whose calls are all answered by `ρ`, and its result. -/
def answered (ρ : (a : A) → R a) : Prog R α → List (Event R) × α
  | .ret x => ([], x)
  | .call a k => (⟨a, ρ a⟩ :: (answered ρ (k (ρ a))).1, (answered ρ (k (ρ a))).2)

theorem path_answered (ρ : (a : A) → R a) (p : Prog R α) :
    Path p (answered ρ p).1 (.ret (answered ρ p).2) := by
  induction p with
  | ret x => exact .nil
  | call a k ih => exact .cons (ih (ρ a))

theorem answered_reply (ρ : (a : A) → R a) (p : Prog R α) {e : Event R}
    (he : e ∈ (answered ρ p).1) : e.2 = ρ e.1 := by
  induction p with
  | ret x => cases he
  | call a k ih =>
      rcases List.mem_cons.mp he with rfl | he
      · rfl
      · exact ih _ he

/-! ## Guarded calls -/

/-- Every call of the program meets the guard `G` in the history it is made in, and every result
meets `Q`. The program starts with history `h`. -/
def Sat (G : List (Event R) → A → Prop) :
    List (Event R) → Prog R α → (List (Event R) → α → Prop) → Prop
  | h, .ret x, Q => Q h x
  | h, .call a k, Q => G h a ∧ ∀ r, Sat G (h ++ [⟨a, r⟩]) (k r) Q

variable {G G' : List (Event R) → A → Prop}

theorem sat_pure (h : List (Event R)) (x : α) (Q : List (Event R) → α → Prop) :
    Sat G h (pure x) Q ↔ Q h x := Iff.rfl

@[simp] theorem sat_perform (h : List (Event R)) (a : A) (Q : List (Event R) → R a → Prop) :
    Sat G h (perform a) Q ↔ G h a ∧ ∀ r, Q (h ++ [⟨a, r⟩]) r := Iff.rfl

@[simp] theorem sat_bind (h : List (Event R)) (p : Prog R α) (f : α → Prog R β)
    (Q : List (Event R) → β → Prop) :
    Sat G h (p >>= f) Q ↔ Sat G h p fun h' x => Sat G h' (f x) Q := by
  induction p generalizing h with
  | ret x => exact Iff.rfl
  | call a k ih => exact and_congr Iff.rfl (forall_congr' fun r => ih r _)

theorem Sat.mono {h : List (Event R)} {p : Prog R α} {Q Q' : List (Event R) → α → Prop}
    (hs : Sat G h p Q) (hG : ∀ h a, G h a → G' h a) (hQ : ∀ h x, Q h x → Q' h x) :
    Sat G' h p Q' := by
  induction p generalizing h with
  | ret x => exact hQ h x hs
  | call a k ih => exact ⟨hG h a hs.1, fun r => ih r (hs.2 r)⟩

theorem Sat.and {h : List (Event R)} {p : Prog R α} {Q Q' : List (Event R) → α → Prop}
    (hs : Sat G h p Q) (hs' : Sat G h p Q') : Sat G h p fun h x => Q h x ∧ Q' h x := by
  induction p generalizing h with
  | ret x => exact ⟨hs, hs'⟩
  | call a k ih => exact ⟨hs.1, fun r => ih r (hs.2 r) (hs'.2 r)⟩

/-- What the calls of a program keep of its history may be used in its guards. -/
theorem Sat.keep {T : A → Prop} {h : List (Event R)} {p : Prog R α}
    {Q : List (Event R) → α → Prop} (J : List (Event R) → Prop)
    (hs : Sat (fun _ a => T a) h p fun _ _ => True) (hJ : J h) (hG : ∀ h a, T a → J h → G h a)
    (hk : ∀ h a r, T a → J h → J (h ++ [⟨a, r⟩])) (hQ : ∀ h x, J h → Q h x) : Sat G h p Q := by
  induction p generalizing h with
  | ret x => exact hQ h x hJ
  | call a k ih => exact ⟨hG h a hs.1 hJ, fun r => ih r (hs.2 r) (hk h a r hs.1 hJ)⟩

/-- The loop rule: an invariant of the history, indexed by the elements still to come. -/
theorem sat_forM {ι : Type} (I : List (Event R) → List ι → Prop) (f : ι → Prog R PUnit)
    (hstep : ∀ h x xs, I h (x :: xs) → Sat G h (f x) fun h' _ => I h' xs)
    (xs : List ι) (h : List (Event R)) (hI : I h xs) :
    Sat G h (xs.forM f) fun h' _ => I h' [] := by
  induction xs generalizing h with
  | nil => exact hI
  | cons x xs ih =>
      change Sat G h (f x >>= fun _ => xs.forM f) _
      rw [sat_bind]
      exact (hstep h x xs hI).mono (fun _ _ hg => hg) fun h' _ hI' => ih h' hI'

/-- The rest of a program on a path is guarded in the history of the path. -/
theorem Path.sat {p q : Prog R α} {h : List (Event R)} {Q : List (Event R) → α → Prop}
    (hp : Path p h q) (hs : Sat G [] p Q) : Sat G h q Q := by
  induction hp with
  | nil => exact hs
  | snoc r _ ih => exact ih.2 r

/-- **A call about to be made on a path of a guarded program meets its guard.** -/
theorem Path.guard {p : Prog R α} {h : List (Event R)} {a : A} {k : R a → Prog R α}
    {Q : List (Event R) → α → Prop} (hp : Path p h (.call a k)) (hs : Sat G [] p Q) : G h a :=
  (hp.sat hs).1

/-- What guarded calls keep of a history holds of every history of a guarded program. -/
theorem Path.history {p q : Prog R α} {h : List (Event R)} {Q : List (Event R) → α → Prop}
    (J : List (Event R) → Prop) (h₀ : J [])
    (hstep : ∀ h a r, G h a → J h → J (h ++ [⟨a, r⟩])) (hp : Path p h q) (hs : Sat G [] p Q) :
    J h := by
  induction hp with
  | nil => exact h₀
  | snoc r hp ih => exact hstep _ _ r (hp.guard hs) ih

/-- No call that is left to make meets `p`. -/
def Avoids (p : A → Prop) : Prog R α → Prop
  | .ret _ => True
  | .call a k => ¬ p a ∧ ∀ r, (k r).Avoids p

theorem Sat.avoids {p : A → Prop} {h : List (Event R)} {q : Prog R α}
    {Q : List (Event R) → α → Prop} (hs : Sat (fun _ a => ¬ p a) h q Q) : q.Avoids p := by
  induction q generalizing h with
  | ret x => trivial
  | call a k ih => exact ⟨hs.1, fun r => ih r (hs.2 r)⟩

/-- No call that is left to make meets `p`, as long as the replies are as `ok` allows. -/
def Spares (ok : (a : A) → R a → Prop) (p : A → Prop) : Prog R α → Prop
  | .ret _ => True
  | .call a k => ¬ p a ∧ ∀ r, ok a r → (k r).Spares ok p

/-- A program that spares calls also spares fewer calls, and under fewer replies. -/
theorem Spares.mono {ok ok' : (a : A) → R a → Prop} {p p' : A → Prop} {q : Prog R α}
    (h : q.Spares ok p) (hok : ∀ a r, ok' a r → ok a r) (hp : ∀ a, p' a → p a) : q.Spares ok' p' := by
  induction q with
  | ret x => trivial
  | call a k ih => exact ⟨fun hpa => h.1 (hp a hpa), fun r hr => ih r (h.2 r (hok a r hr))⟩

/-! ## Programs that may raise an exception -/

section Exceptions

variable {ε : Type}

@[simp] theorem sat_run_mk (h : List (Event R)) (p : Prog R (Except ε α))
    (Q : List (Event R) → Except ε α → Prop) :
    Sat G h (ExceptT.mk p).run Q ↔ Sat G h p Q := Iff.rfl

@[simp] theorem sat_run_lift (h : List (Event R)) (p : Prog R α)
    (Q : List (Event R) → Except ε α → Prop) :
    Sat G h (ExceptT.lift p : ExceptT ε (Prog R) α).run Q ↔
      Sat G h p fun h' x => Q h' (.ok x) :=
  sat_bind h p _ Q

@[simp] theorem sat_run_bind (h : List (Event R)) (x : ExceptT ε (Prog R) α)
    (f : α → ExceptT ε (Prog R) β) (Q : List (Event R) → Except ε β → Prop) :
    Sat G h (x >>= f).run Q ↔ Sat G h x.run fun h' r => match r with
      | .ok a => Sat G h' (f a).run Q
      | .error e => Q h' (.error e) := by
  change Sat G h (x.run >>= _) Q ↔ _
  rw [sat_bind]
  refine iff_of_eq (congrArg _ (funext fun h' => funext fun r => ?_))
  cases r <;> rfl

end Exceptions

/-! ## Sequential runs -/

section Exec

variable {E S : Type} (act : (a : A) → E → S → Option (R a × S))

/-- Run a program alone: `σ` supplies the environment's part of each call in turn. -/
def exec : Prog R α → (ℕ → E) → S → Option (α × S)
  | .ret x, _, s => some (x, s)
  | .call a k, σ, s => (act a (σ 0) s).bind fun rs => exec (k rs.1) (fun n => σ (n + 1)) rs.2

/-- What has to hold before a program so that, if it ends when run alone, `Q` holds after it. -/
def wp : Prog R α → (α → (ℕ → E) → S → Prop) → (ℕ → E) → S → Prop
  | .ret x, Q, σ, s => Q x σ s
  | .call a k, Q, σ, s =>
      ∀ r s', act a (σ 0) s = some (r, s') → wp (k r) Q (fun n => σ (n + 1)) s'

/-- **A sequential run ends in what its precondition promises.** -/
theorem exec_wp {p : Prog R α} {σ : ℕ → E} {s : S} {Q : α → S → Prop}
    (h : wp act p (fun x _ s' => Q x s') σ s) {x : α} {s' : S} (hx : exec act p σ s = some (x, s')) :
    Q x s' := by
  induction p generalizing σ s with
  | ret y =>
      simp only [exec, Option.some.injEq, Prod.mk.injEq] at hx
      obtain ⟨rfl, rfl⟩ := hx
      exact h
  | call a k ih =>
      simp only [exec, Option.bind_eq_some_iff] at hx
      obtain ⟨⟨r, s₁⟩, hact, hx⟩ := hx
      exact ih r (h r s₁ hact) hx

variable (σ : ℕ → E) (s : S)

@[simp] theorem wp_pure (x : α) (Q : α → (ℕ → E) → S → Prop) : wp act (pure x) Q σ s ↔ Q x σ s :=
  Iff.rfl

@[simp] theorem wp_bind (p : Prog R α) (f : α → Prog R β) (Q : β → (ℕ → E) → S → Prop) :
    wp act (p >>= f) Q σ s ↔ wp act p (fun x => wp act (f x) Q) σ s := by
  induction p generalizing σ s with
  | ret x => exact Iff.rfl
  | call a k ih =>
      exact forall_congr' fun r => forall_congr' fun s' => imp_congr Iff.rfl (ih r _ s')

theorem wp_mono {p : Prog R α} {Q Q' : α → (ℕ → E) → S → Prop} {σ : ℕ → E} {s : S}
    (h : wp act p Q σ s) (hQ : ∀ x σ s, Q x σ s → Q' x σ s) : wp act p Q' σ s := by
  induction p generalizing σ s with
  | ret x => exact hQ x σ s h
  | call a k ih => exact fun r s' hr => ih r (h r s' hr)

variable {ε : Type}

@[simp] theorem wp_run_mk (p : Prog R (Except ε α)) (Q : Except ε α → (ℕ → E) → S → Prop) :
    wp act (ExceptT.mk p).run Q σ s ↔ wp act p Q σ s := Iff.rfl

@[simp] theorem wp_run_lift (p : Prog R α) (Q : Except ε α → (ℕ → E) → S → Prop) :
    wp act (ExceptT.lift p : ExceptT ε (Prog R) α).run Q σ s ↔
      wp act p (fun x => Q (.ok x)) σ s :=
  wp_bind act σ s p _ Q

@[simp] theorem wp_run_bind (x : ExceptT ε (Prog R) α) (f : α → ExceptT ε (Prog R) β)
    (Q : Except ε β → (ℕ → E) → S → Prop) :
    wp act (x >>= f).run Q σ s ↔ wp act x.run (fun r σ s => match r with
      | .ok a => wp act (f a).run Q σ s
      | .error e => Q (.error e) σ s) σ s := by
  change wp act (x.run >>= _) Q σ s ↔ _
  rw [wp_bind]
  refine iff_of_eq (congrArg (wp act x.run · σ s) (funext fun r => funext fun σ => funext fun s => ?_))
  cases r <;> rfl

end Exec

end Prog

end Interleave
