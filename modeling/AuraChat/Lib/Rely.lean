import AuraChat.Lib.Program

set_option autoImplicit false

/-!
# Programs that rely on the others

A program shares its state with others, which may act before each of its calls. What they may do there
is a relation `rely` that depends on the call the program makes next: between two calls that belong
together they may do less.

* `Prog.next`: the call that a program makes next;
* `Prog.Safe`: however the others act within `rely`, the result meets `Q`;
* `Prog.safe_bind`, `Prog.safe_of_forall`: safety along the structure of a program;
* **`Prog.Safe.stable`**: a step of another program within `rely` keeps a program safe;
* **`Prog.Safe.step`**: a program stays safe when it makes its next call.
-/

namespace Interleave

namespace Prog

variable {A : Type} {R : A → Type} {α β E S : Type}

def next : Prog R α → Option A
  | .ret _ => none
  | .call a _ => some a

variable (act : (a : A) → E → S → R a × S) (rely : Option A → S → S → Prop)

/-- However the others act before its calls, the program ends in a result that meets `Q`. -/
def Safe : Prog R α → (α → S → Prop) → S → Prop
  | .ret x, Q, s => Q x s
  | .call a k, Q, s =>
      ∀ s' e, rely (some a) s s' → Safe (k (act a e s').1) Q (act a e s').2

@[simp] theorem safe_pure (x : α) (Q : α → S → Prop) (s : S) :
    Safe act rely (pure x : Prog R α) Q s ↔ Q x s := Iff.rfl

@[simp] theorem safe_perform (a : A) (Q : R a → S → Prop) (s : S) :
    Safe act rely (perform a) Q s ↔
      ∀ s' e, rely (some a) s s' → Q (act a e s').1 (act a e s').2 := Iff.rfl

@[simp] theorem safe_bind (p : Prog R α) (f : α → Prog R β) (Q : β → S → Prop) (s : S) :
    Safe act rely (p >>= f) Q s ↔ Safe act rely p (fun x => Safe act rely (f x) Q) s := by
  induction p generalizing s with
  | ret x => exact Iff.rfl
  | call a k ih =>
      exact forall_congr' fun s' => forall_congr' fun e => imp_congr Iff.rfl (ih _ _)

variable {act rely} {p : Prog R α} {Q : α → S → Prop} {s s' : S}

/-- Any program is safe for what holds in any case. -/
theorem safe_of_forall (h : ∀ x s, Q x s) : Safe act rely p Q s := by
  induction p generalizing s with
  | ret x => exact h x s
  | call a k ih => exact fun s' e _ => ih _

/-- **Another program's step.** -/
theorem Safe.stable (htrans : ∀ a s s' s'', rely a s s' → rely a s' s'' → rely a s s'')
    (hQ : ∀ x s s', Q x s → rely none s s' → Q x s') (h : Safe act rely p Q s)
    (hr : rely p.next s s') : Safe act rely p Q s' := by
  cases p with
  | ret x => exact hQ x s s' h hr
  | call a k => exact fun s'' e hr' => h s'' e (htrans (some a) s s' s'' hr hr')

/-- **A program's own step.** -/
theorem Safe.step {a : A} {k : R a → Prog R α} (hrefl : ∀ a s, rely a s s)
    (h : Safe act rely (.call a k) Q s) (e : E) :
    Safe act rely (k (act a e s).1) Q (act a e s).2 :=
  h s e (hrefl (some a) s)

end Prog

end Interleave
