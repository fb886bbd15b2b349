import Mathlib.Data.List.Infix
import Mathlib.Data.List.Nodup

set_option autoImplicit false

/-!
# One-shot tickets

The entries of a log issue tickets and end them. A log is proper if each ticket issued is a new one and each
ticket ended is live at the time.

* `Ledger`, `Ledger.Live`, `Ledger.Proper`;
* `Ledger.live_issue`, `Ledger.live_end`, `Ledger.live_other`: the live tickets after one more entry;
* **`Ledger.Proper.ended_nodup`**: in a proper log no ticket ends twice.
-/

namespace Tickets

/-- Which ticket an entry of a log issues, and which one it ends. -/
structure Ledger (ε κ : Type) where
  issued : ε → Option κ
  ended : ε → Option κ

namespace Ledger

variable {ε κ : Type} {L : Ledger ε κ} {log : List ε} {e : ε} {k k' : κ}

/-- A ticket that was issued and has not ended. -/
def Live (L : Ledger ε κ) (log : List ε) (k : κ) : Prop :=
  k ∈ log.filterMap L.issued ∧ k ∉ log.filterMap L.ended

/-- Each ticket issued is new, and each ticket ended is live. -/
def Proper (L : Ledger ε κ) (log : List ε) : Prop :=
  ∀ pre e, pre ++ [e] <+: log →
    (∀ k, L.issued e = some k → k ∉ pre.filterMap L.issued) ∧ ∀ k, L.ended e = some k → L.Live pre k

/-! ## One more entry -/

theorem proper_nil : L.Proper [] := by
  intro pre e h
  have hlen := h.length_le
  rw [List.length_append, List.length_singleton, List.length_nil] at hlen
  omega

theorem proper_concat : L.Proper (log ++ [e]) ↔ L.Proper log ∧
    (∀ k, L.issued e = some k → k ∉ log.filterMap L.issued) ∧ ∀ k, L.ended e = some k → L.Live log k := by
  constructor
  · intro h
    refine ⟨fun pre e' hpre => h pre e' (List.IsPrefix.trans hpre (List.prefix_append log [e])), ?_⟩
    exact h log e (List.prefix_refl _)
  · rintro ⟨hlog, he⟩ pre e' hpre
    rcases List.prefix_concat_iff.mp hpre with heq | hpre
    · obtain ⟨rfl, hee⟩ := List.append_inj' heq rfl
      obtain rfl := List.singleton_inj.mp hee
      exact he
    · exact hlog pre e' hpre

theorem live_other (hi : L.issued e = none) (he : L.ended e = none) :
    L.Live (log ++ [e]) k ↔ L.Live log k := by
  simp [Live, List.filterMap_append, hi, he]

theorem live_end (hi : L.issued e = none) (he : L.ended e = some k') :
    L.Live (log ++ [e]) k ↔ L.Live log k ∧ k ≠ k' := by
  simp [Live, List.filterMap_append, hi, he, and_assoc]

/-- What has ended was issued. -/
theorem Proper.issued_of_ended (h : L.Proper log) (hk : k ∈ log.filterMap L.ended) :
    k ∈ log.filterMap L.issued := by
  induction log using List.reverseRecOn with
  | nil => exact hk
  | append_singleton log e ih =>
      obtain ⟨hlog, -, hend⟩ := proper_concat.mp h
      rw [List.filterMap_append, List.mem_append] at hk ⊢
      rcases hk with hk | hk
      · exact .inl (ih hlog hk)
      · obtain ⟨e', he', hk'⟩ := List.mem_filterMap.mp hk
        rw [List.mem_singleton.mp he'] at hk'
        exact .inl (hend k hk').1

theorem live_issue (h : L.Proper (log ++ [e])) (hi : L.issued e = some k') (he : L.ended e = none) :
    L.Live (log ++ [e]) k ↔ k = k' ∨ L.Live log k := by
  obtain ⟨hlog, hnew, -⟩ := proper_concat.mp h
  have hlive : k' ∉ log.filterMap L.ended := fun hk => hnew k' hi (hlog.issued_of_ended hk)
  have hadd : k ∈ (log ++ [e]).filterMap L.issued ↔ k = k' ∨ k ∈ log.filterMap L.issued := by
    simp [List.filterMap_append, hi, or_comm]
  have hsame : (log ++ [e]).filterMap L.ended = log.filterMap L.ended := by
    simp [List.filterMap_append, he]
  rw [Live, hadd, hsame]
  constructor
  · rintro ⟨rfl | hk, hk'⟩
    · exact .inl rfl
    · exact .inr ⟨hk, hk'⟩
  · rintro (rfl | ⟨hk, hk'⟩)
    · exact ⟨.inl rfl, hlive⟩
    · exact ⟨.inr hk, hk'⟩

/-! ## The whole log -/

/-- **No ticket ends twice.** -/
theorem Proper.ended_nodup (h : L.Proper log) : (log.filterMap L.ended).Nodup := by
  induction log using List.reverseRecOn with
  | nil => exact List.nodup_nil
  | append_singleton log e ih =>
      obtain ⟨hlog, -, hend⟩ := proper_concat.mp h
      rw [List.filterMap_append]
      cases he : L.ended e with
      | none => simpa [he] using ih hlog
      | some k =>
          have hk := (hend k he).2
          simp only [List.filterMap_cons, he, List.filterMap_nil]
          rw [← List.concat_eq_append]
          exact List.Nodup.concat hk (ih hlog)

end Ledger

end Tickets
