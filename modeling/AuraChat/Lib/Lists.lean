import Mathlib.Data.List.Perm.Subperm
import Mathlib.Data.List.Range
import Mathlib.Data.List.Sort
import Mathlib.Tactic.Common

set_option autoImplicit false

/-!
# Lists of entries

* `getElem?_of_isPrefix`: an entry of a list that has grown since;
* `filterMap_range_update`: the entries of a table with one more entry;
* `filterMap_sublist`: the entries of a table with some entries less;
* `filter_key`, `perm_map_flatMap_iff`: when a join gives one row for each element;
* `insertionSort_ascending`: a list that is sorted the other way round;
* `Grouped`: equal elements of a list stand together; **`Grouped.sublist`**, **`grouped_snoc`**.
-/

namespace Interleave

variable {α β : Type}

/-! ## Tables -/

theorem getElem?_of_isPrefix {l l' : List α} (hp : l <+: l') {n : ℕ} {a : α} (h : l[n]? = some a) :
    l'[n]? = some a := by
  obtain ⟨hn, rfl⟩ := List.getElem?_eq_some_iff.mp h
  exact List.prefix_iff_getElem?.mp hp n hn

/-- The entries that are left of a table. -/
theorem filterMap_sublist {f g : α → Option β} (l : List α) (h : ∀ a, g a = none ∨ g a = f a) :
    (l.filterMap g).Sublist (l.filterMap f) := by
  induction l with
  | nil => exact .slnil
  | cons a l ih =>
      rcases h a with e | e
      · rw [List.filterMap_cons_none e]
        exact ih.trans ((List.sublist_cons_self a l).filterMap f)
      · simp only [List.filterMap_cons, e]
        cases f a with
        | none => exact ih
        | some b => exact ih.cons_cons b

/-- The entries of a table in which a free place is filled. -/
theorem filterMap_range_update (f : ℕ → Option β) {i n : ℕ} (hi : i < n) (hf : f i = none) (b : β) :
    ((List.range n).filterMap (Function.update f i (some b))).Perm
      (b :: (List.range n).filterMap f) := by
  obtain ⟨l₁, l₂, e⟩ := List.append_of_mem (List.mem_range.mpr hi)
  have hnd : (l₁ ++ i :: l₂).Nodup := e ▸ List.nodup_range
  have hmem : ∀ j ∈ l₁ ++ l₂, j ≠ i := by
    rintro j hj rfl
    exact (List.nodup_cons.mp (List.perm_middle.nodup_iff.mp hnd)).1 hj
  have same : ∀ l : List ℕ, (∀ j ∈ l, j ≠ i) →
      l.filterMap (Function.update f i (some b)) = l.filterMap f := by
    intro l hl
    exact List.filterMap_congr fun j hj => Function.update_of_ne (hl j hj) _ _
  rw [e, List.filterMap_append, List.filterMap_append, List.filterMap_cons_none hf,
    List.filterMap_cons_some (Function.update_self i (some b) f), same l₁, same l₂]
  · exact List.perm_middle
  · exact fun j hj => hmem j (List.mem_append_right _ hj)
  · exact fun j hj => hmem j (List.mem_append_left _ hj)

/-! ## Joins -/

/-- A list in which each element is looked up, and the list with one row for each: they have the same
rows exactly if every lookup gives its row. -/
theorem perm_map_flatMap_iff {l : List α} {f : α → β} {g : α → List β}
    (hkey : ∀ a ∈ l, ∀ a' ∈ l, f a ∈ g a' → a = a') (hone : ∀ a ∈ l, (g a).length ≤ 1) :
    (l.map f).Perm (l.flatMap g) ↔ ∀ a ∈ l, g a = [f a] := by
  constructor
  · intro h a ha
    obtain ⟨a', ha', hmem⟩ := List.mem_flatMap.mp (h.mem_iff.mp (List.mem_map_of_mem ha))
    obtain rfl := hkey a ha a' ha' hmem
    obtain ⟨b, hb⟩ := List.length_eq_one_iff.mp
      (Nat.le_antisymm (hone a ha) (List.length_pos_of_mem hmem))
    rw [hb] at hmem ⊢
    rw [List.mem_singleton.mp hmem]
  · intro h
    rw [List.map_eq_flatMap, List.flatMap_congr h]

theorem flatMap_filterMap {γ : Type} (f : α → Option β) (g : β → List γ) (l : List α) :
    (l.filterMap f).flatMap g = l.flatMap fun a => (f a).toList.flatMap g := by
  induction l with
  | nil => rfl
  | cons a l ih => cases h : f a <;> simp [h, ih]

theorem flatMap_filter (p : α → Bool) (g : α → List β) (l : List α) :
    (l.filter p).flatMap g = l.flatMap fun a => if p a then g a else [] := by
  induction l with
  | nil => rfl
  | cons a l ih => cases h : p a <;> simp [h, ih]

/-- A key selects one entry of a table. -/
theorem filter_key {κ : Type} [DecidableEq κ] {key : α → κ} {l : List α} (h : (l.map key).Nodup)
    (k : κ) :
    l.filter (fun a => key a = k) = (l.find? fun a => key a = k).toList := by
  induction l with
  | nil => rfl
  | cons a l ih =>
      obtain ⟨ha, hl⟩ := List.nodup_cons.mp h
      by_cases hk : key a = k
      · have hnone : l.filter (fun a => key a = k) = [] := by
          refine List.filter_eq_nil_iff.mpr fun b hb => ?_
          rw [decide_eq_true_iff]
          rintro rfl
          exact ha (hk ▸ List.mem_map_of_mem hb)
        rw [List.filter_cons_of_pos (by simpa using hk), List.find?_cons_of_pos (by simpa using hk),
          hnone]
        rfl
      · rw [List.filter_cons_of_neg (by simpa using hk), List.find?_cons_of_neg (by simpa using hk)]
        exact ih hl

/-! ## Sorting -/

theorem orderedInsert_last {r : α → α → Prop} [DecidableRel r] {l : List α} {a : α}
    (h : ∀ b ∈ l, ¬ r a b) : l.orderedInsert r a = l ++ [a] := by
  induction l with
  | nil => rfl
  | cons b l ih =>
      rw [List.orderedInsert_of_not_le r l (h b List.mem_cons_self),
        ih fun b' hb' => h b' (List.mem_cons_of_mem b hb'), List.cons_append]

theorem insertionSort_ascending {r : α → α → Prop} [DecidableRel r] {l : List α}
    (h : l.Pairwise fun a b => ¬ r a b) : l.insertionSort r = l.reverse := by
  induction l with
  | nil => rfl
  | cons a l ih =>
      obtain ⟨ha, hl⟩ := List.pairwise_cons.mp h
      rw [List.insertionSort_cons, ih hl, List.reverse_cons]
      exact orderedInsert_last fun b hb => ha b (List.mem_reverse.mp hb)

/-! ## Groups -/

/-- Between two equal elements there is no other one. -/
def Grouped (l : List α) : Prop := ∀ a b, [a, b, a].Sublist l → b = a

theorem grouped_nil : Grouped ([] : List α) := fun _ _ h => by cases h

theorem Grouped.sublist {l l' : List α} (h : Grouped l) (hl : l'.Sublist l) : Grouped l' :=
  fun a b hs => h a b (hs.trans hl)

/-- What ends within a list with one more element. -/
theorem snoc_sublist {p l : List α} {c x : α} (h : (p ++ [c]).Sublist (l ++ [x])) :
    (p ++ [c]).Sublist l ∨ (p.Sublist l ∧ c = x) := by
  have hr := h.reverse
  simp only [List.reverse_append, List.reverse_singleton, List.singleton_append] at hr
  rcases List.sublist_cons_iff.mp hr with hr | ⟨r, e, hr⟩
  · exact .inl (by simpa using hr.reverse)
  · obtain ⟨rfl, rfl⟩ := List.cons.inj e
    exact .inr ⟨by simpa using hr.reverse, rfl⟩

/-- The last element may be repeated. -/
theorem grouped_double {l : List α} {x : α} (h : Grouped (l ++ [x])) : Grouped (l ++ [x] ++ [x]) := by
  intro a b hs
  rcases snoc_sublist (p := [a, b]) hs with hs | ⟨hs, rfl⟩
  · exact h a b hs
  · rcases snoc_sublist (p := [a]) hs with hs | ⟨-, rfl⟩
    · exact h a b (List.Sublist.append hs (List.Sublist.refl [a]))
    · rfl

/-- A new element may be added at the end. -/
theorem grouped_snoc {l : List α} {x : α} (h : Grouped l) (hx : x ∉ l) : Grouped (l ++ [x]) := by
  intro a b hs
  rcases snoc_sublist (p := [a, b]) hs with hs | ⟨h₂, rfl⟩
  · exact h a b hs
  · exact absurd (h₂.subset List.mem_cons_self) hx

end Interleave
