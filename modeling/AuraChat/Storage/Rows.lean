import AuraChat.Model.Store

set_option autoImplicit false

/-!
# The rows of the message table

* `payload_rowsOf`, `mem_rowsOf`, `Ascending`: the rows that are made of a batch;
* `flush_messages`, `flush_batch`: what a flush stores;
* `Grows`: how the table changes.
-/

namespace AuraChat

/-! ## The rows of a batch -/

/-- What the store keeps of a submitted message. -/
def DBChatMessage.payload (m : DBChatMessage) : Int × Int × Bytes := (m.fromUid, m.toUid, m.content)

def FileMessage.payload (m : FileMessage) : Int × Int × Bytes := (m.fromUid, m.toUid, m.content)

theorem payload_rowsOf (next : Int) (batch : List DBChatMessage) :
    (Store.rowsOf next batch).map FileMessage.payload = batch.map DBChatMessage.payload := by
  induction batch generalizing next with
  | nil => rfl
  | cons m ms ih => exact congrArg (m.payload :: ·) (ih (next + 1))

theorem mem_rowsOf {next : Int} {batch : List DBChatMessage} {r : FileMessage}
    (h : r ∈ Store.rowsOf next batch) :
    (∃ m ∈ batch, r.toUid = m.toUid ∧ r.delivered = m.delivered) ∧ next ≤ r.id ∧
      r.id < next + batch.length := by
  induction batch generalizing next with
  | nil => cases h
  | cons m ms ih =>
      simp only [Store.rowsOf, List.mem_cons] at h
      rcases h with rfl | h
      · refine ⟨⟨m, List.mem_cons_self, rfl, rfl⟩, Int.le_refl _, ?_⟩
        simp only [List.length_cons]
        omega
      · obtain ⟨⟨m', hm', h1⟩, h2, h3⟩ := ih h
        refine ⟨⟨m', List.mem_cons_of_mem _ hm', h1⟩, ?_, ?_⟩
        · omega
        · simp only [List.length_cons]
          omega

theorem mem_rowsOf_content {m : FileMessage} {next : Int} {batch : List DBChatMessage}
    (h : m ∈ Store.rowsOf next batch) : ∃ b ∈ batch, m.content = b.content := by
  have hm := List.mem_map_of_mem (f := FileMessage.payload) h
  rw [payload_rowsOf] at hm
  obtain ⟨b, hb, he⟩ := List.mem_map.mp hm
  exact ⟨b, hb, (congrArg (fun p => p.2.2) he).symm⟩

theorem mem_rowsOf_of_mem {b : DBChatMessage} {batch : List DBChatMessage} (h : b ∈ batch) (next : Int) :
    ∃ m ∈ Store.rowsOf next batch, m.content = b.content := by
  have hb := List.mem_map_of_mem (f := DBChatMessage.payload) h
  rw [← payload_rowsOf next] at hb
  obtain ⟨m, hm, he⟩ := List.mem_map.mp hb
  exact ⟨m, hm, congrArg (fun p => p.2.2) he⟩

theorem rowsOf_sorted (next : Int) (batch : List DBChatMessage) :
    ((Store.rowsOf next batch).map FileMessage.id).Pairwise (· < ·) := by
  induction batch generalizing next with
  | nil => exact .nil
  | cons m ms ih =>
      refine List.pairwise_cons.mpr ⟨List.forall_mem_map.mpr fun r hr => ?_, ih (next + 1)⟩
      exact Int.add_one_le_iff.mp (mem_rowsOf hr).2.1

/-- Ids that go up and stay below a counter. -/
structure Ascending (next : Int) (ids : List Int) : Prop where
  sorted : ids.Pairwise (· < ·)
  lt : ∀ i ∈ ids, i < next

theorem ascending_nil (next : Int) : Ascending next [] := ⟨.nil, fun _ h => (by cases h)⟩

theorem Ascending.append {next : Int} {ids : List Int} (h : Ascending next ids)
    (batch : List DBChatMessage) : Ascending (next + batch.length)
      (ids ++ (Store.rowsOf next batch).map FileMessage.id) := by
  have hrows : ∀ i ∈ (Store.rowsOf next batch).map FileMessage.id,
      next ≤ i ∧ i < next + batch.length :=
    List.forall_mem_map.mpr fun r hr => (mem_rowsOf hr).2
  constructor
  · refine List.pairwise_append.mpr ⟨h.sorted, rowsOf_sorted next batch, fun i hi j hj => ?_⟩
    exact Int.lt_of_lt_of_le (h.lt i hi) (hrows j hj).1
  · refine List.forall_mem_append.mpr ⟨fun i hi => ?_, fun i hi => (hrows i hi).2⟩
    have := h.lt i hi
    omega

theorem rowsOf_nodup (next : Int) (batch : List DBChatMessage) :
    ((Store.rowsOf next batch).map FileMessage.id).Nodup :=
  (rowsOf_sorted next batch).imp Int.ne_of_lt

/-! ## Flushes -/

theorem flush_messages (st : Store) (ok : Bool) : (st.flush ok).messages =
    st.messages ++ if st.useFileStorage || ok then Store.rowsOf st.nextMsgId st.batch else [] := by
  rw [Store.flush]
  split_ifs
  · rfl
  · exact (List.append_nil _).symm

theorem flush_nextMsgId (st : Store) (ok : Bool) : (st.flush ok).nextMsgId =
    st.nextMsgId + if st.useFileStorage || ok then (st.batch.length : Int) else 0 := by
  rw [Store.flush]
  split_ifs
  · rfl
  · exact (Int.add_zero _).symm

theorem flush_batch (st : Store) (ok : Bool) :
    (st.flush ok).batch = [] ∧ (st.flush ok).queue = st.queue := by
  rw [Store.flush]
  split_ifs <;> exact ⟨rfl, rfl⟩

theorem flush_nil {st : Store} (hb : st.batch = []) (ok : Bool) : st.flush ok = st := by
  obtain ⟨file, users, friends, reqs, msgs, u, r, n, q, batch⟩ := st
  subst hb
  simp [Store.flush, Store.rowsOf]

/-! ## Changes of the table -/

/-- The rows of a table stay where they are, with their ids and payloads, and a delivered message stays
delivered. -/
def Grows (xs ys : List FileMessage) : Prop :=
  ∀ (i : ℕ) (m : FileMessage), xs[i]? = some m → ∃ m', ys[i]? = some m' ∧ m'.id = m.id ∧
    m'.payload = m.payload ∧ (m.delivered = true → m'.delivered = true)

theorem Grows.refl (xs : List FileMessage) : Grows xs xs :=
  fun _ m h => ⟨m, h, rfl, rfl, id⟩

theorem Grows.trans {xs ys zs : List FileMessage} (h : Grows xs ys) (h' : Grows ys zs) :
    Grows xs zs := by
  intro i m hm
  obtain ⟨m₁, h₁, hid₁, hp₁, hd₁⟩ := h i m hm
  obtain ⟨m₂, h₂, hid₂, hp₂, hd₂⟩ := h' i m₁ h₁
  exact ⟨m₂, h₂, hid₂.trans hid₁, hp₂.trans hp₁, fun hd => hd₂ (hd₁ hd)⟩

theorem grows_append (xs ys : List FileMessage) : Grows xs (xs ++ ys) := by
  intro i m hm
  have hlt : i < xs.length := (List.getElem?_eq_some_iff.mp hm).1
  exact ⟨m, (List.getElem?_append_left hlt).trans hm, rfl, rfl, id⟩

theorem markDelivered_ids (st : Store) (uid maxId : Int) :
    (st.markDelivered uid maxId).messages.map FileMessage.id = st.messages.map FileMessage.id := by
  rw [Store.markDelivered, List.map_map]
  refine List.map_congr_left fun m _ => ?_
  simp only [Function.comp_apply]
  split_ifs <;> rfl

theorem markDelivered_payloads (st : Store) (uid maxId : Int) :
    (st.markDelivered uid maxId).messages.map FileMessage.payload =
      st.messages.map FileMessage.payload := by
  rw [Store.markDelivered, List.map_map]
  refine List.map_congr_left fun m _ => ?_
  simp only [Function.comp_apply]
  split_ifs <;> rfl

theorem grows_markDelivered (st : Store) (uid maxId : Int) :
    Grows st.messages (st.markDelivered uid maxId).messages := by
  intro i m hm
  simp only [Store.markDelivered, List.getElem?_map, hm, Option.map_some, Option.some.injEq,
    exists_eq_left']
  split_ifs
  · exact ⟨rfl, rfl, fun _ => rfl⟩
  · exact ⟨rfl, rfl, id⟩

theorem Grows.length_le {xs ys : List FileMessage} (h : Grows xs ys) : xs.length ≤ ys.length := by
  by_contra hlt
  obtain ⟨m', hm', -⟩ := h ys.length _ (List.getElem?_eq_getElem (Nat.lt_of_not_le hlt))
  rw [List.getElem?_eq_none (Nat.le_refl _)] at hm'
  cases hm'

end AuraChat
