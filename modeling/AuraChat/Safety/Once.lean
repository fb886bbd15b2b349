import AuraChat.Model.Sample
import AuraChat.Server.Messages

set_option autoImplicit false

/-!
# Stored messages are queued once

The query and the mark of a login are two critical sections of the store. Two logins of one user can
both query before either marks, and then each queues every stored message (`queued_twice`); and a
mark that MySQL refuses leaves the messages for the next login. When no other thread has messages of
the user to mark at a query, and the marks succeed, a stored message is queued once.

* `Store.Numbered`: the ids of the stored messages are different and below the counter;
* `OneDelivery`: the condition on a step;
* `Once`, **`queued_once`**.
-/

namespace AuraChat

open Interleave

variable {P : Params} {db : Store} {s s' : State} {l : Label}

/-! ## Numbered stores -/

/-- The ids of the stored messages are different and below the counter. -/
structure Store.Numbered (st : Store) : Prop where
  lt : ∀ r ∈ st.messages, r.id < st.nextMsgId
  nodup : (st.messages.map FileMessage.id).Nodup
  limit : st.nextMsgId ≤ st.idLimit

theorem Store.Numbered.eq_of_id {st : Store} (h : st.Numbered) {r r' : FileMessage}
    (hr : r ∈ st.messages) (hr' : r' ∈ st.messages) (he : r.id = r'.id) : r = r' :=
  List.inj_on_of_nodup_map h.nodup hr hr' he

theorem idLimit_le (st : Store) : st.idLimit ≤ int64Max := by
  unfold Store.idLimit int64Max
  split_ifs <;> decide

theorem numbered_store {st : Store} (h : st.Numbered)
    (hn : st.nextMsgId + st.batch.length ≤ st.idLimit) :
    { st with
      messages := st.messages ++ Store.rowsOf st.nextMsgId st.batch
      nextMsgId := st.nextMsgId + st.batch.length
      batch := [] }.Numbered := by
  refine ⟨fun r hr => ?_, ?_, hn⟩
  · dsimp only
    rcases List.mem_append.mp hr with hr | hr
    · have := h.lt r hr
      omega
    · exact (mem_rowsOf hr).2.2
  · simp only [List.map_append]
    refine h.nodup.append (rowsOf_nodup _ _) fun id h1 h2 => ?_
    obtain ⟨r, hr, rfl⟩ := List.mem_map.mp h1
    obtain ⟨r', hr', he⟩ := List.mem_map.mp h2
    have h3 := h.lt r hr
    have h4 := (mem_rowsOf hr').2.1
    omega

/-- The row that `mark_delivered` makes of a row. -/
def markRow (uid maxId : Int) (r : FileMessage) : FileMessage :=
  if r.toUid = uid ∧ r.id ≤ maxId then { r with delivered := true } else r

theorem markRow_eq (uid maxId : Int) (r : FileMessage) :
    (markRow uid maxId r).id = r.id ∧ (markRow uid maxId r).toUid = r.toUid ∧
      (r.delivered = true → (markRow uid maxId r).delivered = true) := by
  unfold markRow
  split_ifs
  · exact ⟨rfl, rfl, fun _ => rfl⟩
  · exact ⟨rfl, rfl, id⟩

theorem markDelivered_messages (uid maxId : Int) (st : Store) :
    (st.markDelivered uid maxId).messages = st.messages.map (markRow uid maxId) := rfl

theorem numbered_mark {st : Store} (h : st.Numbered) (uid maxId : Int) :
    (st.markDelivered uid maxId).Numbered := by
  refine ⟨fun r hr => ?_, ?_, h.limit⟩
  · rw [markDelivered_messages] at hr
    obtain ⟨r₀, hr₀, rfl⟩ := List.mem_map.mp hr
    rw [(markRow_eq uid maxId r₀).1]
    exact h.lt r₀ hr₀
  · have hid : (st.markDelivered uid maxId).messages.map FileMessage.id =
        st.messages.map FileMessage.id := by
      rw [markDelivered_messages, List.map_map]
      exact List.map_congr_left fun r _ => (markRow_eq uid maxId r).1
    rw [hid]
    exact h.nodup

/-! ## Deliveries -/

/-- The user whose stored messages a step queries. -/
def State.queries (s : State) (l : Label) : Option Int :=
  match s.next l with
  | some (_, .queryOfflineMessages uid) => some uid
  | _ => none

/-- The step is a mark that the database refuses. -/
def State.failsToMark (s : State) (l : Label) : Bool :=
  match l, s.next l with
  | .thread _ e, some (_, .markDelivered _ _) => !(s.db.useFileStorage || e.ok)
  | _, _ => false

/-- A step that queries the stored messages of a user does so while no thread has messages of that
user to mark, and no mark fails. -/
def OneDelivery (P : Params) (l : Label) (s : State) : Prop :=
  (∀ uid ∈ s.queries l, ∀ i < P.poolThreads, ∀ w ∈ s.window i, w.1 ≠ uid) ∧
    s.failsToMark l = false

instance (P : Params) (l : Label) (s : State) : Decidable (OneDelivery P l s) := by
  unfold OneDelivery; infer_instance

/-- **Each stored message is queued once.** A message that has been queued is delivered or is among
those that a thread is going to mark; those that a thread has still to queue have not been queued; and
one thread at a time delivers the messages of a user. -/
structure Once (s : State) : Prop where
  numbered : s.db.Numbered
  nodup : (queuedIds s.log).Nodup
  rows : ∀ i uid rows n, s.delivering i = some (uid, rows, n) →
    (rows.map DBChatMessage.id).Nodup ∧ ∀ id ∈ rows.map DBChatMessage.id,
      ∃ r ∈ s.db.messages, r.id = id ∧ r.toUid = uid
  rest : ∀ i uid rows n, s.delivering i = some (uid, rows, n) →
    ∀ id ∈ (rows.map DBChatMessage.id).drop n, id ∉ queuedIds s.log
  alone : ∀ i j uid rows n rows' n', s.delivering i = some (uid, rows, n) →
    s.delivering j = some (uid, rows', n') → i = j
  sent : ∀ id ∈ queuedIds s.log, (∃ r ∈ s.db.messages, r.id = id ∧ r.delivered = true) ∨
    ∃ i uid rows n, s.delivering i = some (uid, rows, n) ∧ id ∈ rows.map DBChatMessage.id

theorem window_of_delivering (ht : Traced P s) {i : ℕ} {uid : Int} {rows : List DBChatMessage} {n : ℕ}
    (h : s.delivering i = some (uid, rows, n)) :
    i < P.poolThreads ∧ s.window i = some (uid, rows) := by
  simp only [State.delivering, Option.bind_eq_some_iff, Option.map_eq_some_iff, Prod.mk.injEq] at h
  obtain ⟨t, hi, ⟨uid', rows'⟩, hw, rfl, rfl, -⟩ := h
  exact ⟨ht.lt i t hi, by simp [State.window, hi, hw]⟩

theorem once_table (ho : Once s) (hnum : s'.db.Numbered) (hd : s'.delivering = s.delivering)
    (hq : queuedIds s'.log = queuedIds s.log)
    (hm : ∀ r ∈ s.db.messages, r ∈ s'.db.messages) : Once s' := by
  refine ⟨hnum, by rw [hq]; exact ho.nodup, fun i uid rows n hi => ?_, by rw [hd, hq]; exact ho.rest,
    by rw [hd]; exact ho.alone, fun id hid => ?_⟩
  · rw [hd] at hi
    refine ⟨(ho.rows i uid rows n hi).1, fun id hid => ?_⟩
    obtain ⟨r, hr, h1⟩ := (ho.rows i uid rows n hi).2 id hid
    exact ⟨r, hm r hr, h1⟩
  · rw [hq] at hid
    rw [hd]
    rcases ho.sent id hid with ⟨r, hr, h1⟩ | h1
    · exact .inl ⟨r, hm r hr, h1⟩
    · exact .inr h1

theorem mem_query {st : Store} {uid id : Int}
    (h : id ∈ (st.queryOfflineMessages uid).map DBChatMessage.id) :
    ∃ r ∈ st.messages, r.id = id ∧ r.toUid = uid ∧ r.delivered = false := by
  simp only [Store.queryOfflineMessages, List.map_map, List.mem_map, List.mem_filter,
    Function.comp_apply, Store.undelivered, Bool.and_eq_true, beq_iff_eq, Bool.not_eq_true'] at h
  obtain ⟨r, ⟨hr, hu, hd⟩, rfl⟩ := h
  exact ⟨r, hr, rfl, hu, hd⟩

theorem query_nodup {st : Store} (h : st.Numbered) (uid : Int) :
    ((st.queryOfflineMessages uid).map DBChatMessage.id).Nodup := by
  simp only [Store.queryOfflineMessages, List.map_map]
  exact (List.filter_sublist.map FileMessage.id).nodup h.nodup

/-- A query of a user whose messages no thread is delivering. -/
theorem once_query (ho : Once s) {i : ℕ} {uid : Int}
    (halone : ∀ j rows n, s.delivering j ≠ some (uid, rows, n)) (hnone : s.delivering i = none)
    (hd : s'.delivering = Function.update s.delivering i
      (some (uid, s.db.queryOfflineMessages uid, 0)))
    (hq : queuedIds s'.log = queuedIds s.log) (hm : s'.db = s.db) : Once s' := by
  -- what thread `j` delivers now: what the query has returned, or what it delivered before
  have split : ∀ j v rows n, s'.delivering j = some (v, rows, n) →
      (j = i ∧ v = uid ∧ rows = s.db.queryOfflineMessages uid) ∨
        s.delivering j = some (v, rows, n) := by
    intro j v rows n hj
    rw [hd, Function.update_apply] at hj
    split_ifs at hj with hji
    · simp only [Option.some.injEq, Prod.mk.injEq] at hj
      exact .inl ⟨hji, hj.1.symm, hj.2.1.symm⟩
    · exact .inr hj
  refine ⟨by rw [hm]; exact ho.numbered, by rw [hq]; exact ho.nodup, ?_, ?_, ?_, ?_⟩
  · intro j v rows n hj
    rw [hm]
    rcases split j v rows n hj with ⟨-, rfl, rfl⟩ | hj
    · refine ⟨query_nodup ho.numbered v, fun id hid => ?_⟩
      obtain ⟨r, hr, h1, h2, -⟩ := mem_query hid
      exact ⟨r, hr, h1, h2⟩
    · exact ho.rows j v rows n hj
  · intro j v rows n hj id hid
    rw [hq]
    rcases split j v rows n hj with ⟨-, rfl, rfl⟩ | hj
    · -- a row that has been queued is delivered, or another thread delivers it to this user
      intro hsent
      obtain ⟨r, hr, hrid, hto, hdel⟩ := mem_query (List.mem_of_mem_drop hid)
      rcases ho.sent id hsent with ⟨r', hr', hid', hdel'⟩ | ⟨k, u, rows', m, hk, hmem⟩
      · rw [ho.numbered.eq_of_id hr' hr (hid'.trans hrid.symm), hdel] at hdel'
        cases hdel'
      · obtain ⟨r', hr', hid', hto'⟩ := (ho.rows k u rows' m hk).2 id hmem
        rw [ho.numbered.eq_of_id hr' hr (hid'.trans hrid.symm), hto] at hto'
        subst hto'
        exact halone k rows' m hk
    · exact ho.rest j v rows n hj id hid
  · intro j k v rows n rows' n' hj hk
    rcases split j v rows n hj with ⟨rfl, rfl, -⟩ | hj <;>
      rcases split k _ rows' n' hk with ⟨rfl, h1, -⟩ | hk
    · rfl
    · exact absurd hk (halone k rows' n')
    · subst h1
      exact absurd hj (halone j rows n)
    · exact ho.alone j k v rows n rows' n' hj hk
  · intro id hid
    rw [hq] at hid
    rw [hm]
    refine (ho.sent id hid).imp_right ?_
    rintro ⟨j, v, rows, n, hj, hmem⟩
    have hji : j ≠ i := by
      rintro rfl
      rw [hnone] at hj
      cases hj
    exact ⟨j, v, rows, n, by rw [hd, Function.update_of_ne hji]; exact hj, hmem⟩

theorem once_queue (ho : Once s) {i : ℕ} {uid id : Int} {rows : List DBChatMessage} {n : ℕ}
    (h0 : s.delivering i = some (uid, rows, n)) (hid : (rows.map DBChatMessage.id)[n]? = some id)
    (hd : s'.delivering = Function.update s.delivering i (some (uid, rows, n + 1)))
    (hq : queuedIds s'.log = id :: queuedIds s.log) (hm : s'.db = s.db) : Once s' := by
  obtain ⟨hnodup, hrows⟩ := ho.rows i uid rows n h0
  have hdrop : (rows.map DBChatMessage.id).drop n =
      id :: (rows.map DBChatMessage.id).drop (n + 1) := by
    obtain ⟨hlt, rfl⟩ := List.getElem?_eq_some_iff.mp hid
    exact List.drop_eq_getElem_cons hlt
  have hmem : id ∈ rows.map DBChatMessage.id := List.mem_of_getElem? hid
  -- up to the number of messages queued, each thread delivers what it delivered before
  have split : ∀ j v rows' m, s'.delivering j = some (v, rows', m) →
      (j = i ∧ v = uid ∧ rows' = rows ∧ m = n + 1) ∨
        (j ≠ i ∧ s.delivering j = some (v, rows', m)) := by
    intro j v rows' m hj
    rw [hd, Function.update_apply] at hj
    split_ifs at hj with hji
    · simp only [Option.some.injEq, Prod.mk.injEq] at hj
      exact .inl ⟨hji, hj.1.symm, hj.2.1.symm, hj.2.2.symm⟩
    · exact .inr ⟨hji, hj⟩
  have before : ∀ j v rows' m, s'.delivering j = some (v, rows', m) →
      ∃ m', s.delivering j = some (v, rows', m') := by
    intro j v rows' m hj
    rcases split j v rows' m hj with ⟨rfl, rfl, rfl, -⟩ | ⟨-, hj⟩
    · exact ⟨n, h0⟩
    · exact ⟨m, hj⟩
  refine ⟨by rw [hm]; exact ho.numbered, ?_, ?_, ?_, ?_, ?_⟩
  · rw [hq, List.nodup_cons]
    exact ⟨ho.rest i uid rows n h0 id (by rw [hdrop]; exact List.mem_cons_self), ho.nodup⟩
  · intro j v rows' m hj
    obtain ⟨m', hj⟩ := before j v rows' m hj
    rw [hm]
    exact ho.rows j v rows' m' hj
  · intro j v rows' m hj x hx
    rw [hq, List.mem_cons, not_or]
    rcases split j v rows' m hj with ⟨rfl, rfl, rfl, rfl⟩ | ⟨hji, hj⟩
    · have hsub := hnodup.sublist (List.drop_sublist n _)
      rw [hdrop, List.nodup_cons] at hsub
      refine ⟨fun he => hsub.1 (he ▸ hx), ho.rest j v rows' n h0 x ?_⟩
      rw [hdrop]
      exact List.mem_cons_of_mem _ hx
    · refine ⟨?_, ho.rest j v rows' m hj x hx⟩
      -- two threads deliver one message only to one user, and then they are the same
      rintro rfl
      obtain ⟨r, hr, hrid, hto⟩ := hrows x hmem
      obtain ⟨r', hr', hrid', hto'⟩ := (ho.rows j v rows' m hj).2 x (List.mem_of_mem_drop hx)
      rw [ho.numbered.eq_of_id hr' hr (hrid'.trans hrid.symm), hto] at hto'
      subst hto'
      exact hji (ho.alone j i uid rows' m rows n hj h0)
  · intro j k v rows₁ m rows₂ m' hj hk
    obtain ⟨m₁, hj⟩ := before j v rows₁ m hj
    obtain ⟨m₂, hk⟩ := before k v rows₂ m' hk
    exact ho.alone j k v rows₁ m₁ rows₂ m₂ hj hk
  · intro x hx
    rw [hq] at hx
    rw [hm]
    have hi : s'.delivering i = some (uid, rows, n + 1) := by rw [hd, Function.update_self]
    rcases List.mem_cons.mp hx with rfl | hx
    · exact .inr ⟨i, uid, rows, n + 1, hi, hmem⟩
    refine (ho.sent x hx).imp_right ?_
    rintro ⟨j, v, rows', m, hj, hmem'⟩
    by_cases hji : j = i
    · subst hji
      rw [h0, Option.some.injEq, Prod.mk.injEq, Prod.mk.injEq] at hj
      obtain ⟨rfl, rfl, rfl⟩ := hj
      exact ⟨j, uid, rows, n + 1, hi, hmem'⟩
    · exact ⟨j, v, rows', m, by rw [hd, Function.update_of_ne hji]; exact hj, hmem'⟩

theorem mem_markDelivered {st : Store} {r : FileMessage} (uid maxId : Int) (h : r ∈ st.messages) :
    ∃ r' ∈ (st.markDelivered uid maxId).messages, r'.id = r.id ∧ r'.toUid = r.toUid ∧
      (r.delivered = true → r'.delivered = true) :=
  ⟨markRow uid maxId r, by rw [markDelivered_messages]; exact List.mem_map_of_mem h,
    markRow_eq uid maxId r⟩

theorem once_mark (ho : Once s) {i : ℕ} {uid : Int} {rows : List DBChatMessage} {n : ℕ}
    (h0 : s.delivering i = some (uid, rows, n))
    (hd : s'.delivering = Function.update s.delivering i none)
    (hq : queuedIds s'.log = queuedIds s.log) (hm : s'.db = s.db.markDelivered uid int64Max) :
    Once s' := by
  have before : ∀ j x, s'.delivering j = some x → s.delivering j = some x := by
    intro j x hj
    rw [hd, Function.update_apply] at hj
    split_ifs at hj
    exact hj
  refine ⟨by rw [hm]; exact numbered_mark ho.numbered _ _, by rw [hq]; exact ho.nodup, ?_, ?_, ?_, ?_⟩
  · intro j v rows' m hj
    obtain ⟨h1, h2⟩ := ho.rows j v rows' m (before j _ hj)
    refine ⟨h1, fun id hid => ?_⟩
    obtain ⟨r, hr, rfl, rfl⟩ := h2 id hid
    obtain ⟨r', hr', h3, h4, -⟩ := mem_markDelivered uid int64Max hr
    exact ⟨r', by rw [hm]; exact hr', h3, h4⟩
  · intro j v rows' m hj
    rw [hq]
    exact ho.rest j v rows' m (before j _ hj)
  · intro j k v rows₁ m rows₂ m' hj hk
    exact ho.alone j k v rows₁ m rows₂ m' (before j _ hj) (before k _ hk)
  · intro id hid
    rw [hq] at hid
    rw [hm]
    rcases ho.sent id hid with ⟨r, hr, rfl, hdel⟩ | ⟨j, v, rows', m, hj, hmem⟩
    · obtain ⟨r', hr', h3, -, h4⟩ := mem_markDelivered uid int64Max hr
      exact .inl ⟨r', hr', h3, h4 hdel⟩
    by_cases hji : j = i
    · -- the messages of this thread become delivered: their ids are below the bound of the mark
      subst hji
      rw [h0, Option.some.injEq, Prod.mk.injEq, Prod.mk.injEq] at hj
      obtain ⟨rfl, rfl, rfl⟩ := hj
      obtain ⟨r, hr, rfl, hto⟩ := (ho.rows j uid rows n h0).2 id hmem
      have hle : r.id ≤ int64Max := by
        have h1 := ho.numbered.lt r hr
        have h2 := ho.numbered.limit
        have h3 := idLimit_le s.db
        omega
      refine .inl ⟨markRow uid int64Max r, ?_, (markRow_eq uid int64Max r).1, ?_⟩
      · rw [markDelivered_messages]
        exact List.mem_map_of_mem hr
      · rw [markRow, if_pos ⟨hto, hle⟩]
    · exact .inr ⟨j, v, rows', m, by rw [hd, Function.update_of_ne hji]; exact hj, hmem⟩

theorem once_move (ht : Traced P s) (ho : Once s) (hC : OneDelivery P l s) (h : Move P s l s') :
    Once s' := by
  cases delivery_of_move ht h with
  | none hd hq hm =>
      obtain ⟨hmsg, hnext, hfile⟩ := hm
      have hnum : s'.db.Numbered := by
        refine ⟨by rw [hmsg, hnext]; exact ho.numbered.lt, by rw [hmsg]; exact ho.numbered.nodup, ?_⟩
        rw [hnext, Store.idLimit, hfile]
        exact ho.numbered.limit
      exact once_table ho hnum hd hq fun r hr => by rw [hmsg]; exact hr
  | store hd hq hn hm =>
      refine once_table ho (by rw [hm]; exact numbered_store ho.numbered hn) hd hq fun r hr => ?_
      rw [hm]
      exact List.mem_append_left _ hr
  | query i o uid hl h0 hd hq hm =>
      refine once_query ho (fun j rows n hj => ?_) h0 hd hq hm
      obtain ⟨hlt, hw⟩ := window_of_delivering ht hj
      exact hC.1 uid (by simp [State.queries, hl]) j hlt _ hw rfl
  | queue i uid rows n id h0 hid hd hq hm => exact once_queue ho h0 hid hd hq hm
  | mark i e o uid rows n hl hn h0 hd hq hm =>
      have hok : (s.db.useFileStorage || e.ok) = true := by
        have hC2 := hC.2
        subst hl
        simpa only [State.failsToMark, hn, Bool.not_eq_false'] using hC2
      rw [if_pos hok] at hm
      exact once_mark ho h0 hd hq hm

/-- **Stored messages are queued once.** On a store whose messages are numbered, in a run in which a
login queries the stored messages of a user while no thread has messages of that user to mark, and
no mark fails, the logins queue each stored message at most once. -/
theorem queued_once (h : RunTo P db (OneDelivery P) s) (hdb : db.Numbered) :
    (queuedIds s.log).Nodup := by
  have ho : Once s := run_invariant h Once
    ⟨hdb, List.nodup_nil, fun _ _ _ _ h => (by cases h), fun _ _ _ _ h => (by cases h),
      fun _ _ _ _ _ _ _ h => (by cases h), fun _ h => (by cases h)⟩
    fun _ _ _ hr _ hC ho hm => once_move (traced_of_run hr) ho hC hm
  exact ho.nodup

theorem sample_numbered : Sample.db.Numbered :=
  ⟨fun _ h => (by cases h), List.nodup_nil, by decide⟩

/-- A client sends `hi` to user `b`, who logs in on two connections, one after the other. -/
theorem queued_once_sample :
    ∃ s, RunTo Sample.params Sample.db (OneDelivery Sample.params) s ∧ queuedIds s.log = [1] ∧
      (queuedIds s.log).Nodup := by
  obtain ⟨s, hr, hq⟩ := Sample.exists_run (OneDelivery Sample.params)
    (Sample.connect 5 ++ Sample.connect 6 ++ [Sample.packet 0 .chat Sample.chatToB] ++
      Sample.work 0 9 ++ [.drain, .flush true, Sample.packet 0 .login Sample.loginB] ++
      Sample.work 0 10 ++ [Sample.packet 1 .login Sample.loginB] ++ Sample.work 0 11)
    (fun s => queuedIds s.log = [1]) (by decide)
  exact ⟨s, hr, hq, queued_once hr sample_numbered⟩

/-- A client sends `hi` to user `b`, who logs in on two connections at once: both logins query the
message before either marks it, and both queue it. -/
theorem queued_twice : ∃ s, RunTo Sample.params Sample.db (fun _ _ => True) s ∧
    ¬ (queuedIds s.log).Nodup := by
  obtain ⟨s, hr, hq⟩ := Sample.exists_run (fun _ _ => True)
    (Sample.connect 5 ++ Sample.connect 6 ++ [Sample.packet 0 .chat Sample.chatToB] ++
      Sample.work 0 9 ++ [.drain, .flush true, Sample.packet 0 .login Sample.loginB,
        Sample.packet 1 .login Sample.loginB] ++
      Sample.work 0 7 ++ Sample.work 1 11)
    (fun s => ¬ (queuedIds s.log).Nodup) (by decide)
  exact ⟨s, hr, hq⟩

end AuraChat
