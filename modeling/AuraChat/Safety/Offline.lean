import AuraChat.Model.Sample
import AuraChat.Server.Messages

set_option autoImplicit false

/-!
# Stored messages are not lost

A login queries the stored messages of the user, queues them, and marks all messages of the user as
delivered, up to the largest id that there is. A message that the batch writer stores between the
query and the mark is marked without having been queued (`stored_message_lost`), and so is one that
was queued to a connection which is already gone. When neither happens, a message that a step marks
was returned by a query and queued to a connection of the user.

* `OfflineSafe`: the condition on a step;
* `Kept`, **`marked_was_queued`**.
-/

namespace AuraChat

open Interleave

variable {P : Params} {db : Store} {s s' : State} {l : Label}

/-- The context to which the next call of a step queues a stored message. -/
def State.offlineTo (s : State) (l : Label) : Option ℕ :=
  match s.next l with
  | some (_, .queueSendPacket x _ _ _ (.offline _)) => some x
  | _ => none

/-- The batch writer does not store an undelivered message for a user while a thread has messages of
that user to mark; and a thread queues a stored message while its context has an open connection and
the user's uid. -/
def OfflineSafe (P : Params) (l : Label) (s : State) : Prop :=
  match l with
  | .flush ok => (s.db.useFileStorage || ok) = true → ∀ i < P.poolThreads, ∀ w ∈ s.window i,
      ∀ m ∈ s.db.batch, m.toUid = w.1 → m.delivered = true
  | .thread i e => ∀ x ∈ s.offlineTo (.thread i e), ∀ w ∈ s.window i,
      (s.net.holder x).isSome ∧ (s.net.ctxs x).uid = w.1
  | _ => True

instance (P : Params) (l : Label) (s : State) : Decidable (OfflineSafe P l s) := by
  unfold OfflineSafe; split <;> infer_instance

/-- The message that `query_offline_messages` makes of a row. -/
def FileMessage.toMessage (r : FileMessage) : DBChatMessage :=
  ⟨r.id, r.fromUid, r.toUid, r.content, false⟩

/-- **The messages that a thread is going to mark** are those it was given, and the ones it has
queued so far have gone to a connection of the user. -/
structure Kept (s : State) : Prop where
  given : ∀ i t uid rows, s.threads i = some t → window t.hist = some (uid, rows) →
    ∀ r ∈ s.db.messages, Store.undelivered uid r = true → r.toMessage ∈ rows
  queued : ∀ i t uid rows, s.threads i = some t → window t.hist = some (uid, rows) →
    ∀ id ∈ offlineIds t.hist, ∃ f c, .queued f (some c) uid ∈ s.log ∧ f.origin = t.task.origin ∧
      f.why = .offline id

theorem given_of_query {uid : Int} {st : Store} {r : FileMessage} (hr : r ∈ st.messages)
    (hu : Store.undelivered uid r = true) : r.toMessage ∈ st.queryOfflineMessages uid :=
  List.mem_map.mpr ⟨r, List.mem_filter.mpr ⟨hr, hu⟩, rfl⟩

theorem given_kept (ht : Traced P s) (hk : Kept s) (hC : OfflineSafe P l s) (h : Move P s l s')
    {i : ℕ} {t : Thread} {uid : Int} {rows : List DBChatMessage} (hi : s.threads i = some t)
    (hw : window t.hist = some (uid, rows)) {r : FileMessage} (hr : r ∈ s'.db.messages)
    (hu : Store.undelivered uid r = true) : r.toMessage ∈ rows := by
  rcases move_db h with ⟨hm, -⟩ | ⟨o, v, maxId, -, hdb⟩ | ⟨ok, rfl, hok, -, hdb⟩
  · exact hk.given i t uid rows hi hw r (hm ▸ hr) hu
  · rw [hdb] at hr
    exact hk.given i t uid rows hi hw r (undelivered_markDelivered hr hu) hu
  · rw [hdb] at hr
    rcases List.mem_append.mp hr with hr | hr
    · exact hk.given i t uid rows hi hw r hr hu
    · -- the batch has no undelivered message for the user
      obtain ⟨⟨m, hm, hto, hdel⟩, -⟩ := mem_rowsOf hr
      simp only [Store.undelivered, Bool.and_eq_true, beq_iff_eq, Bool.not_eq_true'] at hu
      have hdone := hC hok i (ht.lt i t hi) (uid, rows) (by simp [State.window, hi, hw]) m hm
        (hto.symm.trans hu.1)
      rw [← hdel, hu.2] at hdone
      cases hdone

theorem kept_move (ht : Traced P s) (hk : Kept s) (hC : OfflineSafe P l s) (h : Move P s l s') :
    Kept s' := by
  refine ⟨fun i t' uid rows ht' hw r hr hu => ?_, fun i t' uid rows ht' hw id hid => ?_⟩
  · rcases move_thread h ht' with hi | ⟨-, t, -, script, rfl⟩ |
      ⟨e, t, a, k, rep, rfl, hi, hp, rfl, -, s₁, ha, hdb⟩
    · exact given_kept ht hk hC h hi hw hr hu
    · cases hw
    · rw [window_snoc] at hw
      rcases track_eq_some hw with ⟨he, hne⟩ | ⟨hw, -⟩
      · cases he
        obtain ⟨rfl, rfl⟩ := query_rows ha hne
        rw [hdb] at hr
        exact given_of_query hr hu
      · exact given_kept ht hk hC h hi hw hr hu
  · rcases move_thread h ht' with hi | ⟨-, t, -, script, rfl⟩ |
      ⟨e, t, a, k, rep, rfl, hi, hp, rfl, -⟩
    · obtain ⟨f, c, hq, hf⟩ := hk.queued i t' uid rows hi hw id hid
      exact ⟨f, c, move_log h hq, hf⟩
    · cases hw
    · have hn := next_thread e hi hp
      have hg := ht.guard hi hp
      rw [window_snoc] at hw
      rw [offlineIds_snoc] at hid
      rcases track_eq_some hw with ⟨he, -⟩ | ⟨hw₀, -⟩
      · cases he
        rw [hg.2.offlineIds] at hid
        cases hid
      rcases List.mem_append.mp hid with hid | hid
      · obtain ⟨f, c, hq, hf⟩ := hk.queued i t uid rows hi hw₀ id hid
        exact ⟨f, c, move_log h hq, hf⟩
      · -- this step queues the message
        obtain ⟨x, cmd, seq, body, rfl⟩ := offlineId_eq_some (Option.mem_toList.mp hid)
        obtain ⟨hsome, hu⟩ := hC x (by simp [State.offlineTo, hn]) (uid, rows)
          (by simp [State.window, hi, hw₀])
        obtain ⟨c, hc⟩ := Option.isSome_iff_exists.mp hsome
        have hq := move_queued h hn
        rw [hc, hu] at hq
        exact ⟨_, c, hq, rfl, rfl⟩

/-- A row becomes delivered by the mark of a thread. -/
theorem marks_of_delivered (h : Move P s l s') {j : ℕ} {r r' : FileMessage}
    (hj : s.db.messages[j]? = some r) (hj' : s'.db.messages[j]? = some r')
    (h0 : r.delivered = false) (h1 : r'.delivered = true) :
    ∃ o maxId, s.next l = some (o, .markDelivered r.toUid maxId) := by
  rcases move_db h with ⟨hm, -⟩ | ⟨o, v, maxId, hn, hdb⟩ | ⟨ok, -, -, -, hdb⟩
  · rw [hm, hj] at hj'
    obtain rfl := Option.some.inj hj'
    rw [h0] at h1
    cases h1
  · rw [hdb] at hj'
    simp only [Store.markDelivered, List.getElem?_map, hj, Option.map_some, Option.some.injEq] at hj'
    split_ifs at hj' with hc
    · exact ⟨o, maxId, hc.1 ▸ hn⟩
    · rw [← hj', h0] at h1
      cases h1
  · rw [hdb] at hj'
    have hlt : j < s.db.messages.length := (List.getElem?_eq_some_iff.mp hj).1
    dsimp only at hj'
    rw [List.getElem?_append_left hlt, hj] at hj'
    obtain rfl := Option.some.inj hj'
    rw [h0] at h1
    cases h1

/-- **No stored message is lost at a login.** In a run in which the batch writer does not store an
undelivered message for a user whose messages are about to be marked, and stored messages are queued
while their connection is open under the user's uid, a row that a step makes delivered was returned
by a query for its user and queued to a connection of that user. -/
theorem marked_was_queued (h : RunTo P db (OfflineSafe P) s) (hs : step P l s = some s') (j : ℕ)
    (r r' : FileMessage) (hj : s.db.messages[j]? = some r) (hj' : s'.db.messages[j]? = some r')
    (h0 : r.delivered = false) (h1 : r'.delivered = true) :
    ∃ o rows f c, .did o ⟨.queryOfflineMessages r.toUid, .ok rows⟩ ∈ s.log ∧ r.toMessage ∈ rows ∧
      .queued f (some c) r.toUid ∈ s.log ∧ f.origin = o ∧ f.why = .offline r.id := by
  have ht := traced_of_run h
  have hk : Kept s := run_invariant h Kept
    ⟨fun _ _ _ _ h => (by cases h), fun _ _ _ _ h => (by cases h)⟩
    fun _ _ _ hr _ hC hk hm => kept_move (traced_of_run hr) hk hC hm
  obtain ⟨o, maxId, hn⟩ := marks_of_delivered (move_of_step (wf_of_run h) hs) hj hj' h0 h1
  obtain ⟨i, e, t, -, hi, rfl, -, rows, hw, hids⟩ := ht.next_guard hn
  have hmem : r.toMessage ∈ rows := hk.given i t _ rows hi hw r (List.mem_of_getElem? hj)
    (by simp [Store.undelivered, h0])
  have hid : r.id ∈ offlineIds t.hist := by
    rw [hids]
    exact List.mem_map.mpr ⟨_, hmem, rfl⟩
  obtain ⟨f, c, hq, hf⟩ := hk.queued i t _ rows hi hw r.id hid
  exact ⟨_, rows, f, c, ht.hist i t hi _ (ht.window_spec hi hw).asked, hmem, hq, hf⟩

/-- A client sends `hi` to user `b`, who logs in later. -/
theorem marked_was_queued_sample :
    ∃ s s', RunTo Sample.params Sample.db (OfflineSafe Sample.params) s ∧
    step Sample.params (.thread 1 {}) s = some s' ∧
    s.db.messages[0]? = some ⟨1, 0, 1001, bytes "hi", false⟩ ∧
    s'.db.messages[0]? = some ⟨1, 0, 1001, bytes "hi", true⟩ ∧
    ∃ o rows f c, .did o ⟨.queryOfflineMessages 1001, .ok rows⟩ ∈ s.log ∧
      FileMessage.toMessage ⟨1, 0, 1001, bytes "hi", false⟩ ∈ rows ∧
      .queued f (some c) 1001 ∈ s.log ∧ f.origin = o ∧ f.why = .offline 1 := by
  obtain ⟨s, hr, hj, s', hs, hj'⟩ := Sample.exists_run (OfflineSafe Sample.params)
    (Sample.connect 5 ++ Sample.connect 6 ++ [Sample.packet 0 .chat Sample.chatToB] ++
      Sample.work 0 8 ++ [.drain, .flush true, Sample.packet 1 .login Sample.loginB] ++
      Sample.work 1 7)
    (fun s => s.db.messages[0]? = some ⟨1, 0, 1001, bytes "hi", false⟩ ∧
      ∃ s' ∈ step Sample.params (.thread 1 {}) s,
        s'.db.messages[0]? = some ⟨1, 0, 1001, bytes "hi", true⟩) (by decide)
  exact ⟨s, s', hr, hs, hj, hj', marked_was_queued hr hs 0 _ _ hj hj' rfl rfl⟩

/-- A client sends `hi` to user `b` twice. The second message is stored between the query and the
mark of the login of `b`: it is marked, and has not been queued. -/
theorem stored_message_lost : ∃ s s', RunTo Sample.params Sample.db (fun _ _ => True) s ∧
    step Sample.params (.thread 1 {}) s = some s' ∧
    s.db.messages[1]? = some ⟨2, 0, 1001, bytes "hi", false⟩ ∧
    s'.db.messages[1]? = some ⟨2, 0, 1001, bytes "hi", true⟩ ∧
    ∀ f holder uid, .queued f holder uid ∈ s.log → f.why ≠ .offline 2 := by
  obtain ⟨s, hr, ⟨s', hs, hj'⟩, hj, hno⟩ := Sample.exists_run (fun _ _ => True)
    (Sample.connect 5 ++ Sample.connect 6 ++ [Sample.packet 0 .chat Sample.chatToB] ++
      Sample.work 0 9 ++ [.drain, .flush true, Sample.packet 0 .chat Sample.chatToB] ++
      Sample.work 0 8 ++ [Sample.packet 1 .login Sample.loginB] ++
      Sample.work 1 5 ++ [.drain, .flush true, .thread 1 {}, .thread 1 {}])
    (fun s => (∃ s' ∈ step Sample.params (.thread 1 {}) s,
        s'.db.messages[1]? = some ⟨2, 0, 1001, bytes "hi", true⟩) ∧
      s.db.messages[1]? = some ⟨2, 0, 1001, bytes "hi", false⟩ ∧ 2 ∉ queuedIds s.log)
    (by decide)
  exact ⟨s, s', hr, hs, hj, hj', fun f holder uid hq hw =>
    hno (mem_queuedIds.mpr ⟨f, holder, uid, hq, hw⟩)⟩

end AuraChat
