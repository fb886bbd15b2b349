import AuraChat.Server.Trace
import AuraChat.Storage.Rows

set_option autoImplicit false

/-!
# Stored messages

How the table of messages changes, and what a thread that delivers stored messages has done.

* `move_db`: the table stays, a `mark_delivered` is run on it, or a batch is appended;
* `Traced.window_spec`: a thread that has messages to mark has been given them by a query, and has
  queued a part of them, from the front;
* `Traced.window_finished`: a thread does not end with messages to mark.
-/

namespace AuraChat

open Interleave

variable {P : Params} {db : Store} {s s' : State} {l : Label}

/-! ## The table -/

theorem effect_db {o : Origin} {a : Call} (h : Effect P o s a s') :
    (s'.db.messages = s.db.messages ∧ s'.db.nextMsgId = s.db.nextMsgId ∧
      s'.db.useFileStorage = s.db.useFileStorage) ∨
    ∃ uid maxId, a = .markDelivered uid maxId ∧ s'.db = s.db.markDelivered uid maxId := by
  cases h with
  | mark uid maxId => exact .inr ⟨uid, maxId, rfl, rfl⟩
  | _ => exact .inl ⟨rfl, rfl, rfl⟩

/-- **How the table of messages changes.** -/
theorem move_db (h : Move P s l s') :
    (s'.db.messages = s.db.messages ∧ s'.db.nextMsgId = s.db.nextMsgId ∧
      s'.db.useFileStorage = s.db.useFileStorage) ∨
    (∃ o uid maxId, s.next l = some (o, .markDelivered uid maxId) ∧
      s'.db = s.db.markDelivered uid maxId) ∨
    ∃ ok, l = .flush ok ∧ (s.db.useFileStorage || ok) = true ∧
      s.db.nextMsgId + s.db.batch.length ≤ s.db.idLimit ∧
      s'.db = { s.db with
        messages := s.db.messages ++ Store.rowsOf s.db.nextMsgId s.db.batch
        nextMsgId := s.db.nextMsgId + s.db.batch.length
        batch := [] } := by
  cases h with
  | call i e t a k r s₁ hi hp ha =>
      rcases effect_db (act_effect ha) with h1 | ⟨uid, maxId, rfl, h1⟩
      · exact .inl h1
      · exact .inr (.inl ⟨_, uid, maxId, next_thread e hi hp, h1⟩)
  | flush ok hn =>
      by_cases hok : (s.db.useFileStorage || ok) = true
      · exact .inr (.inr ⟨ok, rfl, hok, hn, by simp only [Store.flush, if_pos hok]⟩)
      · refine .inl ?_
        simp only [Store.flush, if_neg hok]
        exact ⟨trivial, trivial, trivial⟩
  | _ => exact .inl ⟨rfl, rfl, rfl⟩

theorem undelivered_markDelivered {st : Store} {uid maxId v : Int} {r : FileMessage}
    (hr : r ∈ (st.markDelivered uid maxId).messages) (hu : Store.undelivered v r = true) :
    r ∈ st.messages := by
  simp only [Store.markDelivered, List.mem_map] at hr
  obtain ⟨r₀, hr₀, rfl⟩ := hr
  split_ifs at hu ⊢ with hc
  · simp [Store.undelivered] at hu
  · exact hr₀

/-! ## The threads -/

/-- The window of a thread after a call: a query has opened it, or it was open before. -/
theorem track_eq_some {w : Option (Int × List DBChatMessage)} {e : Event Reply} {uid : Int}
    {rows : List DBChatMessage} (h : track w e = some (uid, rows)) :
    (e = ⟨.queryOfflineMessages uid, .ok rows⟩ ∧ rows ≠ []) ∨
      (w = some (uid, rows) ∧ ∀ v maxId, e.1 ≠ .markDelivered v maxId) := by
  unfold track at h
  split at h
  · split_ifs at h with hne
    simp only [Option.some.injEq, Prod.mk.injEq] at h
    obtain ⟨rfl, rfl⟩ := h
    exact .inl ⟨rfl, hne⟩
  · cases h
  · rename_i hmark
    refine .inr ⟨h, fun v maxId he => ?_⟩
    obtain ⟨a, r⟩ := e
    obtain rfl : a = .markDelivered v maxId := he
    exact hmark v maxId r rfl

theorem offlineIds_snoc (h : List (Event Reply)) (e : Event Reply) :
    offlineIds (h ++ [e]) = offlineIds h ++ (offlineId e.1).toList := by
  rw [offlineIds_append]
  cases he : offlineId e.1 <;> simp [offlineIds, he]

theorem offlineId_eq_some {a : Call} {id : Int} (h : offlineId a = some id) :
    ∃ x cmd seq body, a = .queueSendPacket x cmd seq body (.offline id) := by
  unfold offlineId at h
  split at h
  · cases h
    exact ⟨_, _, _, _, rfl⟩
  · cases h

/-- What a thread with messages to mark has done. -/
structure WindowSpec (t : Task) (h : List (Event Reply)) (uid : Int) (rows : List DBChatMessage) :
    Prop where
  login : t.isLogin
  asked : ⟨.queryOfflineMessages uid, .ok rows⟩ ∈ h
  part : offlineIds h <+: rows.map DBChatMessage.id

theorem Traced.history (ht : Traced P s) {i : ℕ} {t : Thread} (hi : s.threads i = some t)
    (J : List (Event Reply) → Prop) (h₀ : J [])
    (hstep : ∀ h a r, Guard P t.task h a → J h → J (h ++ [⟨a, r⟩])) : J t.hist :=
  (ht.path i t hi).history J h₀ hstep (task_guard P t.task t.script)

/-- A thread with messages to mark has been given them, and has queued a part of them. -/
theorem Traced.window_spec (ht : Traced P s) {i : ℕ} {t : Thread} (hi : s.threads i = some t)
    {uid : Int} {rows : List DBChatMessage} (hw : window t.hist = some (uid, rows)) :
    WindowSpec t.task t.hist uid rows := by
  refine ht.history hi (fun h => ∀ uid rows, window h = some (uid, rows) →
    WindowSpec t.task h uid rows) (fun _ _ h => by cases h) ?_ uid rows hw
  intro h a r hg ih uid rows hw
  rw [window_snoc] at hw
  rcases track_eq_some hw with ⟨he, -⟩ | ⟨hw₀, -⟩
  · cases he
    refine ⟨hg.1, by simp, ?_⟩
    rw [offlineIds_snoc, hg.2.offlineIds]
    exact List.nil_prefix
  · obtain ⟨hl, hm, hp⟩ := ih uid rows hw₀
    refine ⟨hl, List.mem_append_left _ hm, ?_⟩
    rw [offlineIds_snoc]
    cases hid : offlineId a with
    | none => simpa [hid] using hp
    | some id =>
        obtain ⟨x, cmd, seq, body, rfl⟩ := offlineId_eq_some hid
        obtain ⟨-, uid', rows', hw', hp'⟩ := hg
        rw [hw₀, Option.some.injEq, Prod.mk.injEq] at hw'
        obtain ⟨rfl, rfl⟩ := hw'
        exact hp'

theorem Traced.window_finished (ht : Traced P s) {i : ℕ} {t : Thread} (hi : s.threads i = some t)
    (hp : t.prog = .ret ()) : window t.hist = none := by
  rcases hw : window t.hist with _ | ⟨uid, rows⟩
  · rfl
  · have hpath := ht.path i t hi
    rw [hp] at hpath
    have hend := hpath.sat (task_guard P t.task t.script) (ht.window_spec hi hw).login
    rw [hend] at hw
    cases hw

/-! ## Reading the record -/

/-- The stored message that a frame carries. -/
def Frame.msgId (f : Frame) : Option Int :=
  match f.why with
  | .offline id => some id
  | _ => none

/-- The stored messages that have been queued by logins, newest first. -/
def queuedIds (log : List Entry) : List Int :=
  log.filterMap fun e => match e with
    | .queued f _ _ => f.msgId
    | _ => none

theorem mem_queuedIds {log : List Entry} {id : Int} :
    id ∈ queuedIds log ↔ ∃ f holder uid, .queued f holder uid ∈ log ∧ f.why = .offline id := by
  simp only [queuedIds, List.mem_filterMap]
  constructor
  · rintro ⟨e, he, heq⟩
    split at heq
    · rename_i f holder uid
      refine ⟨f, holder, uid, he, ?_⟩
      unfold Frame.msgId at heq
      split at heq
      · rename_i hw
        rw [hw, Option.some.inj heq]
      · cases heq
    · cases heq
  · rintro ⟨f, holder, uid, he, hw⟩
    exact ⟨_, he, by simp [Frame.msgId, hw]⟩

/-! ## Deliveries -/

/-- The stored messages that thread `i` has been given and has not marked yet. -/
def State.window (s : State) (i : ℕ) : Option (Int × List DBChatMessage) :=
  (s.threads i).bind fun t => AuraChat.window t.hist

theorem query_rows {o : Origin} {uid : Int} {e : Ext} {rows : List DBChatMessage} {s₁ : State}
    (ha : act P o (.queryOfflineMessages uid) e s = some (.ok rows, s₁)) (hne : rows ≠ []) :
    rows = s.db.queryOfflineMessages uid ∧ s₁ = s := by
  simp only [act, Ext.give, Option.some.injEq, Prod.mk.injEq] at ha
  obtain ⟨h1, rfl⟩ := ha
  split_ifs at h1 with ht hok
  · exact ⟨(Except.ok.inj h1).symm, rfl⟩
  · exact absurd (Except.ok.inj h1).symm hne

/-- What thread `i` is delivering: for which user, which messages, and how many of them it has
queued. -/
def State.delivering (s : State) (i : ℕ) : Option (Int × List DBChatMessage × ℕ) :=
  (s.threads i).bind fun t =>
    (AuraChat.window t.hist).map fun w => (w.1, w.2, (offlineIds t.hist).length)

/-- How a step changes the deliveries, the record of queued messages and the table. -/
inductive Delivery (s : State) (l : Label) (s' : State) : Prop
  | none (hd : s'.delivering = s.delivering) (hq : queuedIds s'.log = queuedIds s.log)
      (hm : s'.db.messages = s.db.messages ∧ s'.db.nextMsgId = s.db.nextMsgId ∧
        s'.db.useFileStorage = s.db.useFileStorage)
  | store (hd : s'.delivering = s.delivering) (hq : queuedIds s'.log = queuedIds s.log)
      (hn : s.db.nextMsgId + s.db.batch.length ≤ s.db.idLimit)
      (hm : s'.db = { s.db with
        messages := s.db.messages ++ Store.rowsOf s.db.nextMsgId s.db.batch
        nextMsgId := s.db.nextMsgId + s.db.batch.length
        batch := [] })
  | query (i : ℕ) (o : Origin) (uid : Int)
      (hl : s.next l = some (o, .queryOfflineMessages uid)) (h0 : s.delivering i = none)
      (hd : s'.delivering = Function.update s.delivering i
        (some (uid, s.db.queryOfflineMessages uid, 0)))
      (hq : queuedIds s'.log = queuedIds s.log) (hm : s'.db = s.db)
  | queue (i : ℕ) (uid : Int) (rows : List DBChatMessage) (n : ℕ) (id : Int)
      (h0 : s.delivering i = some (uid, rows, n)) (hid : (rows.map DBChatMessage.id)[n]? = some id)
      (hd : s'.delivering = Function.update s.delivering i (some (uid, rows, n + 1)))
      (hq : queuedIds s'.log = id :: queuedIds s.log) (hm : s'.db = s.db)
  | mark (i : ℕ) (e : Ext) (o : Origin) (uid : Int) (rows : List DBChatMessage) (n : ℕ)
      (hl : l = .thread i e) (hn : s.next l = some (o, .markDelivered uid int64Max))
      (h0 : s.delivering i = some (uid, rows, n))
      (hd : s'.delivering = Function.update s.delivering i none)
      (hq : queuedIds s'.log = queuedIds s.log)
      (hm : s'.db = if s.db.useFileStorage || e.ok then s.db.markDelivered uid int64Max else s.db)

theorem queuedIds_cons (e : Entry) (log : List Entry)
    (h : ∀ f holder uid, e = .queued f holder uid → f.msgId = none) :
    queuedIds (e :: log) = queuedIds log := by
  unfold queuedIds
  rw [List.filterMap_cons]
  split
  · rfl
  · rename_i heq
    split at heq
    · rw [h _ _ _ rfl] at heq
      cases heq
    · cases heq

theorem delivering_update {i : ℕ} {t' : Option Thread} {s₁ : State}
    (hth : s₁.threads = Function.update s.threads i t') :
    s₁.delivering = Function.update s.delivering i (t'.bind fun t =>
      (AuraChat.window t.hist).map fun w => (w.1, w.2, (offlineIds t.hist).length)) := by
  funext j
  simp only [State.delivering, hth, Function.update_apply]
  split_ifs <;> rfl

/-- The state after a call of thread `i`, as `Move.call` leaves it. -/
def afterCall (i : ℕ) (t : Thread) (a : Call) (k : Reply a → Prog Reply Unit) (r : Reply a)
    (s₁ : State) : State :=
  { s₁ with
    threads := Function.update s₁.threads i
      (some { t with hist := t.hist ++ [⟨a, r⟩], prog := k r })
    log := .did t.task.origin ⟨a, r⟩ :: s₁.log }

section Calls

variable {i : ℕ} {e : Ext} {t : Thread} {a : Call} {k : Reply a → Prog Reply Unit} {r : Reply a}
  {s₁ : State}

theorem afterCall_delivering (heff : Effect P t.task.origin s a s₁) :
    (afterCall i t a k r s₁).delivering = Function.update s.delivering i
      ((track (window t.hist) ⟨a, r⟩).map fun w =>
        (w.1, w.2, (offlineIds t.hist ++ (offlineId a).toList).length)) := by
  have hth : (afterCall i t a k r s₁).threads = Function.update s.threads i
      (some { t with hist := t.hist ++ [⟨a, r⟩], prog := k r }) := by
    simp only [afterCall, (effect_threads heff).1]
  rw [delivering_update hth]
  simp only [Option.bind_some, window_snoc, offlineIds_snoc]

theorem afterCall_queuedIds : queuedIds (afterCall i t a k r s₁).log = queuedIds s₁.log :=
  queuedIds_cons _ _ fun _ _ _ h => by cases h

theorem delivering_eq (hi : s.threads i = some t) :
    s.delivering i = (window t.hist).map fun w => (w.1, w.2, (offlineIds t.hist).length) := by
  simp only [State.delivering, hi, Option.bind_some]

/-- A call that has nothing to do with stored messages. -/
theorem delivery_of_quiet (hi : s.threads i = some t) (ha : act P t.task.origin a e s = some (r, s₁))
    (hq : a.quiet = true) : Delivery s l (afterCall i t a k r s₁) := by
  have heff := act_effect ha
  refine .none ?_ ?_ ?_
  · rw [afterCall_delivering heff, track_quiet _ _ (.inl hq), offlineId_quiet hq, Option.toList_none,
      List.append_nil, ← delivering_eq hi, Function.update_eq_self]
  · rw [afterCall_queuedIds]
    rcases effect_log_eq heff with h1 | ⟨x, cmd, seq, body, why, rfl, h1⟩ | ⟨m, -, h1⟩
    · rw [h1]
    · rw [h1, queuedIds_cons]
      intro f holder uid he
      cases he
      cases why <;> first | rfl | cases hq
    · rw [h1, queuedIds_cons]
      intro f holder uid he
      cases he
  · rcases effect_db heff with h1 | ⟨uid, maxId, rfl, -⟩
    · exact h1
    · cases hq

end Calls

theorem delivery_of_query (ht : Traced P s) {i : ℕ} {e : Ext} {t : Thread} {uid : Int}
    {k : Reply (.queryOfflineMessages uid) → Prog Reply Unit}
    {r : Reply (.queryOfflineMessages uid)} {s₁ : State} (hi : s.threads i = some t)
    (hp : t.prog = .call (.queryOfflineMessages uid) k)
    (ha : act P t.task.origin (.queryOfflineMessages uid) e s = some (r, s₁)) :
    Delivery s (.thread i e) (afterCall i t _ k r s₁) := by
  have hquiet := (ht.guard hi hp).2
  have hs : s₁ = s := by
    simp only [act, Option.some.injEq, Prod.mk.injEq] at ha
    exact ha.2.symm
  have hd := afterCall_delivering (i := i) (k := k) (r := r) (act_effect ha)
  have hnone : s.delivering i = none := by rw [delivering_eq hi, hquiet.window]; rfl
  rw [hquiet.window, hquiet.offlineIds] at hd
  -- a query that returns nothing leaves nothing to mark
  have idle : track none ⟨.queryOfflineMessages uid, r⟩ = none →
      Delivery s (.thread i e) (afterCall i t _ k r s₁) := by
    intro htr
    rw [htr, Option.map_none, ← hnone, Function.update_eq_self] at hd
    exact .none hd (by rw [afterCall_queuedIds, hs]) (by rw [← hs]; exact ⟨rfl, rfl, rfl⟩)
  rcases r with _ | rows
  · exact idle rfl
  by_cases hne : rows = []
  · exact idle (if_pos hne)
  · have hrows := (query_rows ha hne).1
    have htr : track none ⟨.queryOfflineMessages uid, .ok rows⟩ = some (uid, rows) := if_neg hne
    rw [htr] at hd
    refine .query i _ uid (next_thread e hi hp) hnone ?_ (by rw [afterCall_queuedIds, hs])
      (by rw [← hs]; rfl)
    rw [hd, ← hrows]
    rfl

theorem delivery_of_send (ht : Traced P s) {i : ℕ} {e : Ext} {t : Thread} {x : ℕ} {cmd : CmdType}
    {seq : UInt32} {body : Bytes} {id : Int}
    {k : Reply (.queueSendPacket x cmd seq body (.offline id)) → Prog Reply Unit}
    {r : Reply (.queueSendPacket x cmd seq body (.offline id))} {s₁ : State}
    (hi : s.threads i = some t)
    (hp : t.prog = .call (.queueSendPacket x cmd seq body (.offline id)) k)
    (ha : act P t.task.origin (.queueSendPacket x cmd seq body (.offline id)) e s = some (r, s₁)) :
    Delivery s l (afterCall i t _ k r s₁) := by
  obtain ⟨-, uid, rows, hw, hpre⟩ := ht.guard hi hp
  have hd := afterCall_delivering (i := i) (k := k) (r := r) (act_effect ha)
  rw [track_quiet _ _ (.inr rfl), hw] at hd
  refine .queue i uid rows (offlineIds t.hist).length id ?_ ?_ ?_ ?_ ?_
  · rw [delivering_eq hi, hw]
    rfl
  · obtain ⟨rest, hrest⟩ := hpre
    rw [← hrest]
    simp
  · rw [hd]
    simp [offlineId]
  · rw [afterCall_queuedIds]
    rcases effect_log_eq (act_effect ha) with h1 | ⟨x', cmd', seq', body', why', he, h1⟩ | ⟨m, he, -⟩
    · simp only [act, Option.map_eq_some_iff, Prod.mk.injEq] at ha
      obtain ⟨w, -, -, rfl⟩ := ha
      rfl
    · cases he
      rw [h1]
      rfl
    · cases he
  · simp only [act, Option.map_eq_some_iff, Prod.mk.injEq] at ha
    obtain ⟨w, -, -, rfl⟩ := ha
    rfl

theorem delivery_of_mark (ht : Traced P s) {i : ℕ} {e : Ext} {t : Thread} {uid maxId : Int}
    {k : Reply (.markDelivered uid maxId) → Prog Reply Unit} {r : Reply (.markDelivered uid maxId)}
    {s₁ : State} (hi : s.threads i = some t) (hp : t.prog = .call (.markDelivered uid maxId) k)
    (ha : act P t.task.origin (.markDelivered uid maxId) e s = some (r, s₁)) :
    Delivery s (.thread i e) (afterCall i t _ k r s₁) := by
  obtain ⟨rfl, rows, hw, -⟩ := ht.guard hi hp
  have hd := afterCall_delivering (i := i) (k := k) (r := r) (act_effect ha)
  simp only [act, Option.some.injEq, Prod.mk.injEq] at ha
  refine .mark i e _ uid rows (offlineIds t.hist).length rfl (next_thread e hi hp) ?_ ?_ ?_ ?_
  · rw [delivering_eq hi, hw]
    rfl
  · rw [hd]
    rfl
  · rw [afterCall_queuedIds, ← ha.2]
    split_ifs <;> rfl
  · change s₁.db = _
    rw [← ha.2]
    split_ifs <;> rfl

/-- **How a step changes the deliveries.** -/
theorem delivery_of_move (ht : Traced P s) (h : Move P s l s') : Delivery s l s' := by
  cases h with
  | call i e t a k r s₁ hi hp ha =>
      change Delivery s _ (afterCall i t a k r s₁)
      by_cases hq : a.quiet = true
      · exact delivery_of_quiet hi ha hq
      cases a with
      | queryOfflineMessages uid => exact delivery_of_query ht hi hp ha
      | markDelivered uid maxId => exact delivery_of_mark ht hi hp ha
      | queueSendPacket x cmd seq body why =>
          cases why with
          | offline id => exact delivery_of_send ht hi hp ha
          | _ => exact absurd rfl hq
      | _ => exact absurd rfl hq
  | finish i e t hi hp =>
      refine .none ?_ rfl ⟨rfl, rfl, rfl⟩
      rw [delivering_update rfl, Option.bind_none, Function.update_eq_self_iff, delivering_eq hi,
        ht.window_finished hi hp]
      rfl
  | dequeue i script t rest hlt hi hq =>
      refine .none ?_ rfl ⟨rfl, rfl, rfl⟩
      rw [delivering_update rfl, Function.update_eq_self_iff]
      simp [State.delivering, hi, window]
  | flush ok hn =>
      by_cases hok : (s.db.useFileStorage || ok) = true
      · exact .store rfl rfl hn (by simp only [Store.flush, if_pos hok])
      · refine .none rfl rfl ?_
        simp only [Store.flush, if_neg hok]
        exact ⟨trivial, trivial, trivial⟩
  | sent | closed | read | drop =>
      exact .none rfl (queuedIds_cons _ _ fun _ _ _ h => by cases h) ⟨rfl, rfl, rfl⟩
  | expire req rest now w f hq hw ho hx hy =>
      refine .none rfl (queuedIds_cons _ _ fun f' _ _ h => ?_) ⟨rfl, rfl, rfl⟩
      cases h
      simp [Frame.msgId, hy]
  | _ => exact .none rfl rfl ⟨rfl, rfl, rfl⟩

end AuraChat
