import AuraChat.Model.Writer
import AuraChat.Storage.Rows

set_option autoImplicit false

/-!
# The batch writer keeps its messages

Messages go from the queue into the batch and from the batch into the table, in the order in which
they were submitted. A write drops its batch when the database is not reached or the `INSERT` fails,
and the loop returns with what is still queued when it finds `running_` cleared.

* `Writer.Move`, `move_of_writerStep`: the steps of the writer;
* `Writer.Kept`: nothing was dropped so far;
* **`writer_keeps`**: when a run drops nothing;
* **`writer_fifo`**: the order, the ids and the delivered flags in file mode;
* **`shutdown_drains_iff`**: when the destructor leaves nothing behind.
-/

namespace AuraChat

open Interleave

variable {db : Store} {s s' s₁ s₂ : Writer} {l : WriterLabel} {C : WriterLabel → Writer → Prop}

/-! ## Steps -/

/-- The steps of the writer, each with what it needs and what it leaves. -/
inductive Writer.Move (s : Writer) : WriterLabel → Writer → Prop
  | submit (m : DBChatMessage) (hd : s.destructor = .live) :
      Move s (.submit m) { s with db := s.db.submit m, submitted := s.submitted ++ [m] }
  | mark (uid maxId : Int) (ok : Bool) (hd : s.destructor = .live) :
      Move s (.markDelivered uid maxId ok) { s with db := s.db.markDelivered uid maxId }
  | unmarked (uid maxId : Int) (ok : Bool) : Move s (.markDelivered uid maxId ok) s
  | go (hp : s.pc = .test) (hr : s.running = true) : Move s .test { s with pc := .wait }
  | halt (hp : s.pc = .test) (hr : s.running = false) : Move s .test { s with pc := .done }
  | take (hp : s.pc = .wait) : Move s .take { s with db := s.db.drain, pc := .write }
  | skip (connected inserted : Bool) (hp : s.pc = .write) (hb : s.db.batch = []) :
      Move s (.write connected inserted) { s with pc := .test }
  | write (connected inserted : Bool) (hp : s.pc = .write) (hb : s.db.batch ≠ []) :
      Move s (.write connected inserted)
        { s with db := s.db.flush (connected && inserted), pc := .test }
  | enter (hd : s.destructor = .live) : Move s .enter { s with destructor := .entered }
  | stop (hd : s.destructor = .entered) :
      Move s .stop { s with destructor := .stopped, running := false }
  | join (hd : s.destructor = .stopped) (hp : s.pc = .done) :
      Move s .join { s with destructor := .returned }

theorem move_of_writerStep (h : s.step l = some s') : s.Move l s' := by
  cases l with
  | submit m =>
      simp only [Writer.step] at h
      split_ifs at h with hd
      obtain rfl := Option.some.inj h
      exact .submit m hd
  | markDelivered uid maxId ok =>
      simp only [Writer.step] at h
      split_ifs at h with hd hok
      · obtain rfl := Option.some.inj h
        exact .mark uid maxId ok hd
      · obtain rfl := Option.some.inj h
        exact .unmarked uid maxId ok
  | test =>
      simp only [Writer.step] at h
      split_ifs at h with hp hr
      · obtain rfl := Option.some.inj h
        exact .go hp hr
      · obtain rfl := Option.some.inj h
        exact .halt hp (Bool.eq_false_iff.mpr hr)
  | take =>
      simp only [Writer.step] at h
      split_ifs at h with hp
      obtain rfl := Option.some.inj h
      exact .take hp
  | write connected inserted =>
      simp only [Writer.step] at h
      split_ifs at h with hp hb hn
      · obtain rfl := Option.some.inj h
        exact .skip connected inserted (not_not.mp hp) hb
      · obtain rfl := Option.some.inj h
        exact .write connected inserted (not_not.mp hp) hb
  | enter =>
      simp only [Writer.step] at h
      split_ifs at h with hd
      obtain rfl := Option.some.inj h
      exact .enter hd
  | stop =>
      simp only [Writer.step] at h
      split_ifs at h with hd
      obtain rfl := Option.some.inj h
      exact .stop hd
  | join =>
      simp only [Writer.step] at h
      split_ifs at h with hd
      obtain rfl := Option.some.inj h
      exact .join hd.1 hd.2

/-! ## What is kept -/

/-- The messages appended to the table since the start on `db`. -/
def Writer.appended (db : Store) (s : Writer) : List FileMessage :=
  s.db.messages.drop db.messages.length

/-- **Nothing was dropped**: the messages appended since the start, those in the batch and those in
the queue are the submitted ones, in the order of submission. -/
def Writer.Kept (db : Store) (s : Writer) : Prop :=
  (s.appended db).map FileMessage.payload ++ s.db.batch.map DBChatMessage.payload ++
    s.db.queue.map DBChatMessage.payload = s.submitted.map DBChatMessage.payload

theorem grows_move (h : s.Move l s') : Grows s.db.messages s'.db.messages := by
  cases h with
  | mark uid maxId ok hd => exact grows_markDelivered s.db uid maxId
  | write connected inserted hp hb =>
      rw [flush_messages]
      exact grows_append _ _
  | _ => exact .refl _

theorem grows_of_reach (h : Reach Writer.step C s₁ s₂) : Grows s₁.db.messages s₂.db.messages := by
  induction h with
  | refl => exact .refl _
  | tail _ _ hs ih => exact ih.trans (grows_move (move_of_writerStep hs))

/-! ## Nothing is dropped -/

/-- A write, if there is something to write, reaches the table. -/
def WriteSucceeds : WriterLabel → Writer → Prop
  | .write connected inserted, s =>
      s.db.batch = [] ∨ s.db.useFileStorage = true ∨ (connected = true ∧ inserted = true)
  | _, _ => True

instance (l : WriterLabel) (s : Writer) : Decidable (WriteSucceeds l s) := by
  unfold WriteSucceeds
  split <;> infer_instance

theorem kept_writerMove (hlen : db.messages.length ≤ s.db.messages.length) (hk : s.Kept db)
    (h : s.Move l s') : s'.Kept db ↔ WriteSucceeds l s := by
  cases h with
  | submit m hd =>
      refine iff_of_true ?_ trivial
      have := congrArg (· ++ [m.payload]) hk
      simpa [Writer.Kept, Writer.appended, Store.submit] using this
  | mark uid maxId ok hd =>
      refine iff_of_true ?_ trivial
      simp only [Writer.Kept, Writer.appended, List.map_drop] at hk ⊢
      rw [markDelivered_payloads]
      exact hk
  | take hp =>
      refine iff_of_true ?_ trivial
      simp only [Writer.Kept, Writer.appended, Store.drain] at hk ⊢
      rw [List.map_append, List.append_assoc, List.append_assoc, ← List.map_append,
        List.take_append_drop, ← List.append_assoc]
      exact hk
  | skip connected inserted hp hb => exact iff_of_true hk (.inl hb)
  | write connected inserted hp hb =>
      simp only [Writer.Kept, Writer.appended] at hk
      simp only [Writer.Kept, Writer.appended, WriteSucceeds, flush_messages, (flush_batch _ _).1,
        (flush_batch _ _).2, List.drop_append_of_le_length hlen, List.map_append, List.map_nil,
        List.append_nil]
      by_cases hok : (s.db.useFileStorage || (connected && inserted)) = true
      · rw [if_pos hok, payload_rowsOf]
        refine iff_of_true hk (.inr ?_)
        simpa using hok
      · rw [if_neg hok, List.map_nil, List.append_nil]
        refine iff_of_false (fun h => ?_) fun h => ?_
        · -- a batch that is dropped is missing from the count
          have hlen := congrArg List.length (hk.trans h.symm)
          simp only [List.length_append, List.length_map] at hlen
          exact hb (List.eq_nil_of_length_eq_zero (by omega))
        · simp only [hb, false_or] at h
          exact hok (by simpa using h)
  | _ => exact iff_of_true hk trivial

theorem kept_start (hq : db.queue = []) (hb : db.batch = []) : Writer.Kept db { db := db } := by
  simp [Writer.Kept, Writer.appended, hq, hb]

theorem kept_of_run (hq : db.queue = []) (hb : db.batch = []) (h : WriterRunTo db WriteSucceeds s) :
    s.Kept db :=
  h.invariant_reach (Writer.Kept db) (kept_start hq hb) fun _ _ _ hr hc hk hs =>
    (kept_writerMove (grows_of_reach hr).length_le hk (move_of_writerStep hs)).mpr hc

/-- **When nothing is dropped.** In every run in which each write of a batch reaches the table, every
submitted message is in the table, in the batch in hand or in the queue, in the order of submission;
and a further step keeps it so exactly if it is no write that fails. -/
theorem writer_keeps (hq : db.queue = []) (hb : db.batch = []) (h : WriterRunTo db WriteSucceeds s) :
    s.Kept db ∧ ∀ l s', s.step l = some s' → (s'.Kept db ↔ WriteSucceeds l s) :=
  ⟨kept_of_run hq hb h, fun _ _ hs =>
    kept_writerMove (grows_of_reach h).length_le (kept_of_run hq hb h) (move_of_writerStep hs)⟩

namespace Sample

/-- A message of user `a` to user `b`. -/
def hi : DBChatMessage := { fromUid := 1000, toUid := 1001, content := [0x68, 0x69], delivered := false }

/-- An empty store in MySQL mode. -/
def mysql : Store := { useFileStorage := false }

theorem exists_writerRun (db : Store) (C : WriterLabel → Writer → Prop) [∀ l s, Decidable (C l s)]
    (ls : List WriterLabel) (p : Writer → Prop) (h : ∃ s ∈ runAll Writer.step C ls { db := db }, p s) :
    ∃ s, WriterRunTo db C s ∧ p s :=
  exists_reach ls h

end Sample

theorem writer_keeps_sample : ∃ s, WriterRunTo Sample.mysql WriteSucceeds s ∧
    s.submitted = [Sample.hi, Sample.hi] ∧ s.db.messages.length = 1 ∧ s.Kept Sample.mysql ∧
      ∀ l s', s.step l = some s' → (s'.Kept Sample.mysql ↔ WriteSucceeds l s) := by
  obtain ⟨s, h, hsub, hlen⟩ := Sample.exists_writerRun Sample.mysql WriteSucceeds
    [.submit Sample.hi, .test, .take, .submit Sample.hi, .write true true]
    (fun s => s.submitted = [Sample.hi, Sample.hi] ∧ s.db.messages.length = 1)
    ⟨_, rfl, by decide, by decide⟩
  exact ⟨s, h, hsub, hlen, writer_keeps rfl rfl h⟩

/-- The connection is lost, or the `INSERT` fails: the message is nowhere, and the loop goes on. -/
theorem message_dropped :
    (∃ s, WriterRunTo Sample.mysql (fun _ _ => True) s ∧ s.running = true ∧ s.submitted = [Sample.hi] ∧
      s.db.queue = [] ∧ s.db.batch = [] ∧ s.db.messages = []) ∧
    ∃ s, WriterRunTo Sample.mysql (fun _ _ => True) s ∧ s.running = true ∧ s.submitted = [Sample.hi] ∧
      s.db.queue = [] ∧ s.db.batch = [] ∧ s.db.messages = [] := by
  constructor
  · exact Sample.exists_writerRun Sample.mysql (fun _ _ => True)
      [.submit Sample.hi, .test, .take, .write false false] _ ⟨_, rfl, by decide⟩
  · exact Sample.exists_writerRun Sample.mysql (fun _ _ => True)
      [.submit Sample.hi, .test, .take, .write true false] _ ⟨_, rfl, by decide⟩

/-! ## Order, ids and delivered flags -/

/-- From any row on, the ids of the table stay in order. -/
theorem ascending_move (h : s.Move l s') {n : ℕ} (hn : n ≤ s.db.messages.length)
    (ha : Ascending s.db.nextMsgId ((s.db.messages.drop n).map FileMessage.id)) :
    Ascending s'.db.nextMsgId ((s'.db.messages.drop n).map FileMessage.id) := by
  cases h with
  | mark uid maxId ok hd =>
      rw [List.map_drop, markDelivered_ids, ← List.map_drop]
      exact ha
  | write connected inserted hp hb =>
      rw [flush_messages, flush_nextMsgId, List.drop_append_of_le_length hn, List.map_append]
      split_ifs
      · exact ha.append _
      · rw [List.map_nil, List.append_nil, Int.add_zero]
        exact ha
  | _ => exact ha

theorem ascending_of_run (h : WriterRunTo db C s) {n : ℕ} (hn : n ≤ db.messages.length)
    (ha : Ascending db.nextMsgId ((db.messages.drop n).map FileMessage.id)) :
    Ascending s.db.nextMsgId ((s.db.messages.drop n).map FileMessage.id) :=
  h.invariant_reach (fun s => Ascending s.db.nextMsgId ((s.db.messages.drop n).map FileMessage.id)) ha
    fun _ _ _ hr _ ha hs =>
      ascending_move (move_of_writerStep hs) (Nat.le_trans hn (grows_of_reach hr).length_le) ha

theorem file_of_run (h : WriterRunTo db C s) : s.db.useFileStorage = db.useFileStorage := by
  refine h.invariant (fun s => s.db.useFileStorage = db.useFileStorage) rfl ?_
  intro l s s' _ hf hs
  cases move_of_writerStep hs with
  | write connected inserted hp hb =>
      dsimp only
      rw [Store.flush]
      split_ifs <;> exact hf
  | _ => exact hf

theorem writes_of_file (hf : db.useFileStorage = true) (h : WriterRunTo db C s) :
    WriterRunTo db WriteSucceeds s := by
  induction h with
  | refl => exact .refl
  | tail hr _ hs ih =>
      refine ih.tail ?_ hs
      unfold WriteSucceeds
      split
      · exact .inr (.inl ((file_of_run hr).trans hf))
      · trivial

/-- **The writer is first in, first out.** In file mode, whatever the threads do, the messages appended
since the start, the batch and the queue are the submitted messages in the order of submission; the ids
go up and stay below the counter; and a delivered message stays delivered. -/
theorem writer_fifo (hf : db.useFileStorage = true) (hq : db.queue = []) (hb : db.batch = [])
    (h : WriterRunTo db C s) :
    s.Kept db ∧ Ascending s.db.nextMsgId ((s.appended db).map FileMessage.id) ∧
      (Ascending db.nextMsgId (db.messages.map FileMessage.id) →
        Ascending s.db.nextMsgId (s.db.messages.map FileMessage.id)) ∧
      ∀ s', Reach Writer.step C s s' → Grows s.db.messages s'.db.messages := by
  refine ⟨kept_of_run hq hb (writes_of_file hf h), ?_, fun ha => ?_, fun s' h' => grows_of_reach h'⟩
  · refine ascending_of_run h (Nat.le_refl _) ?_
    rw [List.drop_length]
    exact ascending_nil _
  · exact ascending_of_run h (Nat.zero_le _) ha

theorem writer_fifo_sample : ∃ s, WriterRunTo {} (fun _ _ => True) s ∧
    s.submitted = [Sample.hi, Sample.hi] ∧ s.db.messages.map (·.delivered) = [true] ∧ s.Kept {} ∧
      Ascending s.db.nextMsgId ((s.appended {}).map FileMessage.id) ∧
      (Ascending 1 [] → Ascending s.db.nextMsgId (s.db.messages.map FileMessage.id)) ∧
      ∀ s', Reach Writer.step (fun _ _ => True) s s' → Grows s.db.messages s'.db.messages := by
  obtain ⟨s, h, hsub, hdel⟩ := Sample.exists_writerRun {} (fun _ _ => True)
    [.submit Sample.hi, .test, .take, .submit Sample.hi, .write true true, .markDelivered 1001 1 true]
    (fun s => s.submitted = [Sample.hi, Sample.hi] ∧ s.db.messages.map (·.delivered) = [true])
    ⟨_, rfl, by decide, by decide⟩
  exact ⟨s, h, hsub, hdel, writer_fifo rfl rfl rfl h⟩

/-! ## The destructor -/

/-- Where the threads can be. -/
structure Writer.Phased (s : Writer) : Prop where
  batch : s.pc ≠ .write → s.db.batch = []
  running : s.destructor = .live ∨ s.destructor = .entered → s.running = true
  done : s.pc = .done → s.running = false
  returned : s.destructor = .returned → s.pc = .done

theorem phased_move (hp : s.Phased) (h : s.Move l s') : s'.Phased := by
  have hnot : s.pc ≠ .done → s.destructor ≠ .returned := fun hne hd => hne (hp.returned hd)
  cases h with
  | submit | mark | unmarked => exact ⟨hp.batch, hp.running, hp.done, hp.returned⟩
  | go hpc hr =>
      exact ⟨fun _ => hp.batch (by simp [hpc]), hp.running, fun h => (by cases h),
        fun hd => (hnot (by simp [hpc]) hd).elim⟩
  | halt hpc hr =>
      exact ⟨fun _ => hp.batch (by simp [hpc]), hp.running, fun _ => hr, fun _ => rfl⟩
  | take hpc =>
      exact ⟨fun h => (h rfl).elim, hp.running, fun h => (by cases h),
        fun hd => (hnot (by simp [hpc]) hd).elim⟩
  | skip connected inserted hpc hb =>
      exact ⟨fun _ => hb, hp.running, fun h => (by cases h),
        fun hd => (hnot (by simp [hpc]) hd).elim⟩
  | write connected inserted hpc hb =>
      exact ⟨fun _ => (flush_batch _ _).1, hp.running, fun h => (by cases h),
        fun hd => (hnot (by simp [hpc]) hd).elim⟩
  | enter hd => exact ⟨hp.batch, fun _ => hp.running (.inl hd), hp.done, fun h => (by cases h)⟩
  | stop hd =>
      exact ⟨hp.batch, fun h => (by rcases h with h | h <;> cases h), fun _ => rfl,
        fun h => (by cases h)⟩
  | join hd hpc => exact ⟨hp.batch, fun h => (by rcases h with h | h <;> cases h), hp.done, fun _ => hpc⟩

theorem phased_of_run (h : WriterRunTo db C s) (hb : db.batch = []) : s.Phased :=
  h.invariant Writer.Phased ⟨fun _ => hb, fun _ => rfl, fun h => (by cases h), fun h => (by cases h)⟩
    fun _ _ _ _ hp hs => phased_move hp (move_of_writerStep hs)

/-- The loop after the stop in the state `s₁`: it takes messages once more if it was waiting, and
never otherwise. -/
structure Writer.Stopped (s s₁ : Writer) : Prop where
  running : s.running = false
  stopped : s.destructor = .stopped ∨ s.destructor = .returned
  waiting : s.pc = .wait → s₁.pc = .wait ∧ s.db.queue = s₁.db.queue
  past : s.pc ≠ .wait → s.db.queue =
    if s₁.pc = .wait then s₁.db.queue.drop 100 else s₁.db.queue

theorem stopped_move (hp : s.Phased) (hst : s.Stopped s₁) (h : s.Move l s') : s'.Stopped s₁ := by
  cases h with
  | submit m hd => exact absurd hst.stopped (by simp [hd])
  | mark uid maxId ok hd => exact absurd hst.stopped (by simp [hd])
  | unmarked => exact hst
  | go hpc hr => exact absurd hst.running (by simp [hr])
  | halt hpc hr =>
      exact ⟨hst.running, hst.stopped, fun h => (by cases h), fun _ => hst.past (by simp [hpc])⟩
  | take hpc =>
      obtain ⟨hwait, hqueue⟩ := hst.waiting hpc
      refine ⟨hst.running, hst.stopped, fun h => (by cases h), fun _ => ?_⟩
      have hb : s.db.batch = [] := hp.batch (by simp [hpc])
      simp only [Store.drain, hb, List.length_nil, Nat.sub_zero, hqueue, if_pos hwait]
  | skip connected inserted hpc hb =>
      exact ⟨hst.running, hst.stopped, fun h => (by cases h), fun _ => hst.past (by simp [hpc])⟩
  | write connected inserted hpc hb =>
      exact ⟨hst.running, hst.stopped, fun h => (by cases h),
        fun _ => (flush_batch _ _).2.trans (hst.past (by simp [hpc]))⟩
  | enter hd => exact absurd hst.stopped (by simp [hd])
  | stop hd => exact absurd hst.stopped (by simp [hd])
  | join hd hpc => exact ⟨hst.running, .inr rfl, hst.waiting, hst.past⟩

theorem stopped_of_reach (hp : s₂.Phased) (hst : s₂.Stopped s₁) (h : Reach Writer.step C s₂ s) :
    s.Phased ∧ s.Stopped s₁ :=
  h.invariant (fun s => s.Phased ∧ s.Stopped s₁) ⟨hp, hst⟩ fun _ _ _ _ hi hs =>
    ⟨phased_move hi.1 (move_of_writerStep hs), stopped_move hi.1 hi.2 (move_of_writerStep hs)⟩

/-- **When the destructor leaves nothing behind.** In file mode, let `s₁` be the state in which the
destructor clears `running_`. When it returns, the submitted messages have all been appended to
`file_messages_` exactly if nothing was queued in `s₁`, or the loop was at its wait and at most 100
messages were queued. -/
theorem shutdown_drains_iff (hf : db.useFileStorage = true) (hq : db.queue = []) (hb : db.batch = [])
    (h₁ : WriterRunTo db C s₁) (hs : s₁.step .stop = some s₂) (hc : C .stop s₁)
    (h₂ : Reach Writer.step C s₂ s) (hret : s.destructor = .returned) :
    (s.appended db).map FileMessage.payload = s.submitted.map DBChatMessage.payload ↔
      s₁.db.queue = [] ∨ (s₁.pc = .wait ∧ s₁.db.queue.length ≤ 100) := by
  have hrun : WriterRunTo db C s := (h₁.tail hc hs).trans h₂
  have hk := kept_of_run hq hb (writes_of_file hf hrun)
  have hp := phased_of_run h₁ hb
  have hmove := move_of_writerStep hs
  have hst : s₂.Stopped s₁ := by
    cases hmove with
    | stop hd => exact ⟨rfl, .inl rfl, fun h => ⟨h, rfl⟩, fun h => (if_neg h).symm⟩
  obtain ⟨hp', hst'⟩ := stopped_of_reach (phased_move hp hmove) hst h₂
  have hdone := hp'.returned hret
  have hbatch := hp'.batch (by simp [hdone])
  have hqueue := hst'.past (by simp [hdone])
  -- what is missing from the table is what is still queued
  have hiff : (s.appended db).map FileMessage.payload = s.submitted.map DBChatMessage.payload ↔
      s.db.queue = [] := by
    rw [← hk, hbatch, List.map_nil, List.append_nil]
    simp
  rw [hiff, hqueue]
  split_ifs with hwait
  · rw [List.drop_eq_nil_iff]
    exact ⟨fun h => .inr ⟨hwait, h⟩, fun h => h.elim (fun e => by simp [e]) fun h => h.2⟩
  · exact ⟨.inl, fun h => h.elim id fun h => (hwait h.1).elim⟩

/-- The destructor finds the loop at its wait. -/
theorem shutdown_drains_iff_sample : ∃ s₁ s₂ s, WriterRunTo {} (fun _ _ => True) s₁ ∧
    s₁.step .stop = some s₂ ∧ Reach Writer.step (fun _ _ => True) s₂ s ∧ s.destructor = .returned ∧
    s.submitted = [Sample.hi] ∧
    (s.appended {}).map FileMessage.payload = s.submitted.map DBChatMessage.payload := by
  obtain ⟨s₁, h₁, hpc, hlen, s₂, hs, s, h₂, hret, hsub⟩ := Sample.exists_writerRun {} (fun _ _ => True)
    [.test, .submit Sample.hi, .enter]
    (fun s₁ => s₁.pc = .wait ∧ s₁.db.queue.length ≤ 100 ∧ ∃ s₂, s₁.step .stop = some s₂ ∧
      ∃ s, Reach Writer.step (fun _ _ => True) s₂ s ∧ s.destructor = .returned ∧ s.submitted = [Sample.hi])
    ⟨_, rfl, by decide, by decide, _, rfl, exists_reach
      [.take, .write true true, .test, .join] ⟨_, rfl, by decide⟩⟩
  exact ⟨s₁, s₂, s, h₁, hs, h₂, hret, hsub,
    (shutdown_drains_iff rfl rfl rfl h₁ hs trivial h₂ hret).mpr (.inr ⟨hpc, hlen⟩)⟩

/-- The message comes while the loop is past its wait, and the loop does not come back for it. -/
theorem shutdown_loses : ∃ s, WriterRunTo {} (fun _ _ => True) s ∧ s.destructor = .returned ∧
    s.submitted = [Sample.hi] ∧ s.db.messages = [] :=
  Sample.exists_writerRun {} (fun _ _ => True)
    [.test, .take, .submit Sample.hi, .enter, .stop, .write true true, .test, .join] _
    ⟨_, rfl, by decide⟩

end AuraChat
