import AuraChat.Model.Host
import AuraChat.Model.Sample
import AuraChat.Server.Moves
import AuraChat.Storage.Persistence

set_option autoImplicit false

/-!
# The contents of chat messages

A chat message carries arbitrary bytes, and the message file holds them as a JSON string, which must
be valid UTF-8. In every run of the server in file mode, a flush of the batch writer completes and
leaves files from which every stored message is read back exactly if the contents of its batch are
valid UTF-8 (`flush_stores_iff`).

* `move_storeOp`: a step of the server is an operation of the store;
* `Host.Stored`, `stored_of_run`: the message file follows the messages in memory;
* **`flush_stores_iff`**.
-/

namespace AuraChat

open Interleave

variable {P : Params} {J : JsonLib} {s s' : State} {l : Label} {db : Store} {fs : Files} {h : Host}

/-! ## Steps and operations -/

theorem act_storeOp {o : Origin} {a : Call} {e : Ext} {r : Reply a} (hf : s.db.useFileStorage = true)
    (ha : act P o a e s = some (r, s')) : s'.db = a.storeOp.apply P.fileHash s.db := by
  cases a with
  | registerUser u p =>
      simp only [act, hf, if_true, Option.some.injEq, Prod.mk.injEq] at ha
      rw [← ha.2]
      rfl
  | addFriendRequest f t m =>
      simp only [act, hf, if_true, Option.some.injEq, Prod.mk.injEq] at ha
      rw [← ha.2]
      rfl
  | acceptFriendRequest q u =>
      simp only [act, hf, if_true, Option.some.injEq, Prod.mk.injEq] at ha
      rw [← ha.2]
      rfl
  | markDelivered uid maxId =>
      simp only [act, hf, Bool.true_or, if_true, Option.some.injEq, Prod.mk.injEq] at ha
      rw [← ha.2]
      rfl
  | submit m =>
      simp only [act, Option.some.injEq, Prod.mk.injEq] at ha
      rw [← ha.2]
      rfl
  | bindEnter uid x =>
      simp only [act] at ha
      split at ha <;> (simp only [Option.some.injEq, Prod.mk.injEq] at ha; rw [← ha.2]; rfl)
  | queueSendPacket x cmd seq body why =>
      simp only [act, Option.map_eq_some_iff, Prod.mk.injEq] at ha
      obtain ⟨w, -, -, rfl⟩ := ha
      rfl
  | queueCloseConnection old fd =>
      simp only [act, Option.map_eq_some_iff, Prod.mk.injEq] at ha
      obtain ⟨w, -, -, rfl⟩ := ha
      rfl
  | _ =>
      simp only [act, Option.some.injEq, Prod.mk.injEq] at ha
      rw [← ha.2]
      rfl

/-- **A step of the server is an operation of the store.** -/
theorem move_storeOp (hf : s.db.useFileStorage = true) (hm : Move P s l s') :
    s'.db = (s.storeOp l).apply P.fileHash s.db := by
  cases hm with
  | call i e t a k r s₁ hi hp ha =>
      have hop : s.storeOp (.thread i e) = a.storeOp := by
        simp only [State.storeOp, next_thread e hi hp]
      rw [hop]
      change s₁.db = _
      exact act_storeOp hf ha
  | finish i e t hi hp =>
      have hnext : s.next (.thread i e) = none := by
        obtain ⟨task, script, hist, prog⟩ := t
        subst hp
        simp only [State.next, hi]
      simp only [State.storeOp, hnext]
      rfl
  | drain hb => simp only [State.storeOp, StoreOp.apply, if_pos hb]
  | flush ok hn =>
      simp only [State.storeOp, StoreOp.apply]
      split_ifs with hb
      · exact flush_nil hb ok
      · simp only [Store.flush, hf, Bool.true_or, if_true]
  | _ => rfl

theorem run_of_hostRun (hr : HostRunTo P J db fs h) : RunTo P db (fun _ _ => True) h.server := by
  refine hr.map Host.server fun l h h' _ hs => ?_
  rw [Host.step] at hs
  split_ifs at hs
  obtain ⟨s', hs', rfl⟩ := Option.map_eq_some_iff.mp hs
  exact Reach.refl.tail trivial hs'

/-! ## The message file -/

/-- What `load_file_data` reads as messages. -/
def loadMessages (J : JsonLib) (fs : Files) : Option (List FileMessage) :=
  (loadFileData J fs).map fun T => (T .messages).2

/-- The store as `load_file_data` has read it, from files that hold valid UTF-8. -/
structure Loaded (J : JsonLib) (fs : Files) (db : Store) : Prop where
  file : db.useFileStorage = true
  load : loadFileData J fs = some db.tables
  utf8 : ∀ m ∈ db.messages, ValidUtf8 m.content

/-- The message file holds the messages in memory, which are valid UTF-8. -/
structure Host.Stored (J : JsonLib) (h : Host) : Prop where
  file : h.server.db.useFileStorage = true
  utf8 : ∀ m ∈ h.server.db.messages, ValidUtf8 m.content
  load : ∃ T, loadFileData J h.files = some T ∧ T .messages = h.server.db.tables .messages

theorem utf8Part_of_saveFiles (hJ : J.Lawful) {T : Tables} {f : FileName} {names : List FileName}
    (h : (saveFiles J T (f :: names)).2 = true) : Utf8Part f (T f) := by
  by_contra hu
  have hdump : J.dump (writePart f (T f)) = none :=
    hJ.dump_invalid _ fun hj => hu ((utf8_writePart f _).mp hj)
  simp [saveFiles, hdump] at h

theorem file_apply {st : Store} (op : StoreOp) (hash : String → String) :
    (op.apply hash st).useFileStorage = st.useFileStorage := by
  have h := op.outcome hash st
  generalize op.apply hash st = st', op.saves st = names at h ⊢
  cases h with
  | flush hb => simp only [Store.flush, Bool.or_true, if_true]
  | _ => rfl

theorem messages_eq_of_not_saved {st : Store} {op : StoreOp} {hash : String → String}
    (hf : .messages ∉ op.saves st) : (op.apply hash st).tables .messages = st.tables .messages := by
  have h := op.outcome hash st
  generalize op.apply hash st = st', op.saves st = names at h hf ⊢
  cases h with
  | mark | flush => exact absurd List.mem_cons_self hf
  | _ => rfl

/-- Saving the tables of valid messages keeps the message file in step. -/
theorem stored_effects (hJ : J.Lawful) (hst : h.Stored J) (op : StoreOp) (hash : String → String)
    (hu : ∀ m ∈ (op.apply hash h.server.db).messages, ValidUtf8 m.content) :
    ∃ T, loadFileData J (h.files.applyAll (op.effects hash J h.server.db).1) = some T ∧
      T .messages = (op.apply hash h.server.db).tables .messages := by
  obtain ⟨T, hload, hmsgs⟩ := hst.load
  have hparts : ∀ f ∈ op.saves h.server.db, Utf8Part f ((op.apply hash h.server.db).tables f) := by
    intro f _
    cases f with
    | messages => exact hu
    | users | friends | friendRequests => trivial
  refine ⟨fun f => if f ∈ op.saves h.server.db then (op.apply hash h.server.db).tables f else T f,
    loadFileData_eq_some.mpr fun f => ?_, ?_⟩
  · rw [StoreOp.effects, (loadPart_saveFiles hJ _ _ hparts (saves_nodup op _) h.files f).2,
      loadFileData_eq_some.mp hload f, apply_ite some]
  · dsimp only
    split_ifs with hf
    · rfl
    · exact hmsgs.trans (messages_eq_of_not_saved hf).symm

theorem flush_effects {st : Store} {hash : String → String} (hb : st.batch ≠ []) :
    StoreOp.flush.effects hash J st = saveFiles J (st.flush true).tables [.messages] := by
  simp only [StoreOp.effects, StoreOp.apply, StoreOp.saves, if_neg hb]

theorem utf8_of_flush_ok (hJ : J.Lawful) {st : Store} {hash : String → String} (hb : st.batch ≠ [])
    (hok : (StoreOp.flush.effects hash J st).2 = true) :
    ∀ m ∈ (st.flush true).messages, ValidUtf8 m.content := by
  rw [flush_effects hb] at hok
  exact utf8Part_of_saveFiles hJ hok

theorem stored_step (hJ : J.Lawful) (hwf : h.server.net.WF P) (hst : h.Stored J) {h' : Host}
    (hs : h.step P J l = some h') : h'.Stored J := by
  rw [Host.step] at hs
  split_ifs at hs with hc
  obtain ⟨s', hs', rfl⟩ := Option.map_eq_some_iff.mp hs
  have hdb := move_storeOp hst.file (move_of_step hwf hs')
  have hu : ∀ m ∈ s'.db.messages, ValidUtf8 m.content := by
    rw [hdb]
    refine utf8_messages_apply hst.utf8 fun hop => ?_
    by_cases hb : h.server.db.batch = []
    · rw [flush_nil hb]
      exact hst.utf8
    · have hok : (StoreOp.flush.effects P.fileHash J h.server.db).2 = true := by
        by_contra hok
        refine hc ⟨hop, ?_⟩
        rw [Host.effects, hop]
        exact Bool.eq_false_iff.mpr hok
      exact utf8_of_flush_ok hJ hb hok
  refine ⟨?_, hu, ?_⟩
  · rw [hdb, file_apply]
    exact hst.file
  · rw [hdb] at hu ⊢
    exact stored_effects hJ hst _ _ hu

theorem stored_of_run (hJ : J.Lawful) (h0 : Loaded J fs db) (hr : HostRunTo P J db fs h) :
    h.Stored J :=
  hr.invariant_reach (fun h => h.Stored J) ⟨h0.file, h0.utf8, _, h0.load, rfl⟩
    fun _ _ _ hr _ hst hs => stored_step hJ (wf_of_run (run_of_hostRun hr)) hst hs

theorem utf8_batch_of_flush {st : Store} (h : ∀ m ∈ (st.flush true).messages, ValidUtf8 m.content) :
    ∀ m ∈ st.batch, ValidUtf8 m.content := by
  simp only [Store.flush, Bool.or_true, if_true] at h
  intro b hb
  obtain ⟨m, hm, hc⟩ := mem_rowsOf_of_mem hb st.nextMsgId
  rw [← hc]
  exact h m (List.mem_append_right _ hm)

/-- **What can be stored.** In every run of the server in file mode, a flush of the batch writer
completes without an exception, and every message stored so far is then read back from the files with
its content, exactly if the contents of the batch are valid UTF-8. -/
theorem flush_stores_iff (hJ : J.Lawful) (h0 : Loaded J fs db) (hr : HostRunTo P J db fs h)
    (hb : h.server.db.batch ≠ []) :
    ((StoreOp.flush.effects P.fileHash J h.server.db).2 = true ∧
      loadMessages J (h.files.applyAll (StoreOp.flush.effects P.fileHash J h.server.db).1) =
        some (h.server.db.flush true).messages) ↔
    ∀ m ∈ h.server.db.batch, ValidUtf8 m.content := by
  have hst := stored_of_run hJ h0 hr
  constructor
  · rintro ⟨hok, -⟩
    exact utf8_batch_of_flush (utf8_of_flush_ok hJ hb hok)
  · intro hbatch
    have hu := utf8_flush hst.utf8 hbatch
    have happly : StoreOp.flush.apply P.fileHash h.server.db = h.server.db.flush true := if_neg hb
    obtain ⟨T, hload, hmsgs⟩ := stored_effects hJ hst .flush P.fileHash (by rwa [happly])
    constructor
    · rw [flush_effects hb]
      exact (loadPart_saveFiles hJ _ _ (fun f hf => by
        obtain rfl := List.mem_singleton.mp hf
        exact hu) (List.nodup_singleton _) h.files .messages).1
    · rw [loadMessages, hload, Option.map_some, hmsgs, happly]
      rfl

/-- A flush that finds a content that is not valid UTF-8 raises an exception when the message file is
already truncated: every message in it is lost. -/
theorem flush_raises (hJ : J.Lawful) (hst : h.Stored J) {m : DBChatMessage}
    (hm : m ∈ h.server.db.batch) (hu : ¬ ValidUtf8 m.content) (hash : String → String) :
    (StoreOp.flush.effects hash J h.server.db).2 = false ∧
      loadMessages J (h.files.applyAll (StoreOp.flush.effects hash J h.server.db).1) = some [] := by
  have hb : h.server.db.batch ≠ [] := List.ne_nil_of_mem hm
  have hdump : J.dump (writePart .messages ((h.server.db.flush true).tables .messages)) = none :=
    hJ.dump_invalid _ fun hj => hu (utf8_batch_of_flush ((utf8_writePart .messages _).mp hj) m hm)
  obtain ⟨T, hload, -⟩ := hst.load
  rw [flush_effects hb, saveFiles, hdump]
  refine ⟨rfl, ?_⟩
  have hcut : loadFileData J (Function.update h.files .messages (some [])) =
      some (Function.update T .messages (({} : Store).tables .messages)) := by
    refine loadFileData_eq_some.mpr fun f => ?_
    by_cases hf : f = .messages
    · subst hf
      rw [Function.update_self]
      exact loadPart_truncated hJ (Function.update_self ..)
    · rw [Function.update_of_ne hf, ← loadFileData_eq_some.mp hload f]
      exact loadPart_congr (Function.update_of_ne hf _ _)
  change loadMessages J (Function.update h.files .messages (some [])) = some []
  rw [loadMessages, hcut, Option.map_some, Function.update_self]
  rfl

namespace Sample

/-- A client sends a chat message to user `b`, who is not there, and the writer takes it. -/
def chatSchedule (body : Bytes) : List Label :=
  connect 5 ++ [packet 0 .chat body] ++ work 0 9 ++ [.drain]

/-- `ChatMessage` to user `b` with the single byte `0xFF`. -/
def chatFF : Bytes := [0x10, 0xE9, 0x07, 0x1A, 1, 0xFF]

theorem exists_hostRun (ls : List Label) (p : Host → Prop)
    (h : ∃ h ∈ runAll (Host.step params JsonText.lib) (fun _ _ => True) ls
      ⟨State.init params {}, fun _ => none⟩, p h) :
    ∃ h, HostRunTo params JsonText.lib {} (fun _ => none) h ∧ p h :=
  exists_reach ls h

theorem loaded_empty : Loaded JsonText.lib (fun _ => none) {} :=
  ⟨rfl, persisted_empty, fun _ h => (by cases h)⟩

end Sample

theorem flush_stores_iff_sample : ∃ h, HostRunTo Sample.params JsonText.lib {} (fun _ => none) h ∧
    h.server.db.batch.map (·.content) = [[0x68, 0x69]] ∧
    (StoreOp.flush.effects Sample.params.fileHash JsonText.lib h.server.db).2 = true ∧
      loadMessages JsonText.lib (h.files.applyAll
        (StoreOp.flush.effects Sample.params.fileHash JsonText.lib h.server.db).1) =
        some (h.server.db.flush true).messages := by
  obtain ⟨h, hr, hb, hu⟩ := Sample.exists_hostRun (Sample.chatSchedule Sample.chatToB)
    (fun h => h.server.db.batch.map (·.content) = [[0x68, 0x69]] ∧
      ∀ m ∈ h.server.db.batch, ValidUtf8 m.content) ⟨_, rfl, by decide, by decide⟩
  refine ⟨h, hr, hb, (flush_stores_iff JsonText.lib_lawful Sample.loaded_empty hr ?_).mpr hu⟩
  intro e
  rw [e] at hb
  cases hb

/-- A message that is not valid UTF-8 ends the writer thread and leaves the message file empty. -/
theorem content_not_stored : ∃ h, HostRunTo Sample.params JsonText.lib {} (fun _ => none) h ∧
    h.server.db.batch.map (·.content) = [[0xFF]] ∧
    (StoreOp.flush.effects Sample.params.fileHash JsonText.lib h.server.db).2 = false ∧
    loadMessages JsonText.lib (h.files.applyAll
      (StoreOp.flush.effects Sample.params.fileHash JsonText.lib h.server.db).1) = some [] := by
  obtain ⟨h, hr, hb⟩ := Sample.exists_hostRun (Sample.chatSchedule Sample.chatFF)
    (fun h => h.server.db.batch.map (·.content) = [[0xFF]]) ⟨_, rfl, by decide⟩
  have hff : [0xFF] ∈ h.server.db.batch.map (·.content) := hb ▸ List.mem_cons_self
  obtain ⟨m, hm, hc⟩ := List.mem_map.mp hff
  have hst := stored_of_run JsonText.lib_lawful Sample.loaded_empty hr
  have hu : ¬ ValidUtf8 m.content := by
    rw [hc]
    decide
  exact ⟨h, hr, hb, flush_raises JsonText.lib_lawful hst hm hu _⟩

end AuraChat
