import AuraChat.Lib.JsonText
import AuraChat.Lib.Sequence
import AuraChat.Storage.Files
import AuraChat.Storage.Friends
import AuraChat.Storage.Rows

set_option autoImplicit false

/-!
# The files follow the store

In file mode each operation saves the files of the tables that it has changed, with one exception:
`accept_friend_request` marks the request it has found and only then tests the uid of its sender,
so a request from a negative uid is marked in memory and not on disk. As long as no such request is
accepted, `load_file_data` reads the tables in memory back after every operation
(`store_persists`).

* `StoreOp.Slips`: the exception;
* `tables_eq_of_not_saved`: what is not saved has not changed;
* `Disk.Persisted`, `NoSlips`, **`store_persists`**.
-/

namespace AuraChat

open Interleave

variable {J : JsonLib} {hash : String → String} {st : Store} {d : Disk} {op : StoreOp}

/-! ## What an operation changes -/

/-- The strings of an operation are valid UTF-8; those of type `String` are by their type. -/
def StoreOp.Utf8 : StoreOp → Prop
  | .submit m => ValidUtf8 m.content
  | _ => True

instance : (op : StoreOp) → Decidable op.Utf8
  | .submit m => inferInstanceAs (Decidable (ValidUtf8 m.content))
  | .registerUser _ _ | .addFriendRequest _ _ _ | .acceptFriendRequest _ _ | .markDelivered _ _
  | .drain | .flush | .query => isTrue trivial

/-- The contents of the messages in the store are valid UTF-8. -/
structure Store.Utf8 (st : Store) : Prop where
  messages : ∀ m ∈ st.messages, ValidUtf8 m.content
  batch : ∀ m ∈ st.batch, ValidUtf8 m.content
  queue : ∀ m ∈ st.queue, ValidUtf8 m.content

/-- The operation accepts a friend request from a negative uid. -/
def StoreOp.Slips (st : Store) : StoreOp → Prop
  | .acceptFriendRequest rid uid =>
      ∃ r ∈ st.friendReqs.find? (Store.pendingFor rid uid), r.fromUid < 0
  | _ => False

instance (st : Store) : (op : StoreOp) → Decidable (op.Slips st)
  | .acceptFriendRequest rid uid => decidable_of_iff
      (((st.friendReqs.find? (Store.pendingFor rid uid)).any fun r => decide (r.fromUid < 0)) = true)
      (by simp [StoreOp.Slips, Option.any_eq_true])
  | .registerUser _ _ | .addFriendRequest _ _ _ | .markDelivered _ _ | .submit _ | .drain | .flush
  | .query => isFalse id

/-- **What an operation does not save it has not changed**, unless it accepts a request from a negative
uid. -/
theorem tables_eq_of_not_saved (hs : ¬ op.Slips st) {f : FileName} (hf : f ∉ op.saves st) :
    (op.apply hash st).tables f = st.tables f := by
  have h := op.outcome hash st
  generalize op.apply hash st = st', op.saves st = names at h hf ⊢
  cases h with
  | slip rid uid r hr h0 => exact absurd ⟨r, hr, h0⟩ hs
  | flush hb =>
      simp only [Store.flush, Bool.or_true, if_true]
      cases f <;> first | rfl | exact absurd List.mem_cons_self hf
  | register | request | accept | mark =>
      cases f <;> first | rfl | exact absurd (by decide) hf
  | same | submit | drain => cases f <;> rfl

theorem saves_nodup (op : StoreOp) (st : Store) : (op.saves st).Nodup := by
  have h := op.outcome id st
  generalize op.apply id st = st', op.saves st = names at h ⊢
  cases h <;> decide

theorem utf8_flush (h : ∀ m ∈ st.messages, ValidUtf8 m.content)
    (hb : ∀ m ∈ st.batch, ValidUtf8 m.content) :
    ∀ m ∈ (st.flush true).messages, ValidUtf8 m.content := by
  simp only [Store.flush, Bool.or_true, if_true]
  refine List.forall_mem_append.mpr ⟨h, fun m hm => ?_⟩
  obtain ⟨b, hb', hc⟩ := mem_rowsOf_content hm
  rw [hc]
  exact hb b hb'

theorem utf8_messages_apply (h : ∀ m ∈ st.messages, ValidUtf8 m.content)
    (hflush : op = .flush → ∀ m ∈ (st.flush true).messages, ValidUtf8 m.content) :
    ∀ m ∈ (op.apply hash st).messages, ValidUtf8 m.content := by
  have ho := op.outcome hash st
  generalize op.apply hash st = st', op.saves st = names at ho ⊢
  cases ho with
  | mark uid maxId =>
      refine List.forall_mem_map.mpr fun m hm => ?_
      split_ifs <;> exact h m hm
  | flush hb => exact hflush rfl
  | same | register | request | accept | slip | submit | drain => exact h

/-- Operations on valid UTF-8 keep the contents of the messages valid. -/
theorem utf8_apply (h : st.Utf8) (hop : op.Utf8) : (op.apply hash st).Utf8 := by
  have hmsgs : ∀ m ∈ (op.apply hash st).messages, ValidUtf8 m.content :=
    utf8_messages_apply h.messages fun _ => utf8_flush h.messages h.batch
  have ho := op.outcome hash st
  generalize op.apply hash st = st', op.saves st = names at ho hmsgs ⊢
  cases ho with
  | submit m =>
      refine ⟨hmsgs, h.batch, List.forall_mem_append.mpr ⟨h.queue, ?_⟩⟩
      exact List.forall_mem_singleton.mpr hop
  | drain hb =>
      exact ⟨hmsgs,
        List.forall_mem_append.mpr ⟨h.batch, fun m hm => h.queue m (List.mem_of_mem_take hm)⟩,
        fun m hm => h.queue m (List.mem_of_mem_drop hm)⟩
  | flush hb =>
      refine ⟨hmsgs, ?_, ?_⟩
      · rw [(flush_batch st true).1]
        exact fun m hm => absurd hm List.not_mem_nil
      · rw [(flush_batch st true).2]
        exact h.queue
  | same | register | request | accept | slip | mark => exact ⟨hmsgs, h.batch, h.queue⟩

theorem Store.Utf8.part (h : st.Utf8) (f : FileName) : Utf8Part f (st.tables f) := by
  cases f with
  | messages => exact h.messages
  | users | friends | friendRequests => trivial

/-! ## Runs -/

/-- `load_file_data` reads back the tables in memory. -/
def Disk.Persisted (J : JsonLib) (d : Disk) : Prop := loadFileData J d.files = some d.store.tables

theorem persisted_empty : Disk.empty.Persisted J :=
  loadFileData_eq_some.mpr fun f => readPart_empty f

theorem loadPart_run (hJ : J.Lawful) (hu : d.store.Utf8) (hop : op.Utf8) (f : FileName) :
    (op.effects hash J d.store).2 = true ∧ loadPart J (d.run J hash op).files f =
      if f ∈ op.saves d.store then some ((d.run J hash op).store.tables f)
      else loadPart J d.files f :=
  loadPart_saveFiles hJ _ _ (fun g _ => (utf8_apply hu hop).part g) (saves_nodup op d.store) d.files f

theorem persisted_run (hJ : J.Lawful) (hu : d.store.Utf8) (hop : op.Utf8) (h : d.Persisted J)
    (hs : ¬ op.Slips d.store) : (d.run J hash op).Persisted J := by
  refine loadFileData_eq_some.mpr fun f => ?_
  rw [(loadPart_run hJ hu hop f).2]
  split_ifs with hf
  · rfl
  · rw [loadFileData_eq_some.mp h f]
    exact congrArg some (tables_eq_of_not_saved hs hf).symm

/-- A request from a negative uid is accepted in memory only. -/
theorem not_persisted_of_slips (h : d.Persisted J) (hs : op.Slips d.store) :
    ¬ (d.run J hash op).Persisted J := by
  intro h'
  cases op with
  | acceptFriendRequest rid uid =>
      obtain ⟨r, hr, h0⟩ := hs
      obtain ⟨hfrom, hne⟩ := acceptLoop_some hr
      rw [← hfrom] at h0
      have hfiles : (d.run J hash (.acceptFriendRequest rid uid)).files = d.files := by
        simp only [Disk.run, StoreOp.effects, StoreOp.saves, if_pos h0]
        rfl
      have heq : (d.run J hash (.acceptFriendRequest rid uid)).store.tables = d.store.tables := by
        rw [Disk.Persisted, hfiles] at h'
        exact Option.some.inj (h'.symm.trans h)
      refine hne ?_
      have hreqs := congrArg Prod.snd (congrFun heq .friendRequests)
      simpa only [Disk.run, StoreOp.apply, Store.acceptFriendRequest, if_pos h0, Store.tables]
        using hreqs
  | _ => exact hs

theorem utf8_runAll {ops : List StoreOp} (hu : d.store.Utf8) (hops : ∀ op ∈ ops, op.Utf8) :
    (d.runAll J hash ops).store.Utf8 :=
  foldl_invariant (f := Disk.run J hash) (K := fun d => d.store.Utf8) hu
    (fun _ _ hop hu => utf8_apply hu hop) hops

theorem utf8_empty : Disk.empty.store.Utf8 :=
  ⟨fun _ h => (by cases h), fun _ h => (by cases h), fun _ h => (by cases h)⟩

/-- The operations meet no request from a negative uid. -/
def NoSlips (J : JsonLib) (hash : String → String) (ops : List StoreOp) : Prop :=
  ∀ pre op, pre ++ [op] <+: ops → ¬ op.Slips (Disk.empty.runAll J hash pre).store

/-- The files follow the store exactly as long as no operation slips. -/
theorem persisted_iff (hJ : J.Lawful) {ops : List StoreOp} (hops : ∀ op ∈ ops, op.Utf8) :
    (∀ pre, pre <+: ops → (Disk.empty.runAll J hash pre).Persisted J) ↔ NoSlips J hash ops := by
  refine forall_prefix_iff (f := Disk.run J hash) (K := fun d => d.store.Utf8)
    (C := fun op d => ¬ op.Slips d.store) utf8_empty persisted_empty
    (fun _ _ hop hu => utf8_apply hu hop) (fun d op hop hu hp => ?_) hops
  exact ⟨fun h hs => not_persisted_of_slips hp hs h, persisted_run hJ hu hop hp⟩

/-- **The files follow the store.** Along any sequence of operations on valid UTF-8 from an empty data
directory, `load_file_data` reproduces the tables and the counters in memory after every operation
exactly if no operation accepts a friend request from a negative uid. -/
theorem store_persists (hJ : J.Lawful) (ops : List StoreOp) (hops : ∀ op ∈ ops, op.Utf8) :
    (∀ pre, pre <+: ops → loadFileData J (Disk.empty.runAll J hash pre).files =
      some (Disk.empty.runAll J hash pre).store.tables) ↔
    NoSlips J hash ops :=
  persisted_iff hJ hops

namespace Sample

/-- Two users become friends, and one of them gets a message. -/
def ops : List StoreOp :=
  [.registerUser "ann" "pw", .addFriendRequest 1000 1001 "hello", .acceptFriendRequest 1 1001,
    .submit { fromUid := 1000, toUid := 1001, content := [104, 105], delivered := false }, .drain,
    .flush, .markDelivered 1001 1, .query]

/-- A request from a negative uid is accepted. -/
def negativeOps : List StoreOp := [.addFriendRequest (-5) 3 "", .acceptFriendRequest 1 3]

end Sample

theorem store_persists_sample : (∀ op ∈ Sample.ops, op.Utf8) ∧
    ∀ pre, pre <+: Sample.ops → loadFileData JsonText.lib (Disk.empty.runAll JsonText.lib id pre).files =
      some (Disk.empty.runAll JsonText.lib id pre).store.tables :=
  ⟨by decide, (store_persists JsonText.lib_lawful Sample.ops (by decide)).mpr
    (forall_prefix_concat.mpr (by decide))⟩

theorem store_not_persisted : (∀ op ∈ Sample.negativeOps, op.Utf8) ∧
    ¬ ∀ pre, pre <+: Sample.negativeOps →
      loadFileData JsonText.lib (Disk.empty.runAll JsonText.lib id pre).files =
        some (Disk.empty.runAll JsonText.lib id pre).store.tables := by
  refine ⟨by decide, fun h => ?_⟩
  have hbefore := h [.addFriendRequest (-5) 3 ""] (by decide)
  have hslips : (StoreOp.acceptFriendRequest 1 3).Slips
      (Disk.empty.runAll JsonText.lib id [.addFriendRequest (-5) 3 ""]).store := by decide
  exact not_persisted_of_slips hbefore hslips (h _ List.prefix_rfl)

end AuraChat
