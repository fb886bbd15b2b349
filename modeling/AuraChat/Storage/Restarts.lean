import AuraChat.Lib.Reach
import AuraChat.Storage.Accept
import AuraChat.Storage.Persistence

set_option autoImplicit false

/-!
# Restarts

Along operations on valid UTF-8 that send no friend request from a negative uid, the files follow the
store, so a restart finds the tables as they were.

* `DiskOp.Fair`: such an operation, or a restart;
* `Disk.Sound`, **`sound_step`**: what they keep;
* **`restart_eq`**: a restart gives the tables back;
* `Disk.runOps`, `exists_runOps`: sequences of operations and restarts.
-/

namespace AuraChat

open Interleave

variable {J : JsonLib} {hash : String → String} {st : Store} {d d' : Disk} {op : StoreOp}

/-- An operation on valid UTF-8 that sends no friend request from a negative uid, or a restart. -/
def DiskOp.Fair : DiskOp → Prop
  | .run (.addFriendRequest fromUid _ _) => 0 ≤ fromUid
  | .run op => op.Utf8
  | .restart => True

instance : (op : DiskOp) → Decidable op.Fair
  | .run (.addFriendRequest fromUid _ _) => inferInstanceAs (Decidable (0 ≤ fromUid))
  | .run (.submit m) => inferInstanceAs (Decidable (ValidUtf8 m.content))
  | .run (.registerUser _ _) | .run (.acceptFriendRequest _ _) | .run (.markDelivered _ _)
  | .run .drain | .run .flush | .run .query | .restart => isTrue trivial

theorem DiskOp.Fair.utf8 (h : (DiskOp.run op).Fair) : op.Utf8 := by
  cases op with
  | addFriendRequest => trivial
  | _ => exact h

/-- The files hold the tables, the strings are valid UTF-8, and no request comes from a negative uid. -/
structure Disk.Sound (J : JsonLib) (d : Disk) : Prop where
  persisted : d.Persisted J
  utf8 : d.store.Utf8
  senders : d.store.Senders

theorem sound_empty : Disk.empty.Sound J where
  persisted := persisted_empty
  utf8 := utf8_empty
  senders := nofun

theorem senders_apply (hop : (DiskOp.run op).Fair) (h : st.Senders) :
    (op.apply hash st).Senders := by
  refine forall_friendReqs_apply (K := fun a _ => 0 ≤ a) (fun a b msg heq => ?_) h
  rw [heq] at hop
  exact hop

theorem Store.Senders.not_slips (h : st.Senders) : ¬ op.Slips st := by
  cases op with
  | acceptFriendRequest rid uid =>
      rintro ⟨r, hr, hneg⟩
      exact Int.not_lt.mpr (h r (List.mem_of_find?_eq_some hr)) hneg
  | _ => exact id

theorem ofTables_tables (T : Tables) : (Store.ofTables T).tables = T := by
  funext f
  cases f <;> rfl

/-- **A restart gives the tables back.** -/
theorem restart_eq (h : d.Sound J) :
    Disk.step J hash .restart d = some ⟨Store.ofTables d.store.tables, d.files⟩ := by
  rw [Disk.step, show loadFileData J d.files = some d.store.tables from h.persisted]
  rfl

theorem sound_step {op : DiskOp} (hJ : J.Lawful) (h : d.Sound J) (hop : op.Fair)
    (hs : Disk.step J hash op d = some d') : d'.Sound J := by
  cases op with
  | run op =>
      obtain rfl := Option.some.inj hs
      exact ⟨persisted_run hJ h.utf8 hop.utf8 h.persisted h.senders.not_slips,
        utf8_apply h.utf8 hop.utf8, senders_apply hop h.senders⟩
  | restart =>
      rw [restart_eq h] at hs
      obtain rfl := Option.some.inj hs
      refine ⟨?_, ⟨h.utf8.messages, nofun, nofun⟩, h.senders⟩
      rw [Disk.Persisted, ofTables_tables]
      exact h.persisted

/-- The states that fair operations and restarts reach from an empty data directory. -/
abbrev Disk.RunTo (J : JsonLib) (hash : String → String) (d : Disk) : Prop :=
  Reach (Disk.step J hash) (fun op _ => op.Fair) Disk.empty d

/-- A sequence of fair operations and restarts from an empty data directory. -/
def Disk.runOps (J : JsonLib) (hash : String → String) (ops : List DiskOp) : Option Disk :=
  Interleave.runAll (Disk.step J hash) (fun op _ => op.Fair) ops Disk.empty

theorem sound_of_run (hJ : J.Lawful) (h : Disk.RunTo J hash d) : d.Sound J :=
  h.invariant (Disk.Sound J) sound_empty fun _ _ _ hop hd hs => sound_step hJ hd hop hs

theorem sound_of_runOps (hJ : J.Lawful) {ops : List DiskOp} (h : Disk.runOps J hash ops = some d) :
    d.Sound J :=
  sound_of_run hJ (reach_of_runAll ops h)

/-- **Every sequence of fair operations and restarts comes to its end**: the server is never kept from
coming up. -/
theorem exists_runOps (hJ : J.Lawful) {ops : List DiskOp} (hops : ∀ op ∈ ops, op.Fair) :
    ∃ d, Disk.runOps J hash ops = some d := by
  induction ops using List.reverseRecOn with
  | nil => exact ⟨_, rfl⟩
  | append_singleton pre op ih =>
      obtain ⟨hpre, hop⟩ := List.forall_mem_append.mp hops
      obtain ⟨d, hd⟩ := ih hpre
      have hstep : ∃ d', Disk.step J hash op d = some d' := by
        cases op with
        | run op => exact ⟨_, rfl⟩
        | restart => exact ⟨_, restart_eq (sound_of_runOps hJ hd)⟩
      obtain ⟨d', hs⟩ := hstep
      exact ⟨d', runAll_concat_eq_some.mpr ⟨d, hd, List.forall_mem_singleton.mp hop, hs⟩⟩

end AuraChat
