import AuraChat.Storage.Persistence

set_option autoImplicit false

/-!
# A crash between two effects

The files are rewritten in place: a save truncates the file and then writes it, and the next file of
the operation comes after it. `crash_load` says what `load_file_data` reads at the restart, for every
point at which an operation may be cut off: the files saved so far hold the tables after the
operation, the others those before it, and a file that was truncated and not yet written holds the
table of a new store.

* `cutTables`, `loadPart_take_saveFiles`: a save that was cut off;
* **`crash_load`**.
-/

namespace AuraChat

open Interleave

variable {J : JsonLib} {hash : String → String}

/-- The tables after `k` effects of saving some files: two effects a file. -/
def cutTables (names : List FileName) (k : ℕ) (before after : Tables) : Tables := fun f =>
  if f ∈ names.take (k / 2) then after f
  else if k % 2 = 1 ∧ names[k / 2]? = some f then ({} : Store).tables f
  else before f

theorem cutTables_nil (k : ℕ) (before after : Tables) : cutTables [] k before after = before := by
  funext f
  simp [cutTables]

theorem cutTables_zero (names : List FileName) (before after : Tables) :
    cutTables names 0 before after = before := by
  funext f
  simp [cutTables]

theorem cutTables_one (g : FileName) (names : List FileName) (before after : Tables) (f : FileName) :
    cutTables (g :: names) 1 before after f =
      if g = f then ({} : Store).tables f else before f := by
  simp [cutTables]

/-- The first file was saved: it now counts as one of the files before. -/
theorem cutTables_add_two {g : FileName} {names : List FileName} (hg : g ∉ names) (k : ℕ)
    (before after : Tables) : cutTables (g :: names) (k + 2) before after =
      cutTables names k (Function.update before g (after g)) after := by
  have hdiv : (k + 2) / 2 = k / 2 + 1 := by omega
  have hmod : (k + 2) % 2 = k % 2 := by omega
  funext f
  simp only [cutTables, hdiv, hmod, List.take_succ_cons, List.mem_cons, List.getElem?_cons_succ]
  by_cases hf : f = g
  · subst hf
    have h1 : f ∉ names.take (k / 2) := fun h => hg (List.mem_of_mem_take h)
    have h2 : ¬ (k % 2 = 1 ∧ names[k / 2]? = some f) := fun h => hg (List.mem_of_getElem? h.2)
    simp only [true_or, if_true, if_neg h1, if_neg h2, Function.update_self]
  · simp only [hf, false_or, Function.update_of_ne hf]

/-- **What is loaded after a save that was cut off.** -/
theorem loadPart_take_saveFiles (hJ : J.Lawful) (T : Tables) (names : List FileName)
    (hT : ∀ f ∈ names, Utf8Part f (T f)) (hnd : names.Nodup) (k : ℕ) (fs : Files) (before : Tables)
    (hbefore : ∀ f, loadPart J fs f = some (before f)) (f : FileName) :
    loadPart J (fs.applyAll ((saveFiles J T names).1.take k)) f = some (cutTables names k before T f) := by
  induction names generalizing k fs before with
  | nil =>
      rw [cutTables_nil, saveFiles, List.take_nil]
      exact hbefore f
  | cons g names ih =>
      obtain ⟨hg, hnd⟩ := List.nodup_cons.mp hnd
      obtain ⟨text, hdump, hparse⟩ := exists_text hJ g (hT g List.mem_cons_self)
      simp only [saveFiles, hdump]
      cases k with
      | zero =>
          rw [cutTables_zero]
          exact hbefore f
      | succ k =>
          cases k with
          | zero =>
              have hfs : fs.applyAll [.truncate g] = Function.update fs g (some []) := rfl
              rw [cutTables_one, List.take_succ_cons, List.take_zero, hfs]
              split_ifs with hfg
              · subst hfg
                exact loadPart_truncated hJ (Function.update_self ..)
              · rw [← hbefore f]
                exact loadPart_congr (Function.update_of_ne (Ne.symm hfg) _ _)
          | succ k =>
              rw [cutTables_add_two hg]
              refine ih (fun f hf => hT f (List.mem_cons_of_mem _ hf)) hnd k
                ((fs.apply (.truncate g)).apply (.write g text)) _ fun f => ?_
              by_cases hfg : f = g
              · subst hfg
                rw [Function.update_self]
                exact loadPart_saved (Function.update_self ..) hparse
              · rw [Function.update_of_ne hfg, ← hbefore f]
                refine loadPart_congr ?_
                exact (Function.update_of_ne hfg _ _).trans (Function.update_of_ne hfg _ _)

theorem exists_load_run (hJ : J.Lawful) {d : Disk} {op : StoreOp} (hu : d.store.Utf8) (hop : op.Utf8)
    (h : ∃ T, loadFileData J d.files = some T) : ∃ T, loadFileData J (d.run J hash op).files = some T := by
  obtain ⟨T, hT⟩ := h
  refine ⟨fun f => if f ∈ op.saves d.store then (d.run J hash op).store.tables f else T f,
    loadFileData_eq_some.mpr fun f => ?_⟩
  rw [(loadPart_run hJ hu hop f).2, apply_ite some, loadFileData_eq_some.mp hT f]

theorem exists_load (hJ : J.Lawful) {ops : List StoreOp} (hops : ∀ op ∈ ops, op.Utf8) :
    ∃ T, loadFileData J (Disk.empty.runAll J hash ops).files = some T := by
  have h : (Disk.empty.runAll J hash ops).store.Utf8 ∧
      ∃ T, loadFileData J (Disk.empty.runAll J hash ops).files = some T :=
    foldl_invariant (f := Disk.run J hash)
      (K := fun d => d.store.Utf8 ∧ ∃ T, loadFileData J d.files = some T)
      ⟨utf8_empty, _, persisted_empty⟩
      (fun _ _ hop hk => ⟨utf8_apply hk.1 hop, exists_load_run hJ hk.1 hop hk.2⟩) hops
  exact h.2

/-- The files after `k` effects of the last operation. -/
def cutFiles (J : JsonLib) (hash : String → String) (ops : List StoreOp) (op : StoreOp) (k : ℕ) : Files :=
  (Disk.empty.runAll J hash ops).files.applyAll
    ((op.effects hash J (Disk.empty.runAll J hash ops).store).1.take k)

theorem load_cutFiles (hJ : J.Lawful) {ops : List StoreOp} {op : StoreOp}
    (hops : ∀ op' ∈ ops ++ [op], op'.Utf8) {before : Tables}
    (hbefore : loadFileData J (Disk.empty.runAll J hash ops).files = some before) (k : ℕ) :
    loadFileData J (cutFiles J hash ops op k) =
      some (cutTables (op.saves (Disk.empty.runAll J hash ops).store) k before
        (Disk.empty.runAll J hash (ops ++ [op])).store.tables) := by
  have hutf8 : (Disk.empty.runAll J hash (ops ++ [op])).store.Utf8 := utf8_runAll utf8_empty hops
  have hrun : Disk.empty.runAll J hash (ops ++ [op]) = (Disk.empty.runAll J hash ops).run J hash op :=
    foldl_concat ops op
  rw [hrun] at hutf8 ⊢
  refine loadFileData_eq_some.mpr fun f => ?_
  exact loadPart_take_saveFiles hJ _ _ (fun g _ => hutf8.part g) (saves_nodup op _) k _ _
    (loadFileData_eq_some.mp hbefore) f

/-- **A crash between two effects.** After any sequence of operations on valid UTF-8, cut the next
operation off after `k` of its effects on the files: `load_file_data` then reads the tables after
the operation from the files that were saved, what it would have read before the operation from the
files that were not touched, and an empty table from the file, if any, that was truncated and not yet
written. -/
theorem crash_load (hJ : J.Lawful) (ops : List StoreOp) (op : StoreOp)
    (hops : ∀ op' ∈ ops ++ [op], op'.Utf8) :
    ∃ before, loadFileData J (Disk.empty.runAll J hash ops).files = some before ∧
      (NoSlips J hash ops → before = (Disk.empty.runAll J hash ops).store.tables) ∧
      ∀ k, loadFileData J (cutFiles J hash ops op k) =
        some (cutTables (op.saves (Disk.empty.runAll J hash ops).store) k before
          (Disk.empty.runAll J hash (ops ++ [op])).store.tables) := by
  have hpre := fun op' hop' => hops op' (List.mem_append_left [op] hop')
  obtain ⟨before, hbefore⟩ := exists_load hJ hpre
  refine ⟨before, hbefore, fun hs => ?_, load_cutFiles hJ hops hbefore⟩
  exact Option.some.inj (hbefore.symm.trans ((persisted_iff hJ hpre).mpr hs ops List.prefix_rfl))

namespace Sample

/-- Ann is registered; the registration of Bob comes next. -/
def annOps : List StoreOp := [.registerUser "ann" "pw"]

def bobOp : StoreOp := .registerUser "bob" "pw"

/-- A friend request is pending; its acceptance comes next. -/
def requestOps : List StoreOp := [.addFriendRequest 1000 1001 "hello"]

def acceptOp : StoreOp := .acceptFriendRequest 1 1001

end Sample

theorem crash_load_sample : (∀ op ∈ Sample.annOps ++ [Sample.bobOp], op.Utf8) ∧
    ∀ k, loadFileData JsonText.lib (cutFiles JsonText.lib id Sample.annOps Sample.bobOp k) =
      some (cutTables [.users] k (Disk.empty.runAll JsonText.lib id Sample.annOps).store.tables
        (Disk.empty.runAll JsonText.lib id (Sample.annOps ++ [Sample.bobOp])).store.tables) := by
  have hs : NoSlips JsonText.lib id Sample.annOps := forall_prefix_concat.mpr (by decide)
  obtain ⟨before, -, hslips, hload⟩ :=
    crash_load JsonText.lib_lawful Sample.annOps Sample.bobOp (by decide)
  rw [hslips hs] at hload
  exact ⟨by decide, hload⟩

/-- Cut off after the truncation of `users.json`, a registration loses the users registered before;
cut off between its two files, an acceptance is in the requests and not in the friends. -/
theorem crash_not_atomic :
    ¬ (loadFileData JsonText.lib (cutFiles JsonText.lib id Sample.annOps Sample.bobOp 1) =
        some (Disk.empty.runAll JsonText.lib id Sample.annOps).store.tables ∨
      loadFileData JsonText.lib (cutFiles JsonText.lib id Sample.annOps Sample.bobOp 1) =
        some (Disk.empty.runAll JsonText.lib id (Sample.annOps ++ [Sample.bobOp])).store.tables) ∧
    ¬ (loadFileData JsonText.lib (cutFiles JsonText.lib id Sample.requestOps Sample.acceptOp 2) =
        some (Disk.empty.runAll JsonText.lib id Sample.requestOps).store.tables ∨
      loadFileData JsonText.lib (cutFiles JsonText.lib id Sample.requestOps Sample.acceptOp 2) =
        some (Disk.empty.runAll JsonText.lib id (Sample.requestOps ++ [Sample.acceptOp])).store.tables) := by
  have hload : ∀ ops op, (∀ op' ∈ ops ++ [op], op'.Utf8) → NoSlips JsonText.lib id ops → ∀ k,
      loadFileData JsonText.lib (cutFiles JsonText.lib id ops op k) = _ := fun ops op hops hs =>
    load_cutFiles JsonText.lib_lawful hops
      ((persisted_iff JsonText.lib_lawful fun op' h => hops op' (List.mem_append_left _ h)).mpr hs ops
        List.prefix_rfl)
  rw [hload _ _ (by decide) (forall_prefix_concat.mpr (by decide)),
    hload _ _ (by decide) (forall_prefix_concat.mpr (by decide))]
  constructor
  · rintro (h | h)
    · exact absurd (congrFun (Option.some.inj h) .users) (by decide)
    · exact absurd (congrFun (Option.some.inj h) .users) (by decide)
  · rintro (h | h)
    · exact absurd (congrFun (Option.some.inj h) .friendRequests) (by decide)
    · exact absurd (congrFun (Option.some.inj h) .friends) (by decide)

end AuraChat
