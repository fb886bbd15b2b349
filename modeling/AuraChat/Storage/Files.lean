import AuraChat.Model.Files

set_option autoImplicit false

/-!
# Saving and loading

What a file holds is read back from its document, and saving some files leaves the others as they
are.

* **`readPart_writePart`**, `utf8_writePart`, `canonical_writePart`: the documents;
* `loadFileData_eq_some`: the tables are loaded file by file;
* **`loadPart_saveFiles`**: what is loaded after files were saved.
-/

namespace AuraChat

variable {J : JsonLib} {fs : Files}

/-! ## Documents -/

/-- The strings of a part are valid UTF-8. Those of the other tables are by their type. -/
def Utf8Part : (f : FileName) → Part f → Prop
  | .messages, p => ∀ m ∈ p.2, ValidUtf8 m.content
  | _, _ => True

@[simp] theorem asString_bytes (s : String) : Json.asString (.str (bytes s)) = some s :=
  Json.asString_utf8 s

@[simp] theorem validUtf8_bytes (s : String) : ValidUtf8 (bytes s) := Json.validUtf8_utf8 s

theorem FileUser.ofJson_toJson (u : FileUser) : FileUser.ofJson u.toJson = some u := by
  simp [FileUser.ofJson, FileUser.toJson, Json.field, Json.get?, Json.asInt]

theorem pairOfJson_toJson (p : Int × Int) : pairOfJson (pairToJson p) = some p := rfl

theorem FileFriendRequest.ofJson_toJson (r : FileFriendRequest) :
    FileFriendRequest.ofJson r.toJson = some r := by
  simp [FileFriendRequest.ofJson, FileFriendRequest.toJson, Json.field, Json.value, Json.get?,
    Json.asInt]

theorem FileMessage.ofJson_toJson (m : FileMessage) : FileMessage.ofJson m.toJson = some m := by
  simp [FileMessage.ofJson, FileMessage.toJson, Json.field, Json.value, Json.get?, Json.asInt,
    Json.asBool, Json.asBytes]

/-- **What a file holds is read back from its document.** -/
theorem readPart_writePart (f : FileName) (p : Part f) : readPart f (writePart f p) = some p := by
  cases f with
  | users =>
      simp [readPart, writePart, Json.value, Json.rows, Json.get?, Json.asInt, Json.items,
        Json.mapM_map_some _ FileUser.ofJson_toJson]
  | friends =>
      simp [readPart, writePart, Json.rows, Json.get?, Json.items,
        Json.mapM_map_some _ pairOfJson_toJson]
  | friendRequests =>
      simp [readPart, writePart, Json.value, Json.rows, Json.get?, Json.asInt, Json.items,
        Json.mapM_map_some _ FileFriendRequest.ofJson_toJson]
  | messages =>
      simp [readPart, writePart, Json.value, Json.rows, Json.get?, Json.asInt, Json.items,
        Json.mapM_map_some _ FileMessage.ofJson_toJson]

theorem readPart_empty (f : FileName) : readPart f (.obj []) = some ((({} : Store).tables) f) := by
  cases f <;> rfl

theorem canonical_pair (p : Int × Int) : (pairToJson p).Canonical := by simp [pairToJson]

theorem utf8_pair (p : Int × Int) : (pairToJson p).Utf8 := by simp [pairToJson]

theorem canonical_writePart (f : FileName) (p : Part f) : (writePart f p).Canonical := by
  cases f with
  | friends =>
      simp only [writePart, Json.canonical_obj, List.forall_mem_singleton, Json.canonical_arr]
      exact ⟨List.pairwise_singleton _ _, List.forall_mem_map.mpr fun p _ => canonical_pair p⟩
  | users | friendRequests | messages =>
      simp +decide [writePart, FileUser.toJson, FileFriendRequest.toJson, FileMessage.toJson]

theorem utf8_writePart (f : FileName) (p : Part f) : (writePart f p).Utf8 ↔ Utf8Part f p := by
  cases f with
  | friends =>
      simp only [writePart, Json.utf8_obj, List.forall_mem_singleton, Json.utf8_arr, Utf8Part, iff_true]
      exact List.forall_mem_map.mpr fun p _ => utf8_pair p
  | users | friendRequests | messages =>
      simp [writePart, Utf8Part, FileUser.toJson, FileFriendRequest.toJson, FileMessage.toJson]

/-! ## Files -/

theorem loadFileData_eq_some {T : Tables} :
    loadFileData J fs = some T ↔ ∀ f, loadPart J fs f = some (T f) := by
  constructor
  · intro h
    simp only [loadFileData, Option.bind_eq_bind, Option.bind_eq_some_iff, Option.some.injEq] at h
    obtain ⟨users, h1, friends, h2, reqs, h3, msgs, h4, rfl⟩ := h
    intro f
    cases f <;> assumption
  · intro h
    simp only [loadFileData, h, Option.bind_eq_bind, Option.bind_some, Option.some.injEq]
    funext f
    cases f <;> rfl

theorem loadPart_truncated (hJ : J.Lawful) {f : FileName} (h : fs f = some []) :
    loadPart J fs f = some ((({} : Store).tables) f) := by
  rw [loadPart, loadJson, h]
  simp only [hJ.parse_nil, Option.getD_none]
  exact readPart_empty f

theorem loadPart_saved {f : FileName} {p : Part f} {text : Bytes} (h : fs f = some text)
    (ht : J.parse text = some (writePart f p)) : loadPart J fs f = some p := by
  rw [loadPart, loadJson, h]
  simp only [ht, Option.getD_some]
  exact readPart_writePart f p

theorem loadPart_congr {fs fs' : Files} {f : FileName} (h : fs f = fs' f) :
    loadPart J fs f = loadPart J fs' f := by
  rw [loadPart, loadPart, loadJson, loadJson, h]

theorem exists_text (hJ : J.Lawful) (f : FileName) {p : Part f} (hp : Utf8Part f p) :
    ∃ text, J.dump (writePart f p) = some text ∧ J.parse text = some (writePart f p) :=
  hJ.parse_dump _ (canonical_writePart f p) ((utf8_writePart f p).mpr hp)

/-- **What is loaded after some files were saved**: the table in memory from those, and what was
loaded before from the others. -/
theorem loadPart_saveFiles (hJ : J.Lawful) (T : Tables) (names : List FileName)
    (hT : ∀ f ∈ names, Utf8Part f (T f)) (hnd : names.Nodup) (fs : Files) (f : FileName) :
    (saveFiles J T names).2 = true ∧ loadPart J (fs.applyAll (saveFiles J T names).1) f =
      if f ∈ names then some (T f) else loadPart J fs f := by
  induction names generalizing fs with
  | nil => exact ⟨rfl, rfl⟩
  | cons g names ih =>
      obtain ⟨hg, hnd⟩ := List.nodup_cons.mp hnd
      obtain ⟨text, hdump, hparse⟩ := exists_text hJ g (hT g List.mem_cons_self)
      obtain ⟨hok, hload⟩ := ih (fun f hf => hT f (List.mem_cons_of_mem _ hf)) hnd
        ((fs.apply (.truncate g)).apply (.write g text))
      simp only [saveFiles, hdump]
      refine ⟨hok, hload.trans ?_⟩
      by_cases hfg : f = g
      · subst hfg
        rw [if_neg hg, if_pos List.mem_cons_self]
        exact loadPart_saved (Function.update_self ..) hparse
      · by_cases hmem : f ∈ names
        · rw [if_pos hmem, if_pos (List.mem_cons_of_mem _ hmem)]
        · rw [if_neg hmem, if_neg (List.not_mem_cons_of_ne_of_not_mem hfg hmem)]
          refine loadPart_congr ?_
          exact (Function.update_of_ne hfg _ _).trans (Function.update_of_ne hfg _ _)

end AuraChat
