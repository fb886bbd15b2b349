import AuraChat.Client.Stream

set_option autoImplicit false

/-!
# The frames of a stream

On an open connection `process_stream_request` sends one numbered sequence of frames, whose last one is
flagged. A successful transfer is sent whole; after a failure the fallback text follows what was flushed.

* `Numbered`, `Delimited`, `contents`: what is asked of a list of frames;
* `flushed`, `flushes_sound`: the frames of the chunks;
* `pieceFrames`, `sendPieces_queued`: the frames of the fallback text;
* **`stream_chunks`**.
-/

namespace AuraChat

open Interleave Interleave.Prog

/-! ## Frames -/

/-- The numbers of the frames are `n`, `n + 1` and so on. -/
def Numbered (n : Int) (fs : List StreamFrame) : Prop :=
  fs.map StreamFrame.streamSeq = (List.range fs.length).map fun i : ℕ => n + (i : Int)

/-- The last frame is flagged, and no other. -/
def Delimited (fs : List StreamFrame) : Prop :=
  ∃ init last, fs = init ++ [last] ∧ last.isLast = true ∧ ∀ f ∈ init, f.isLast = false

def contents (fs : List StreamFrame) : Bytes := fs.flatMap StreamFrame.content

@[simp] theorem contents_append (fs gs : List StreamFrame) :
    contents (fs ++ gs) = contents fs ++ contents gs := List.flatMap_append

theorem numbered_nil (n : Int) : Numbered n [] := rfl

theorem numbered_cons {n : Int} {f : StreamFrame} {fs : List StreamFrame} :
    Numbered n (f :: fs) ↔ f.streamSeq = n ∧ Numbered (n + 1) fs := by
  have hshift : ∀ i : ℕ, n + ((i + 1 : ℕ) : Int) = n + 1 + (i : Int) := by
    intro i
    omega
  have hzero : n + ((0 : ℕ) : Int) = n := by omega
  rw [Numbered, Numbered, List.map_cons, List.length_cons, List.range_succ_eq_map, List.map_cons,
    List.map_map, List.cons.injEq, hzero]
  simp only [Function.comp_def, Nat.succ_eq_add_one, hshift]

theorem numbered_append {n : Int} {fs gs : List StreamFrame} :
    Numbered n (fs ++ gs) ↔ Numbered n fs ∧ Numbered (n + fs.length) gs := by
  induction fs generalizing n with
  | nil => simp [numbered_nil]
  | cons f fs ih =>
      have hlen : n + 1 + (fs.length : Int) = n + ((f :: fs).length : Int) := by
        rw [List.length_cons]
        omega
      rw [List.cons_append, numbered_cons, numbered_cons, ih, and_assoc, hlen]

theorem Delimited.append {fs gs : List StreamFrame} (hfs : ∀ f ∈ fs, f.isLast = false)
    (hgs : Delimited gs) : Delimited (fs ++ gs) := by
  obtain ⟨init, last, rfl, hlast, hinit⟩ := hgs
  exact ⟨fs ++ init, last, by rw [List.append_assoc], hlast, List.forall_mem_append.mpr ⟨hfs, hinit⟩⟩

/-! ## The chunks -/

/-- The chunks up to the last flush, when `pending` wait for one. -/
def flushed (pending : List Bytes) : List (Bytes × Bool) → List Bytes
  | [] => []
  | (chunk, late) :: rest =>
      if 50 ≤ (pending.flatten ++ chunk).length ∨ late = true ∨ 10 ∈ chunk then
        pending ++ chunk :: flushed [] rest
      else flushed (pending ++ [chunk]) rest

theorem flushed_prefix (pending : List Bytes) (chunks : List (Bytes × Bool)) :
    flushed pending chunks <+: pending ++ chunks.map Prod.fst := by
  induction chunks generalizing pending with
  | nil => exact List.nil_prefix
  | cons c rest ih =>
      obtain ⟨chunk, late⟩ := c
      rw [flushed]
      split_ifs
      · exact (List.prefix_append_right_inj _).mpr (List.cons_prefix_cons.mpr ⟨rfl, ih []⟩)
      · have := ih (pending ++ [chunk])
        rwa [List.append_assoc] at this

/-- **The frames of the chunks**: the last one is flagged and carries what waits, the others carry the
chunks that have been flushed. -/
theorem flushes_sound (chunks : List (Bytes × Bool)) (pending : List Bytes) (n : Int) :
    ∃ fs last, flushes pending.flatten n chunks = fs ++ [last] ∧ last.isLast = true ∧
      (∀ f ∈ fs, f.isLast = false) ∧ Numbered n (fs ++ [last]) ∧
      contents fs = (flushed pending chunks).flatten ∧
      contents fs ++ last.content = pending.flatten ++ (chunks.map Prod.fst).flatten := by
  induction chunks generalizing pending n with
  | nil =>
      refine ⟨[], ⟨pending.flatten, true, n⟩, rfl, rfl, fun _ hf => absurd hf List.not_mem_nil,
        numbered_cons.mpr ⟨rfl, numbered_nil _⟩, rfl, ?_⟩
      simp [contents]
  | cons c rest ih =>
      obtain ⟨chunk, late⟩ := c
      have hsplit : pending.flatten ++ ((chunk, late) :: rest |>.map Prod.fst).flatten =
          (pending.flatten ++ chunk) ++ (rest.map Prod.fst).flatten := by
        rw [List.map_cons, List.flatten_cons, List.append_assoc]
      rw [hsplit]
      by_cases hflush : 50 ≤ (pending.flatten ++ chunk).length ∨ late = true ∨ 10 ∈ chunk
      · rw [flushed, if_pos hflush, List.flatten_append, List.flatten_cons, ← List.append_assoc]
        by_cases hne : pending.flatten ++ chunk = []
        · -- an empty buffer is not sent
          obtain ⟨fs, last, heq, hrest⟩ := ih [] n
          rw [flushes, if_neg fun h => h.2 hne, hne]
          exact ⟨fs, last, heq, hrest⟩
        · obtain ⟨fs, last, heq, hlast, hinit, hnum, hsent, hall⟩ := ih [] (n + 1)
          refine ⟨⟨pending.flatten ++ chunk, false, n⟩ :: fs, last, ?_, hlast, ?_, ?_, ?_, ?_⟩
          · rw [flushes, if_pos ⟨hflush, hne⟩, List.cons_append, ← heq]
            rfl
          · exact List.forall_mem_cons.mpr ⟨rfl, hinit⟩
          · exact numbered_cons.mpr ⟨rfl, hnum⟩
          · rw [← hsent]
            rfl
          · rw [contents, List.flatMap_cons, List.append_assoc]
            exact congrArg _ hall
      · obtain ⟨fs, last, heq, hrest⟩ := ih (pending ++ [chunk]) n
        have hpend : (pending ++ [chunk]).flatten = pending.flatten ++ chunk := by simp
        rw [hpend] at heq hrest
        rw [flushed, if_neg hflush, flushes, if_neg fun h => hflush h.1]
        exact ⟨fs, last, heq, hrest⟩

/-! ## The fallback text -/

/-- The frames of the pieces of the fallback text, from `n` on. -/
def pieceFrames : List Bytes → Int → List StreamFrame
  | [], _ => []
  | piece :: rest, n => ⟨piece, rest.isEmpty, n⟩ :: pieceFrames rest (n + 1)

theorem numbered_pieceFrames (ps : List Bytes) (n : Int) : Numbered n (pieceFrames ps n) := by
  induction ps generalizing n with
  | nil => exact numbered_nil n
  | cons p ps ih => exact numbered_cons.mpr ⟨rfl, ih (n + 1)⟩

theorem contents_pieceFrames (ps : List Bytes) (n : Int) : contents (pieceFrames ps n) = ps.flatten := by
  induction ps generalizing n with
  | nil => rfl
  | cons p ps ih =>
      rw [List.flatten_cons, ← ih (n + 1)]
      rfl

theorem delimited_pieceFrames {ps : List Bytes} (h : ps ≠ []) (n : Int) : Delimited (pieceFrames ps n) := by
  induction ps generalizing n with
  | nil => exact absurd rfl h
  | cons p ps ih =>
      cases ps with
      | nil => exact ⟨[], ⟨p, true, n⟩, rfl, rfl, fun _ hf => absurd hf List.not_mem_nil⟩
      | cons p' ps =>
          have hfirst : ∀ f ∈ [(⟨p, false, n⟩ : StreamFrame)], f.isLast = false :=
            List.forall_mem_singleton.mpr rfl
          exact Delimited.append hfirst (ih (List.cons_ne_nil _ _) (n + 1))

/-- What the accumulators of `toChunks` hold comes first. -/
theorem toChunks_go (n : ℕ) (xs : Bytes) (acc : Array UInt8) (done : Array Bytes)
    (hacc : acc.toList ≠ []) (hdone : ∀ p ∈ done.toList, p ≠ []) :
    (List.toChunks.go n xs acc done).flatten = done.toList.flatten ++ acc.toList ++ xs ∧
      ∀ p ∈ List.toChunks.go n xs acc done, p ≠ [] := by
  induction xs generalizing acc done with
  | nil =>
      rw [List.toChunks.go, Array.toList_push]
      refine ⟨by simp, List.forall_mem_append.mpr ⟨hdone, List.forall_mem_singleton.mpr hacc⟩⟩
  | cons x xs ih =>
      rw [List.toChunks.go]
      split_ifs
      · obtain ⟨hflat, hne⟩ := ih ((Array.mkEmpty n).push x) (done.push acc.toList) (by simp) (by
          rw [Array.toList_push]
          exact List.forall_mem_append.mpr ⟨hdone, List.forall_mem_singleton.mpr hacc⟩)
        refine ⟨?_, hne⟩
        rw [hflat]
        simp
      · obtain ⟨hflat, hne⟩ := ih (acc.push x) done (by simp) hdone
        refine ⟨?_, hne⟩
        rw [hflat]
        simp

theorem pieces_sound (text : Bytes) : (pieces text).flatten = text ∧ ∀ p ∈ pieces text, p ≠ [] := by
  cases text with
  | nil => exact ⟨rfl, fun _ hp => absurd hp List.not_mem_nil⟩
  | cons x xs => exact toChunks_go 15 xs #[x] #[] (by simp) (by simp)

theorem bytes_ne_nil {s : String} (h : s ≠ "") : bytes s ≠ [] := by
  intro he
  have hsize : s.toUTF8.size = 0 := by
    rw [ByteArray.size, ← Array.length_toList]
    exact congrArg List.length he
  exact h (String.utf8ByteSize_eq_zero_iff.mp hsize)

theorem generateFallbackResponse_ne_nil (prompt localTime : Bytes) :
    generateFallbackResponse prompt localTime ≠ [] := by
  unfold generateFallbackResponse
  dsimp only
  split_ifs
  all_goals try simp only [List.append_assoc]
  all_goals first
    | exact bytes_ne_nil (by simp)
    | exact List.append_ne_nil_of_left_ne_nil (bytes_ne_nil (by simp)) _

section Stream

variable {P : Params} {req : StreamRequest} {h : List (Event Reply)}

theorem sendPieces_queued (ps : List Bytes) (hps : ∀ p ∈ ps, p ≠ []) (n : Int) :
    Sat Any h (sendPieces P req ps n) fun h' _ => h ⊆ h' ∧
      (StaysOpen h' → FramesQueued P req.uid h h' (pieceFrames ps n)) := by
  induction ps generalizing h n with
  | nil => exact ⟨fun _ he => he, fun _ => ⟨fun _ he => he, [], by simp, .nil⟩⟩
  | cons p ps ih =>
      obtain ⟨hp, hps⟩ := List.forall_mem_cons.mp hps
      simp only [sendPieces, call, sat_bind, sat_perform, true_and]
      intro fd
      have hload : FramesQueued P req.uid h (h ++ [⟨.loadFd req.origin.ctx, fd⟩]) [] := .skip rfl
      split_ifs with hfd
      · rw [sat_bind]
        refine (sendStreamChunk_queued ⟨p, ps.isEmpty, n⟩ (.inl hp)).mono
          (fun _ _ hg => hg) fun h₁ _ hs₁ => ?_
        refine (ih hps (n + 1)).mono (fun _ _ hg => hg) fun h' _ hs => ?_
        refine ⟨List.Subset.trans (List.Subset.trans hload.1 hs₁.1) hs.1, fun ho => ?_⟩
        exact (hload.trans (hs₁.2 (ho.of_subset hs.1))).trans (hs.2 ho)
      · -- the descriptor is gone: the connection has not stayed open
        refine (ih hps n).mono (fun _ _ hg => hg) fun h' _ hs =>
          ⟨List.Subset.trans hload.1 hs.1, fun ho => ?_⟩
        exact absurd (Int.not_le.mp hfd) (ho.fd_nonneg (x := req.origin.ctx) (hs.1 (by simp)))

/-- On an open connection no callback notices a lost one. -/
theorem onChunks_connLost (chunks : List (Bytes × Bool)) (b : StreamBuf) :
    Sat Any h (onChunks P req chunks b) fun h' b' => h ⊆ h' ∧ (StaysOpen h' → b'.connLost = b.connLost) := by
  induction chunks generalizing h b with
  | nil => exact ⟨fun _ he => he, fun _ => rfl⟩
  | cons c rest ih =>
      obtain ⟨chunk, late⟩ := c
      simp only [onChunks, call, sat_bind, sat_perform, true_and]
      intro fd
      have hload : h ⊆ h ++ [⟨.loadFd req.origin.ctx, fd⟩] := List.subset_append_left _ _
      split_ifs with hfd hflush
      · refine (ih _).mono (fun _ _ hg => hg) fun h' b' hs =>
          ⟨List.Subset.trans hload hs.1, fun ho => ?_⟩
        exact absurd hfd (ho.fd_nonneg (x := req.origin.ctx) (hs.1 (by simp)))
      · rw [sat_bind]
        refine (sendStreamChunk_queued ⟨b.buffer ++ chunk, false, b.streamSeq⟩ (.inl hflush.2)).mono
          (fun _ _ hg => hg) fun h₁ _ hs₁ => ?_
        exact (ih _).mono (fun _ _ hg => hg) fun h' b' hs =>
          ⟨List.Subset.trans (List.Subset.trans hload hs₁.1) hs.1, hs.2⟩
      · exact (ih _).mono (fun _ _ hg => hg) fun h' b' hs => ⟨List.Subset.trans hload hs.1, hs.2⟩

/-- **The frames of a failed stream on an open connection**: those of the chunks without the last one, then
those of the fallback text. -/
theorem processStreamRequest_fallback (script : Script) (hs : script.success = false) :
    Sat Any [] (processStreamRequest P req script) fun h _ => StaysOpen h →
      ∃ fs last, fs ++ [last] = flushes [] 0 script.chunks ∧ FramesQueued P req.uid [] h
        (fs ++ pieceFrames (pieces (generateFallbackResponse req.prompt script.localTime)) last.streamSeq) := by
  simp only [processStreamRequest, call, sat_bind, sat_perform, true_and, hs, Bool.false_eq_true, if_false]
  intro fd
  split_ifs with hfd
  · simp only [sat_perform, true_and]
    intro _ ho
    exact absurd hfd (ho.fd_nonneg (x := req.origin.ctx) (by simp))
  · simp only [sat_bind, sat_perform, true_and]
    intro k
    have hstart : FramesQueued P req.uid []
        ([] ++ [⟨.loadFd req.origin.ctx, fd⟩] ++ [⟨.nextClient, k⟩]) [] :=
      (FramesQueued.skip rfl).trans (.skip rfl)
    refine ((onChunks_queued script.chunks {}).and (onChunks_connLost script.chunks {})).mono
      (fun _ _ hg => hg) fun h₁ b₁ ⟨hs₁, hl₁⟩ => ?_
    rw [sat_pure]
    split_ifs with hlost
    · rw [sat_bind]
      refine (sendPieces_queued _ (pieces_sound _).2 b₁.streamSeq).mono (fun _ _ hg => hg)
        fun h₂ _ hs₂ => ?_
      simp only [sat_perform, true_and]
      intro r ho
      have ho₂ : StaysOpen h₂ := ho.of_subset (List.subset_append_left _ _)
      obtain ⟨fs, hq, hfs⟩ := hs₁.2 (ho₂.of_subset hs₂.1)
      have hall := ((hstart.trans hq).trans (hs₂.2 ho₂)).trans
        (FramesQueued.skip (e := ⟨.eraseStream req.origin.ctx, r⟩) rfl)
      rw [List.nil_append, List.append_nil] at hall
      exact ⟨fs, _, hfs, hall⟩
    · simp only [sat_perform, true_and]
      intro r ho
      exact absurd (hl₁.2 (ho.of_subset (List.subset_append_left _ _))) hlost

/-- What a stream on a connection that stays open has queued, when it has run to its end. -/
theorem stream_frames {P : Params} {req : StreamRequest} {script : Script} {h : List (Event Reply)}
    (hp : Path (processStreamRequest P req script) h (.ret ())) (ho : StaysOpen h) :
    ∃ fs, List.Forall₂ (Stamped P req.uid h) fs (chatBodies h) ∧ Numbered 0 fs ∧ Delimited fs ∧
      contents fs =
        if script.success then (script.chunks.map Prod.fst).flatten
        else (flushed [] script.chunks).flatten ++
          generateFallbackResponse req.prompt script.localTime := by
  obtain ⟨fs, last, heq, hlast, hinit, hnum, hsent, hall⟩ := flushes_sound script.chunks [] 0
  cases hs : script.success with
  | true =>
      obtain ⟨-, bodies, hbodies, hf⟩ := hp.sat (processStreamRequest_frames script hs) ho
      have heq' : flushes [] 0 script.chunks = fs ++ [last] := heq
      rw [heq'] at hf
      refine ⟨fs ++ [last], ?_, hnum, ⟨fs, last, rfl, hlast, hinit⟩, ?_⟩
      · rw [show chatBodies h = bodies from hbodies]
        exact hf
      · rw [contents_append, if_pos rfl]
        simpa [contents] using hall
  | false =>
      obtain ⟨fs', last', heq', -, bodies, hbodies, hf⟩ :=
        hp.sat (processStreamRequest_fallback script hs) ho
      obtain ⟨rfl, hl⟩ := List.append_inj' (heq'.trans heq) rfl
      obtain rfl := List.singleton_inj.mp hl
      obtain ⟨hnum', hseq⟩ := numbered_append.mp hnum
      have hpieces := pieces_sound (generateFallbackResponse req.prompt script.localTime)
      have hne : pieces (generateFallbackResponse req.prompt script.localTime) ≠ [] := by
        intro hnil
        rw [hnil] at hpieces
        exact generateFallbackResponse_ne_nil _ _ hpieces.1.symm
      refine ⟨_, by rw [show chatBodies h = bodies from hbodies]; exact hf, ?_,
        .append hinit (delimited_pieceFrames hne _), ?_⟩
      · rw [(numbered_cons.mp hseq).1]
        exact numbered_append.mpr ⟨hnum', numbered_pieceFrames _ _⟩
      · rw [contents_append, contents_pieceFrames, hpieces.1, hsent, if_neg Bool.false_ne_true]

/-- **The frames of a stream.** Whatever chunks the language model delivers, whatever the timing of the
flushes, and whether the transfer succeeds or fails: on a connection that stays open the frames are numbered
from 0 without a gap, the last one is flagged and no other, and together they carry all the chunks, or after a
failure the chunks that were flushed and the fallback text. -/
theorem stream_chunks (P : Params) (req : StreamRequest) (script : Script) (h : List (Event Reply))
    (hp : Path (processStreamRequest P req script) h (.ret ())) (ho : StaysOpen h) :
    ∃ fs, List.Forall₂ (Stamped P req.uid h) fs (chatBodies h) ∧ Numbered 0 fs ∧ Delimited fs ∧
      flushed [] script.chunks <+: script.chunks.map Prod.fst ∧
      contents fs =
        if script.success then (script.chunks.map Prod.fst).flatten
        else (flushed [] script.chunks).flatten ++
          generateFallbackResponse req.prompt script.localTime := by
  obtain ⟨fs, hf, hnum, hdel, htext⟩ := stream_frames hp ho
  exact ⟨fs, hf, hnum, hdel, flushed_prefix [] script.chunks, htext⟩

theorem answered_open (p : Prog Reply Unit) :
    Path p (answered Sample.openReplies p).1 (.ret ()) ∧ StaysOpen (answered Sample.openReplies p).1 := by
  refine ⟨path_answered Sample.openReplies p, ?_⟩
  rintro ⟨a, r⟩ he
  obtain rfl : r = Sample.openReplies a := answered_reply Sample.openReplies p he
  cases a <;> rfl

/-- The model fails after `hi`, which had not been flushed: user `a` gets the fallback text. -/
theorem stream_chunks_sample : ∃ h, Path (processStreamRequest Sample.streaming Sample.request
      { chunks := [([0x68, 0x69], false)], success := false }) h (.ret ()) ∧
    ∃ fs, List.Forall₂ (Stamped Sample.streaming 1000 h) fs (chatBodies h) ∧ Delimited fs ∧
      contents fs = generateFallbackResponse Sample.request.prompt [] := by
  let script : Script := { chunks := [([0x68, 0x69], false)], success := false }
  obtain ⟨hp, ho⟩ := answered_open (processStreamRequest Sample.streaming Sample.request script)
  obtain ⟨fs, hf, -, hd, -, hc⟩ := stream_chunks Sample.streaming Sample.request script _ hp ho
  have hnone : flushed [] script.chunks = [] := by decide
  rw [if_neg Bool.false_ne_true, hnone, List.flatten_nil, List.nil_append] at hc
  exact ⟨_, hp, fs, hf, hd, hc⟩

end Stream

end AuraChat
