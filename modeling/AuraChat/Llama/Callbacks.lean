import AuraChat.Llama.Lines

set_option autoImplicit false

/-!
# Callbacks and exceptions

`on_chunk` throws when the connection is lost, from inside the handler of `parse_stream_chunk`. The handler
takes the exception, so the transfer goes on and `on_chunk` is called for every event that carries text.

* `eventText`, `texts`: the texts of the events of a reply;
* `parseStreamChunk_eq`, **`deliver_texts`**: a reply is a call of `on_chunk` for each of them;
* `Watch`, `watchEnv`: the callbacks with a record of the descriptors that `on_chunk` has seen;
* **`callbacks_stop_iff`**: when no callback follows one that has thrown;
* **`streamChat_eq`**: `streamChat` is the transfer that `processStreamRequest` makes.
-/

namespace AuraChat

namespace Llama

open JsonGrammar (Value)
open Interleave

/-! ## Texts -/

/-- The text that an event carries. -/
def eventText (parseJson : Bytes → Option Value) (data : Bytes) : Option Bytes :=
  match (parseJson data).map chunkContent with
  | some (.ok content) => if content ≠ [] then some content else none
  | _ => none

/-- The texts of the events of a reply. -/
def texts (parseJson : Bytes → Option Value) (s : Bytes) : List Bytes :=
  (payloads s).filterMap (eventText parseJson)

section

variable {m : Type → Type} [Monad m] [LawfulMonad m] {parseJson : Bytes → Option Value}

/-- A call of `on_chunk` whose exception is ignored. -/
def ignoring (onChunk : Bytes → ExceptT Exn m Unit) (content : Bytes) : ExceptT Exn m Unit :=
  tryCatch (onChunk content) fun _ => pure ()

theorem tryCatch_throw (e : Exn) (h : Exn → ExceptT Exn m Unit) :
    tryCatch (throw e : ExceptT Exn m Unit) h = h e :=
  ExceptT.ext (pure_bind (m := m) (Except.error e) _)

theorem tryCatch_pure (h : Exn → ExceptT Exn m Unit) :
    tryCatch (pure () : ExceptT Exn m Unit) h = pure () :=
  ExceptT.ext (pure_bind (m := m) (Except.ok ()) _)

/-- An event calls `on_chunk` with its text, if there is one. -/
theorem parseStreamChunk_eq (onChunk : Bytes → ExceptT Exn m Unit) (data : Bytes) :
    parseStreamChunk parseJson onChunk data = match eventText parseJson data with
      | none => pure ()
      | some content => ignoring onChunk content := by
  rw [parseStreamChunk, eventText]
  cases parseJson data with
  | none => exact tryCatch_throw _ _
  | some j =>
      dsimp only [Option.map_some]
      cases chunkContent j with
      | error e => exact tryCatch_throw _ _
      | ok content =>
          dsimp only
          by_cases h : content ≠ []
          · rw [if_pos h, if_pos h]
            rfl
          · rw [if_neg h, if_neg h]
            exact tryCatch_pure _

theorem forM_parseStreamChunk (onChunk : Bytes → ExceptT Exn m Unit) (datas : List Bytes) :
    forM datas (parseStreamChunk parseJson onChunk) =
      forM (datas.filterMap (eventText parseJson)) (ignoring onChunk) := by
  induction datas with
  | nil => rfl
  | cons d ds ih =>
      rw [List.forM_cons, ih, parseStreamChunk_eq]
      cases h : eventText parseJson d with
      | none => rw [List.filterMap_cons_none h, pure_bind]
      | some content => rw [List.filterMap_cons_some h, List.forM_cons]

/-- **A reply calls `on_chunk` with the texts of its events, and ignores its exceptions.** -/
theorem deliver_texts (onChunk : Bytes → ExceptT Exn m Unit) (pieces : List Bytes) :
    deliver (parseStreamChunk parseJson onChunk) pieces {} =
      forM (texts parseJson pieces.flatten) (ignoring onChunk) >>= fun _ =>
        pure (⟨afterLines pieces.flatten⟩, true) := by
  rw [deliver_eq, forM_parseStreamChunk]
  rfl

end

/-! ## Lost connections -/

/-- What the callbacks leave: the descriptors that `on_chunk` has seen, one at each call, and the frames. -/
structure Watch where
  observed : List Int := []
  sent : List (Bytes × Bool × Int) := []

/-- The `i`-th call of `on_chunk` sees the descriptor `fd i`, and `late i` of the clock. -/
def watchEnv (fd : ℕ → Int) (late : ℕ → Bool) : Env (StateM Watch) where
  loadFd := modifyGet fun w =>
    (fd w.observed.length, { w with observed := w.observed ++ [fd w.observed.length] })
  late := fun w => (late w.observed.length, w)
  send content isLast streamSeq := modify fun w => { w with sent := w.sent ++ [(content, isLast, streamSeq)] }

/-- What `process_stream_request` has seen when a reply has been delivered, and the exception that reaches
it. -/
def watchReply (parseJson : Bytes → Option Value) (fd : ℕ → Int) (late : ℕ → Bool) (pieces : List Bytes) :
    Except Exn (StreamContext × Bool) × Watch :=
  let r := ((deliver (parseStreamChunk parseJson (onChunk (watchEnv fd late))) pieces {}).run.run {}).run {}
  (r.1.1, r.2)

variable {fd : ℕ → Int} {late : ℕ → Bool}

theorem ignoring_run {m : Type → Type} [Monad m] (f : Bytes → ExceptT Exn (StateT StreamBuf m) Unit)
    (content : Bytes) (b : StreamBuf) :
    (ignoring f content).run.run b = (f content).run.run b >>= fun r => pure (Except.ok (), r.2) := by
  change ((f content).run.run b >>= fun r => _) = _
  refine bind_congr fun r => ?_
  obtain ⟨e, b'⟩ := r
  cases e <;> rfl

/-- The record after a call of `on_chunk` has looked at the descriptor. -/
def Watch.see (w : Watch) (fd : ℕ → Int) : Watch :=
  { w with observed := w.observed ++ [fd w.observed.length] }

/-- A call of `on_chunk` sees one descriptor more, and throws if it is negative. -/
theorem onChunk_watch (fd : ℕ → Int) (late : ℕ → Bool) (content : Bytes) (b : StreamBuf) (w : Watch) :
    ∃ e b' w', ((onChunk (watchEnv fd late) content).run.run b).run w = ((e, b'), w') ∧
      w'.observed = w.observed ++ [fd w.observed.length] ∧
      (e = .error .runtime ↔ fd w.observed.length < 0) := by
  by_cases hfd : fd w.observed.length < 0
  · refine ⟨.error .runtime, { b with buffer := b.buffer ++ content, connLost := true }, w.see fd, ?_, rfl,
      iff_of_true rfl hfd⟩
    change (ite (fd w.observed.length < 0) _ _ : StateM Watch _) (w.see fd) = _
    rw [if_pos hfd]
    rfl
  · by_cases hflush : (50 ≤ (b.buffer ++ content).length ∨ late w.observed.length = true ∨ 10 ∈ content) ∧
        b.buffer ++ content ≠ []
    · refine ⟨.ok (), { b with buffer := [], streamSeq := b.streamSeq + 1 },
        { w.see fd with sent := w.sent ++ [(b.buffer ++ content, false, b.streamSeq)] }, ?_, rfl,
        iff_of_false (fun h => by cases h) hfd⟩
      change (ite (fd w.observed.length < 0) _ (ite _ _ _) : StateM Watch _) (w.see fd) = _
      rw [if_neg hfd]
      exact (congrFun (if_pos hflush) (w.see fd)).trans rfl
    · refine ⟨.ok (), { b with buffer := b.buffer ++ content }, w.see fd, ?_, rfl,
        iff_of_false (fun h => by cases h) hfd⟩
      change (ite (fd w.observed.length < 0) _ (ite _ _ _) : StateM Watch _) (w.see fd) = _
      rw [if_neg hfd]
      exact (congrFun (if_neg hflush) (w.see fd)).trans rfl

theorem watch_bind {α β : Type} {x : ExceptT Exn (StateT StreamBuf (StateM Watch)) α}
    {f : α → ExceptT Exn (StateT StreamBuf (StateM Watch)) β} {a : α} {b b' : StreamBuf} {w w' : Watch}
    (h : (x.run.run b).run w = ((.ok a, b'), w')) :
    ((x >>= f).run.run b).run w = ((f a).run.run b').run w' := by
  rw [ExceptT.run_bind, StateT.run_bind, StateT.run_bind, h]
  rfl

/-- The calls of `on_chunk` see the descriptors in turn, and none of their exceptions gets out. -/
theorem forM_watch (fd : ℕ → Int) (late : ℕ → Bool) (contents : List Bytes) (b : StreamBuf) (w : Watch) :
    ∃ b' w', ((forM contents (ignoring (onChunk (watchEnv fd late)))).run.run b).run w = ((.ok (), b'), w') ∧
      w'.observed = w.observed ++ (List.range contents.length).map fun i => fd (w.observed.length + i) := by
  induction contents generalizing b w with
  | nil => exact ⟨b, w, rfl, by simp⟩
  | cons c cs ih =>
      obtain ⟨e, b₁, w₁, hone, hobs, -⟩ := onChunk_watch fd late c b w
      obtain ⟨b', w', hrest, hobs'⟩ := ih b₁ w₁
      have hign : ((ignoring (onChunk (watchEnv fd late)) c).run.run b).run w = ((.ok (), b₁), w₁) := by
        rw [ignoring_run, StateT.run_bind, hone]
        rfl
      refine ⟨b', w', ?_, ?_⟩
      · rw [List.forM_cons, watch_bind hign]
        exact hrest
      · have hshift : ∀ i, (w.observed ++ [fd w.observed.length]).length + i = w.observed.length + (i + 1) := by
          intro i
          rw [List.length_append, List.length_singleton]
          omega
        rw [hobs', hobs, List.length_cons, List.range_succ_eq_map, List.map_cons, List.map_map,
          List.append_assoc]
        simp only [hshift]
        rfl

/-- What `process_stream_request` sees of a reply. -/
theorem watchReply_eq (parseJson : Bytes → Option Value) (pieces : List Bytes) :
    (watchReply parseJson fd late pieces).1 = .ok (⟨afterLines pieces.flatten⟩, true) ∧
      (watchReply parseJson fd late pieces).2.observed =
        (List.range (texts parseJson pieces.flatten).length).map fd := by
  obtain ⟨b', w', hrun, hobs⟩ := forM_watch fd late (texts parseJson pieces.flatten) {} {}
  have hall :
      ((deliver (parseStreamChunk parseJson (onChunk (watchEnv fd late))) pieces {}).run.run {}).run {} =
      ((.ok (⟨afterLines pieces.flatten⟩, true), b'), w') := by
    rw [deliver_texts, watch_bind hrun]
    rfl
  refine ⟨?_, ?_⟩
  · rw [watchReply, hall]
  · rw [watchReply, hall, hobs]
    simp

/-- A lost connection stops the stream: no call of `on_chunk` follows one that has thrown. -/
def Cancelled (observed : List Int) : Prop := ∀ pre fd post, observed = pre ++ fd :: post → fd < 0 → post = []

theorem cancelled_range (n : ℕ) : Cancelled ((List.range n).map fd) ↔ ∀ i, i + 1 < n → 0 ≤ fd i := by
  constructor
  · intro h i hi
    by_contra hneg
    have hlen : (List.range n).length = n := List.length_range
    have hsplit : (List.range n).map fd =
        ((List.range n).map fd).take i ++ fd i :: ((List.range n).map fd).drop (i + 1) := by
      conv_lhs => rw [← List.take_append_drop i ((List.range n).map fd)]
      rw [List.drop_eq_getElem_cons (by simp; omega)]
      simp
    have hnil := h _ _ _ hsplit (Int.not_le.mp hneg)
    have := congrArg List.length hnil
    simp at this
    omega
  · rintro h pre x post heq hneg
    by_contra hpost
    have hlen := congrArg List.length heq
    have hpos := List.length_pos_iff.mpr hpost
    simp only [List.length_map, List.length_range, List.length_append, List.length_cons] at hlen
    have hx : fd pre.length = x := by
      have := congrArg (fun l => l[pre.length]?) heq
      simpa [show pre.length < n by omega] using this
    have := h pre.length (by omega)
    omega

/-- **When a lost connection stops the stream**: exactly if every call of `on_chunk` but the one for the last
text of the reply sees an open connection. The exception never gets out of `parse_stream_chunk`. -/
theorem callbacks_stop_iff (parseJson : Bytes → Option Value) (fd : ℕ → Int) (late : ℕ → Bool)
    (pieces : List Bytes) :
    Cancelled (watchReply parseJson fd late pieces).2.observed ↔
      ∀ i, i + 1 < (texts parseJson pieces.flatten).length → 0 ≤ fd i := by
  rw [(watchReply_eq parseJson pieces).2, cancelled_range]

/-- The data of an event with the text `a`. -/
def sampleData : Bytes := bytes "\x7b\"choices\":[\x7b\"delta\":\x7b\"content\":\"a\"\x7d\x7d]\x7d"

/-- A parser of this data. -/
def sampleParse (data : Bytes) : Option Value :=
  if data = sampleData then
    some (.obj [(bytes "choices", .arr [.obj [(bytes "delta", .obj [(bytes "content", .str (bytes "a"))])]])])
  else none

/-- The connection is lost when the first of two texts arrives, and `on_chunk` is called for the second. -/
theorem callbacks_go_on : ¬ ∀ (parseJson : Bytes → Option Value) (fd : ℕ → Int) (late : ℕ → Bool)
    (pieces : List Bytes), Cancelled (watchReply parseJson fd late pieces).2.observed := by
  intro h
  let reply : List Bytes := [bytes "data: " ++ sampleData ++ [0x0A], bytes "data: " ++ sampleData ++ [0x0A]]
  have htwo : (texts sampleParse reply.flatten).length = 2 := by decide
  have hstop := h sampleParse (fun _ => -1) (fun _ => false) reply
  rw [(watchReply_eq sampleParse reply).2, htwo] at hstop
  exact absurd (hstop [] (-1) [-1] rfl (by decide)) (by decide)

/-! ## The transfer of `processStreamRequest` -/

section Transfer

variable {P : Params} {req : StreamRequest}

/-- The callbacks as programs of atomic calls, with the results of the clock still to come. -/
def progEnv (P : Params) (req : StreamRequest) : Env (StateT (List Bool) (Prog Reply)) where
  loadFd lates := call (.loadFd req.origin.ctx) >>= fun fd => pure (fd, lates)
  late lates := pure (lates.headD false, lates.tail)
  send content isLast streamSeq lates :=
    sendStreamChunk P req content isLast streamSeq >>= fun _ => pure ((), lates)

theorem ignoring_prog (content : Bytes) (b : StreamBuf) (late : Bool) (lates : List Bool) :
    ((ignoring (onChunk (progEnv P req)) content).run.run b).run (late :: lates) = (do
      if (← call (.loadFd req.origin.ctx)) < 0 then
        pure ((.ok (), { b with buffer := b.buffer ++ content, connLost := true }), lates)
      else if (50 ≤ (b.buffer ++ content).length ∨ late = true ∨ 10 ∈ content) ∧ b.buffer ++ content ≠ [] then
        sendStreamChunk P req (b.buffer ++ content) false b.streamSeq
        pure ((.ok (), { b with buffer := [], streamSeq := b.streamSeq + 1 }), lates)
      else pure ((.ok (), { b with buffer := b.buffer ++ content }), lates)) := by
  rw [ignoring_run, StateT.run_bind]
  refine congrArg (Prog.call _) (funext fun fd => ?_)
  by_cases hfd : fd < 0
  · change (((ite (fd < 0) _ _ : StateT (List Bool) (Prog Reply) _) lates) >>= _) = ite (fd < 0) _ _
    rw [if_pos hfd, if_pos hfd]
    rfl
  · change (((ite (fd < 0) _ (ite _ _ _) : StateT (List Bool) (Prog Reply) _) lates) >>= _) =
      ite (fd < 0) _ (ite _ _ _)
    rw [if_neg hfd, if_neg hfd]
    by_cases hflush : (50 ≤ (b.buffer ++ content).length ∨ late = true ∨ 10 ∈ content) ∧
        b.buffer ++ content ≠ []
    · rw [if_pos hflush]
      refine (congrArg (· >>= _) (congrFun (if_pos hflush) lates)).trans ?_
      exact (Prog.bind_bind _ _ _).trans (Prog.bind_bind _ _ _)
    · rw [if_neg hflush]
      refine (congrArg (· >>= _) (congrFun (if_neg hflush) lates)).trans ?_
      rfl

theorem forM_onChunks (contents : List Bytes) (b : StreamBuf) (lates : List Bool)
    (hlen : lates.length = contents.length) :
    ((forM contents (ignoring (onChunk (progEnv P req)))).run.run b).run lates =
      onChunks P req (contents.zip lates) b >>= fun b' => pure ((.ok (), b'), []) := by
  induction contents generalizing b lates with
  | nil =>
      obtain rfl := List.eq_nil_of_length_eq_zero hlen
      rfl
  | cons c cs ih =>
      cases lates with
      | nil => cases hlen
      | cons late lates =>
          have hrest := fun b => ih b lates (Nat.succ.inj hlen)
          rw [List.forM_cons, ExceptT.run_bind, StateT.run_bind, StateT.run_bind, ignoring_prog,
            List.zip_cons_cons, onChunks]
          simp only [bind_assoc]
          refine bind_congr fun fd => ?_
          by_cases hfd : fd < 0
          · rw [if_pos hfd, if_pos hfd]
            exact hrest _
          · rw [if_neg hfd, if_neg hfd]
            by_cases hflush : (50 ≤ (b.buffer ++ c).length ∨ late = true ∨ 10 ∈ c) ∧ b.buffer ++ c ≠ []
            · rw [if_pos hflush, if_pos hflush]
              simp only [bind_assoc]
              exact bind_congr fun _ => hrest _
            · rw [if_neg hflush, if_neg hflush]
              exact hrest _

theorem onComplete_prog (b : StreamBuf) (lates : List Bool) :
    ((onComplete (progEnv P req)).run.run b).run lates =
      AuraChat.onComplete P req b >>= fun b' => pure ((.ok (), b'), lates) := by
  refine congrArg (Prog.call _) (funext fun fd => ?_)
  by_cases hfd : fd < 0
  · change (ite (fd < 0) _ _ : StateT (List Bool) (Prog Reply) _) lates = (ite (fd < 0) _ _ >>= _)
    rw [if_pos hfd, if_pos hfd]
    rfl
  · change (ite (fd < 0) _ _ : StateT (List Bool) (Prog Reply) _) lates = (ite (fd < 0) _ _ >>= _)
    rw [if_neg hfd, if_neg hfd]
    refine (Prog.bind_bind _ _ _).trans ?_
    rw [bind_assoc]
    rfl

/-- **The transfer of `processStreamRequest` is the one of the client**, whose chunks are the texts of the
events: what is done with the exception of `on_chunk` is the same. -/
theorem streamChat_eq (parseJson : Bytes → Option Value) (pieces : List Bytes) (lates : List Bool)
    (finished : Bool) (hlen : lates.length = (texts parseJson pieces.flatten).length) :
    ((streamChat parseJson (progEnv P req) pieces finished).run.run {}).run lates = (do
      let b ← onChunks P req ((texts parseJson pieces.flatten).zip lates) {}
      if finished then
        let b ← AuraChat.onComplete P req b
        pure ((.ok true, b), [])
      else pure ((.ok false, b), [])) := by
  rw [streamChat, deliver_texts, bind_assoc, ExceptT.run_bind, StateT.run_bind, StateT.run_bind,
    forM_onChunks _ _ _ hlen, bind_assoc]
  refine bind_congr fun b => ?_
  cases finished with
  | false => rfl
  | true =>
      change ((onComplete (progEnv P req) >>= fun _ => pure true).run.run b).run [] = _
      rw [ExceptT.run_bind, StateT.run_bind, StateT.run_bind, onComplete_prog, bind_assoc]
      rfl

end Transfer

end Llama

end AuraChat
