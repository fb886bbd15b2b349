import AuraChat.Model.Client
import AuraChat.Model.Sample
import AuraChat.Model.Stream
import Mathlib.Data.List.Forall2

set_option autoImplicit false

/-!
# AI text from the server to the screen

The frames of a stream on an open connection are a function of the chunks and of the timing of the
flushes; the client prints what is in them, except for the last one.

* `StreamFrame`, `flushes`: the frames of a stream, before they are stamped with the time;
* **`processStreamRequest_frames`**: a successful stream on an open connection sends these frames;
* `streamText_frames`: what the client prints of a list of frames;
* **`stream_printed`**: the text arrives whole if and only if nothing waits for a flush when the stream
  ends. The text of the last frame is lost: `text_lost`.
-/

namespace AuraChat

open Interleave Interleave.Prog

/-! ## The frames of a stream -/

/-- What `send_stream_chunk` is called with. -/
structure StreamFrame where
  content : Bytes
  isLast : Bool
  streamSeq : Int
  deriving DecidableEq, Repr

/-- The message of a frame sent at the time `now`. -/
def StreamFrame.message (f : StreamFrame) (uid now : Int) : ChatMessage :=
  chunkMessage uid f.content f.isLast f.streamSeq now

/-- The frames of a stream on an open connection, from `buffer` and `stream_seq` on. -/
def flushes (buffer : Bytes) (streamSeq : Int) : List (Bytes × Bool) → List StreamFrame
  | [] => [⟨buffer, true, streamSeq⟩]
  | (chunk, late) :: rest =>
      if (50 ≤ (buffer ++ chunk).length ∨ late = true ∨ 10 ∈ chunk) ∧ buffer ++ chunk ≠ [] then
        ⟨buffer ++ chunk, false, streamSeq⟩ :: flushes [] (streamSeq + 1) rest
      else flushes (buffer ++ chunk) streamSeq rest

/-- The number of bytes that wait for a flush when the stream ends, from `n` on: a flush takes them when
there are at least 50, when 80 ms have passed, or with a line break. -/
def waiting (n : ℕ) : List (Bytes × Bool) → ℕ
  | [] => n
  | (chunk, late) :: rest =>
      if 50 ≤ n + chunk.length ∨ late = true ∨ 10 ∈ chunk then waiting 0 rest
      else waiting (n + chunk.length) rest

/-- The text of the frames that are not the last one. -/
def shownText (fs : List StreamFrame) : Bytes :=
  fs.flatMap fun f => if f.isLast then [] else f.content

/-- **The frames of a stream carry its text**: what the last one carries waits for a flush. -/
theorem flushes_text (chunks : List (Bytes × Bool)) (buffer : Bytes) (streamSeq : Int) :
    ∃ rest : Bytes, rest.length = waiting buffer.length chunks ∧
      shownText (flushes buffer streamSeq chunks) ++ rest =
        buffer ++ (chunks.map Prod.fst).flatten := by
  induction chunks generalizing buffer streamSeq with
  | nil => exact ⟨buffer, rfl, by simp [flushes, shownText]⟩
  | cons c chunks ih =>
      obtain ⟨chunk, late⟩ := c
      by_cases hflush : 50 ≤ buffer.length + chunk.length ∨ late = true ∨ 10 ∈ chunk
      · by_cases hne : buffer ++ chunk = []
        · -- an empty buffer is not sent, and nothing waits in it
          obtain ⟨rest, hlen, htext⟩ := ih [] streamSeq
          obtain ⟨rfl, rfl⟩ := List.append_eq_nil_iff.mp hne
          refine ⟨rest, ?_, ?_⟩
          · rw [waiting, if_pos hflush]
            exact hlen
          · rw [flushes, if_neg (by simp)]
            simpa using htext
        · obtain ⟨rest, hlen, htext⟩ := ih [] (streamSeq + 1)
          refine ⟨rest, ?_, ?_⟩
          · rw [waiting, if_pos hflush]
            exact hlen
          · rw [flushes, if_pos ⟨by rwa [List.length_append], hne⟩]
            simp only [shownText, List.flatMap_cons, Bool.false_eq_true, if_false, List.append_assoc,
              List.map_cons, List.flatten_cons] at htext ⊢
            rw [htext, List.nil_append]
      · obtain ⟨rest, hlen, htext⟩ := ih (buffer ++ chunk) streamSeq
        refine ⟨rest, ?_, ?_⟩
        · rw [waiting, if_neg hflush, ← List.length_append]
          exact hlen
        · rw [flushes, if_neg (by rw [List.length_append]; exact fun h => hflush h.1), htext]
          simp

/-- The text before the last frame is the whole text exactly when nothing waits. -/
theorem flushes_whole (chunks : List (Bytes × Bool)) :
    shownText (flushes [] 0 chunks) = (chunks.map Prod.fst).flatten ↔ waiting 0 chunks = 0 := by
  obtain ⟨rest, hlen, htext⟩ := flushes_text chunks [] 0
  rw [List.nil_append] at htext
  rw [List.length_nil] at hlen
  rw [← htext, ← hlen, List.length_eq_zero_iff]
  constructor
  · intro h
    exact List.self_eq_append_right.mp h
  · rintro rfl
    rw [List.append_nil]

/-! ## What the server sends -/

/-- The bodies of the `CHAT` frames that a thread has queued. -/
def chatBodies (h : List (Event Reply)) : List Bytes :=
  h.filterMap fun e => match e.1 with
    | .queueSendPacket _ .chat _ body _ => some body
    | _ => none

/-- A call does not find the connection closed. -/
def stillOpen : Event Reply → Bool
  | ⟨.loadFd _, fd⟩ => 0 ≤ fd
  | ⟨.ownerWorker _, w⟩ => w.isSome
  | _ => true

/-- The connection stays open: its descriptor and its worker are there whenever a thread looks. -/
def StaysOpen (h : List (Event Reply)) : Prop := ∀ e ∈ h, stillOpen e = true

/-- The body of a frame, stamped with a time that the thread has read. -/
def Stamped (P : Params) (uid : Int) (h : List (Event Reply)) (f : StreamFrame) (body : Bytes) :
    Prop :=
  ∃ now : Int, ⟨.systemClock, now⟩ ∈ h ∧ body = P.codec.serializeChatMessage (f.message uid now)

/-- Between the histories `h` and `h'` the frames `fs` have been queued. -/
def FramesQueued (P : Params) (uid : Int) (h h' : List (Event Reply)) (fs : List StreamFrame) :
    Prop :=
  h ⊆ h' ∧ ∃ bodies, chatBodies h' = chatBodies h ++ bodies ∧
    List.Forall₂ (Stamped P uid h') fs bodies

instance (h : List (Event Reply)) : Decidable (StaysOpen h) := by unfold StaysOpen; infer_instance

theorem StaysOpen.fd_nonneg {h : List (Event Reply)} (ho : StaysOpen h) {x : ℕ} {fd : Int}
    (he : ⟨.loadFd x, fd⟩ ∈ h) : ¬ fd < 0 :=
  Int.not_lt.mpr (of_decide_eq_true (ho _ he))

theorem StaysOpen.of_subset {h h' : List (Event Reply)} (ho : StaysOpen h') (hs : h ⊆ h') :
    StaysOpen h := fun e he => ho e (hs he)

@[simp] theorem chatBodies_append (h h' : List (Event Reply)) :
    chatBodies (h ++ h') = chatBodies h ++ chatBodies h' := List.filterMap_append

theorem Stamped.mono {P : Params} {uid : Int} {h h' : List (Event Reply)} {f : StreamFrame}
    {body : Bytes} (hs : Stamped P uid h f body) (hsub : h ⊆ h') : Stamped P uid h' f body := by
  obtain ⟨now, hnow, rfl⟩ := hs
  exact ⟨now, hsub hnow, rfl⟩

theorem FramesQueued.trans {P : Params} {uid : Int} {h₁ h₂ h₃ : List (Event Reply)}
    {fs fs' : List StreamFrame} (hq : FramesQueued P uid h₁ h₂ fs)
    (hq' : FramesQueued P uid h₂ h₃ fs') :
    FramesQueued P uid h₁ h₃ (fs ++ fs') := by
  obtain ⟨hs, bs, hb, hf⟩ := hq
  obtain ⟨hs', bs', hb', hf'⟩ := hq'
  refine ⟨List.Subset.trans hs hs', bs ++ bs', ?_, ?_⟩
  · rw [hb', hb, List.append_assoc]
  · exact List.rel_append (hf.imp fun _ _ h => h.mono hs') hf'

theorem FramesQueued.skip {P : Params} {uid : Int} {h : List (Event Reply)} {e : Event Reply}
    (he : chatBodies [e] = []) : FramesQueued P uid h (h ++ [e]) [] :=
  ⟨List.subset_append_left _ _, [], by rw [chatBodies_append, he], .nil⟩

section Stream

variable {P : Params} {req : StreamRequest} {h : List (Event Reply)}

/-- The guard that lets every call through: only the results are of interest here. -/
abbrev Any : List (Event Reply) → Call → Prop := fun _ _ => True

/-- On an open connection `send_stream_chunk` queues its frame. -/
theorem sendStreamChunk_queued (f : StreamFrame) (hf : f.content ≠ [] ∨ f.isLast = true) :
    Sat Any h (sendStreamChunk P req f.content f.isLast f.streamSeq)
      fun h' _ => h ⊆ h' ∧ (StaysOpen h' → FramesQueued P req.uid h h' [f]) := by
  have hskip : ¬ (f.content = [] ∧ f.isLast = false) := by
    rintro ⟨h1, h2⟩
    rcases hf with hf | hf
    · exact hf h1
    · rw [h2] at hf
      cases hf
  simp only [sendStreamChunk, call, sat_bind, sat_perform, true_and]
  intro w
  cases w with
  | none =>
      rw [if_pos Option.isNone_none]
      refine ⟨List.subset_append_left _ _, fun ho => ?_⟩
      exact absurd (ho ⟨.ownerWorker req.origin.ctx, none⟩ (by simp)) Bool.false_ne_true
  | some w =>
      rw [if_neg (by simp), if_neg hskip]
      simp only [sat_bind, sat_perform, true_and]
      refine fun now _ => ⟨by simp, fun _ => ⟨by simp, _, ?_, .cons ⟨now, ?_, rfl⟩ .nil⟩⟩
      · simp only [chatBodies_append, List.append_assoc]
        rfl
      · simp

/-- **The callbacks of a stream send the frames of `flushes`**, the last one apart. -/
theorem onChunks_queued (chunks : List (Bytes × Bool)) (b : StreamBuf) :
    Sat Any h (onChunks P req chunks b) fun h' b' => h ⊆ h' ∧ (StaysOpen h' →
      ∃ fs, FramesQueued P req.uid h h' fs ∧
        fs ++ [⟨b'.buffer, true, b'.streamSeq⟩] = flushes b.buffer b.streamSeq chunks) := by
  induction chunks generalizing h b with
  | nil => exact ⟨fun _ he => he, fun _ => ⟨[], ⟨fun _ he => he, [], by simp, .nil⟩, rfl⟩⟩
  | cons c rest ih =>
      obtain ⟨chunk, late⟩ := c
      simp only [onChunks, call, sat_bind, sat_perform, true_and]
      intro fd
      have hload : FramesQueued P req.uid h (h ++ [⟨.loadFd req.origin.ctx, fd⟩]) [] := .skip rfl
      split_ifs with hfd hflush
      · -- the descriptor is gone: the connection has not stayed open
        refine (ih _).mono (fun _ _ hg => hg) fun h' b' hs =>
          ⟨List.Subset.trans hload.1 hs.1, fun ho => ?_⟩
        exact absurd hfd (ho.fd_nonneg (x := req.origin.ctx) (hs.1 (by simp)))
      · rw [sat_bind]
        refine (sendStreamChunk_queued ⟨b.buffer ++ chunk, false, b.streamSeq⟩ (.inl hflush.2)).mono
          (fun _ _ hg => hg) fun h₁ _ hs₁ => ?_
        refine (ih _).mono (fun _ _ hg => hg) fun h' b' hs => ?_
        refine ⟨List.Subset.trans (List.Subset.trans hload.1 hs₁.1) hs.1, fun ho => ?_⟩
        obtain ⟨fs, hq, hfs⟩ := hs.2 ho
        refine ⟨_, (hload.trans (hs₁.2 (ho.of_subset hs.1))).trans hq, ?_⟩
        rw [flushes, if_pos hflush, ← hfs]
        rfl
      · refine (ih _).mono (fun _ _ hg => hg) fun h' b' hs =>
          ⟨List.Subset.trans hload.1 hs.1, fun ho => ?_⟩
        obtain ⟨fs, hq, hfs⟩ := hs.2 ho
        refine ⟨_, hload.trans hq, ?_⟩
        rw [flushes, if_neg hflush, ← hfs]
        rfl

theorem onComplete_queued (b : StreamBuf) :
    Sat Any h (onComplete P req b) fun h' _ => h ⊆ h' ∧
      (StaysOpen h' → FramesQueued P req.uid h h' [⟨b.buffer, true, b.streamSeq⟩]) := by
  simp only [onComplete, call, sat_bind, sat_perform, true_and]
  intro fd
  have hload : FramesQueued P req.uid h (h ++ [⟨.loadFd req.origin.ctx, fd⟩]) [] := .skip rfl
  split_ifs with hfd
  · refine ⟨hload.1, fun ho => ?_⟩
    exact absurd hfd (ho.fd_nonneg (x := req.origin.ctx) (by simp))
  · rw [sat_bind]
    refine (sendStreamChunk_queued ⟨b.buffer, true, b.streamSeq⟩ (.inr rfl)).mono
      (fun _ _ hg => hg) fun h' _ hs => ⟨List.Subset.trans hload.1 hs.1, fun ho => ?_⟩
    exact hload.trans (hs.2 ho)

/-- **A successful stream on an open connection sends the frames of `flushes`.** -/
theorem processStreamRequest_frames (script : Script) (hs : script.success = true) :
    Sat Any [] (processStreamRequest P req script) fun h _ => StaysOpen h →
      FramesQueued P req.uid [] h (flushes [] 0 script.chunks) := by
  simp only [processStreamRequest, call, sat_bind, sat_perform, true_and, hs, if_true,
    Bool.true_eq_false, false_and, if_false]
  intro fd
  split_ifs with hfd
  · simp only [sat_perform, true_and]
    intro _ ho
    exact absurd hfd (ho.fd_nonneg (x := req.origin.ctx) (by simp))
  · simp only [sat_bind, sat_perform, true_and]
    intro k
    have hstart : FramesQueued P req.uid []
        ([] ++ [⟨.loadFd req.origin.ctx, fd⟩] ++ [⟨.nextClient, k⟩]) [] :=
      (FramesQueued.skip rfl).trans (.skip rfl)
    refine (onChunks_queued script.chunks {}).mono (fun _ _ hg => hg) fun h₁ b₁ hs₁ => ?_
    refine (onComplete_queued b₁).mono (fun _ _ hg => hg) fun h₂ _ hs₂ r ho => ?_
    have ho₂ : StaysOpen h₂ := ho.of_subset (List.subset_append_left _ _)
    obtain ⟨fs, hq, hfs⟩ := hs₁.2 (ho₂.of_subset hs₂.1)
    have hall := ((hstart.trans hq).trans (hs₂.2 ho₂)).trans
      (FramesQueued.skip (e := ⟨.eraseStream req.origin.ctx, r⟩) rfl)
    rw [List.nil_append, List.append_nil, hfs] at hall
    exact hall

end Stream

/-! ## What the client prints -/

/-- A frame of the AI user is printed unless it is the last one. -/
theorem streamText_handleChatMessage {m : ChatMessage} (hm : m.fromUid = 9999) (d : Display) :
    streamText (handleChatMessage m d).shown =
      streamText d.shown ++ if m.isLastChunk then [] else m.content := by
  unfold handleChatMessage
  rw [if_neg (not_not.mpr hm)]
  split_ifs with hlast hempty hin
  · rw [List.append_nil]
  · rw [hempty, List.append_nil]
  · simp [streamText]
  · simp [streamText]

theorem streamText_frames {P : Params} {uid : Int} {h : List (Event Reply)} {fs : List StreamFrame}
    {bodies : List Bytes} (hf : List.Forall₂ (Stamped P uid h) fs bodies)
    (hcodec : ∀ f ∈ fs, ∀ now : Int, ⟨.systemClock, now⟩ ∈ h →
      P.codec.parseChatMessage (P.codec.serializeChatMessage (f.message uid now)) =
        some (f.message uid now)) (d : Display) :
    streamText (bodies.foldl (receiveChat P.codec) d).shown = streamText d.shown ++ shownText fs := by
  induction hf generalizing d with
  | nil => simp [shownText]
  | @cons f body fs bodies hb _ ih =>
      obtain ⟨now, hnow, rfl⟩ := hb
      have hone : receiveChat P.codec d (P.codec.serializeChatMessage (f.message uid now)) =
          handleChatMessage (f.message uid now) d := by
        rw [receiveChat, hcodec f List.mem_cons_self now hnow]
      rw [List.foldl_cons, hone, ih fun f' hf' => hcodec f' (List.mem_cons_of_mem _ hf'),
        streamText_handleChatMessage rfl, List.append_assoc]
      rfl

/-- **AI text end to end.** Whatever chunks the language model delivers in a successful stream, and
whatever the timing of the flushes: on a connection that stays open the client prints exactly the
concatenation of the chunks if and only if no text waits for a flush when the stream ends. -/
theorem stream_printed (P : Params) (req : StreamRequest) (script : Script) (h : List (Event Reply))
    (hp : Path (processStreamRequest P req script) h (.ret ())) (hs : script.success = true)
    (ho : StaysOpen h)
    (hcodec : ∀ f ∈ flushes [] 0 script.chunks, ∀ now : Int, ⟨.systemClock, now⟩ ∈ h →
      P.codec.parseChatMessage (P.codec.serializeChatMessage (f.message req.uid now)) =
        some (f.message req.uid now)) (d : Display) :
    streamText ((chatBodies h).foldl (receiveChat P.codec) d).shown =
      streamText d.shown ++ (script.chunks.map Prod.fst).flatten ↔ waiting 0 script.chunks = 0 := by
  obtain ⟨-, bodies, hbodies, hf⟩ := hp.sat (processStreamRequest_frames script hs) ho
  have hall : chatBodies h = bodies := hbodies
  rw [hall, streamText_frames hf hcodec, List.append_cancel_left_eq, flushes_whole]

namespace Sample

/-- The small server with a codec that reads all fields of a chat message. -/
def streaming : Params :=
  { params with
    codec := { codec with
      parseChatMessage := fun b => (fields b.length b).map fun fs =>
        { fromUid := number fs 1, toUid := number fs 2, content := blob fs 3, timestamp := number fs 4
          isStream := number fs 5 = 1, isLastChunk := number fs 6 = 1, streamSeq := number fs 7 } } }

/-- A request of user `a`. -/
def request : StreamRequest := ⟨⟨0, 0, 0⟩, 1000, [0x68, 0x69], 0⟩

/-- The replies to the calls of a stream on an open connection. -/
def openReplies : (a : Call) → Reply a
  | .steadyClock => (7 : Int)
  | .systemClock => (7 : Int)
  | .rateTick _ _ => true
  | .loadUid _ => (1000 : Int)
  | .loadFd _ => (4 : Int)
  | .ownerWorker _ => some 0
  | .dbWriter => true
  | .verifyLogin _ _ => .ok (1000 : Int)
  | .registerUser _ _ => .ok (1000 : Int)
  | .queryOfflineMessages _ => .ok []
  | .markDelivered _ _ => .ok ()
  | .searchUsers _ => .ok []
  | .addFriendRequest _ _ _ => .ok (1 : Int)
  | .acceptFriendRequest _ _ => .ok (1 : Int)
  | .getFriends _ => .ok []
  | .getPendingRequests _ => .ok []
  | .submit _ => ()
  | .bindEnter _ _ => none
  | .bindStore _ _ => ()
  | .sessionGet _ => none
  | .queueSendPacket _ _ _ _ _ => ()
  | .queueCloseConnection _ _ => ()
  | .aiEnqueue _ _ => true
  | .nextClient => (0 : ℕ)
  | .eraseStream _ => ()

/-- The history of a stream on an open connection. -/
def openStream (chunks : List (Bytes × Bool)) : List (Event Reply) :=
  (answered openReplies (processStreamRequest streaming request { chunks := chunks })).1

/-- The stream display after the frames of a history. -/
def display (h : List (Event Reply)) : Display := (chatBodies h).foldl (receiveChat streaming.codec) {}

end Sample

/-- The text `hi` and a line break, flushed before the stream ends. -/
theorem stream_printed_sample :
    streamText (Sample.display (Sample.openStream [([0x68, 0x69, 0x0A], false)])).shown =
      [0x68, 0x69, 0x0A] :=
  (stream_printed Sample.streaming Sample.request { chunks := [([0x68, 0x69, 0x0A], false)] }
    (Sample.openStream [([0x68, 0x69, 0x0A], false)]) (path_answered _ _) rfl (by decide)
    (by
      intro f hf now hnow
      obtain rfl : now = 7 := answered_reply Sample.openReplies _ hnow
      revert f
      decide) {}).mpr (by decide)

/-- The text `hi` waits for a flush when the stream ends: it is sent in the last frame, and the client
prints nothing of it. -/
theorem text_lost : ∃ h, Path (processStreamRequest Sample.streaming Sample.request
      { chunks := [([0x68, 0x69], false)] }) h (.ret ()) ∧ StaysOpen h ∧
    (chatBodies h).map Sample.streaming.codec.parseChatMessage =
      [some (chunkMessage 1000 [0x68, 0x69] true 0 7)] ∧
    streamText (Sample.display h).shown ≠ [0x68, 0x69] :=
  ⟨Sample.openStream [([0x68, 0x69], false)], path_answered _ _, by decide, by decide, by decide⟩

end AuraChat
