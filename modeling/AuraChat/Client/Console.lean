import AuraChat.Model.ChatLoop
import AuraChat.Model.Stream

set_option autoImplicit false

/-!
# Streams on the console

The flags of the stream are written by the frames from 9999 and by the end of the wait of the main thread.

* `Console.Starts`, `Console.Inv`, `Console.inv_of_run`: what the flags say about the frames since a prompt;
* **`Console.wait_returns_iff`**: when the wait returns with the last frame. A stream of one frame leaves
  the client waiting: `Console.error_not_noticed`;
* `Console.peersBetween`, **`Console.peers_shown`**: the messages of users that are printed. What comes
  during a stream is not: `Console.peer_not_shown`.
-/

namespace AuraChat.Console

open Interleave

/-! ## Frames from 9999 -/

/-- The frames from 9999 that are handled. -/
def streamFrames (ls : List Label) : List ChatMessage :=
  ls.filterMap fun l => match l with
    | .receive m _ => if m.fromUid = 9999 then some m else none
    | _ => none

/-- Text of a stream that is not in its last frame. -/
def IsText (m : ChatMessage) : Prop := m.isLastChunk = false ∧ m.content ≠ []

instance (m : ChatMessage) : Decidable (IsText m) := by unfold IsText; infer_instance

/-- Some text comes while no stream is open: with `in_stream_` unset from the start, or after a last frame. -/
def Starts (inStream : Bool) (fs : List ChatMessage) : Prop :=
  ∃ pre m post, fs = pre ++ m :: post ∧ IsText m ∧
    (inStream = false ∨ ∃ l ∈ pre, l.isLastChunk = true)

/-- One of the timeouts of `wait_for_stream_completion`. -/
def Label.runsOut : Label → Bool
  | .timeout | .interrupt _ => true
  | _ => false

@[simp] theorem streamFrames_append (ls ls' : List Label) :
    streamFrames (ls ++ ls') = streamFrames ls ++ streamFrames ls' := List.filterMap_append

theorem streamFrames_receive {m : ChatMessage} (hm : m.fromUid = 9999) (now : Int) :
    streamFrames [.receive m now] = [m] := by
  simp [streamFrames, hm]

theorem streamFrames_peer {m : ChatMessage} (hm : m.fromUid ≠ 9999) (now : Int) :
    streamFrames [.receive m now] = [] := by
  simp [streamFrames, hm]

theorem not_starts_nil (b : Bool) : ¬ Starts b [] := by
  rintro ⟨pre, m, post, h, -⟩
  exact List.append_ne_nil_of_right_ne_nil pre (List.cons_ne_nil m post) h.symm

theorem starts_concat {b : Bool} {fs : List ChatMessage} {m : ChatMessage} :
    Starts b (fs ++ [m]) ↔
      Starts b fs ∨ (IsText m ∧ (b = false ∨ ∃ l ∈ fs, l.isLastChunk = true)) := by
  constructor
  · rintro ⟨pre, m', post, h, ht, hb⟩
    rcases List.eq_nil_or_concat' post with rfl | ⟨post, x, rfl⟩
    · obtain ⟨rfl, hx⟩ := List.append_inj' h rfl
      obtain rfl := List.head_eq_of_cons_eq hx
      exact .inr ⟨ht, hb⟩
    · rw [← List.cons_append, ← List.append_assoc] at h
      exact .inl ⟨pre, m', post, (List.append_inj' h rfl).1, ht, hb⟩
  · rintro (⟨pre, m', post, rfl, ht, hb⟩ | ⟨ht, hb⟩)
    · exact ⟨pre, m', post ++ [m], by rw [List.append_assoc, List.cons_append], ht, hb⟩
    · exact ⟨fs, m, [], rfl, ht, hb⟩

/-! ## The flags -/

/-- Where the main thread is since a prompt, and whether a timeout has `run out`, while frames are handled. -/
def Phase (c : Console) (ranOut : Prop) : Prop :=
  match c.wait with
  | .idle => False
  | .starting => c.running = true ∧ ¬ ranOut
  | .streaming => c.running = true ∧ c.streamStarted = true ∧ ¬ ranOut
  | .completed => c.streamStarted = true ∧ ¬ ranOut
  | .timedOut => ranOut
  | .interrupted => c.streamStarted = true ∧ ranOut

/-- What holds after the steps `ls` since a prompt that was sent while `in_stream_` was `b`. -/
structure Inv (b : Bool) (ls : List Label) (c : Console) : Prop where
  inStream : c.streamStarted = false →
    (c.inStream = true ↔ b = true ∧ ∀ m ∈ streamFrames ls, m.isLastChunk = false)
  starts : c.streamStarted = true ↔ Starts b (streamFrames ls)
  phase : c.Phase (ls.any Label.runsOut = true)

theorem inv_ask {c c' : Console} {now : Int} (h : step (.ask now) c = some c') (hr : c'.receiving = true) :
    Inv c.inStream [] c' := by
  simp only [step] at h
  split_ifs at h with hc
  cases h
  refine ⟨fun _ => ?_, iff_of_false Bool.false_ne_true (not_starts_nil _), ?_, Bool.false_ne_true⟩
  · simp [streamFrames]
  · exact hc.1.resolve_right fun hf => Bool.false_ne_true (hf.symm.trans hr)

section Step

variable {b : Bool} {ls : List Label} {l : Label} {c c' : Console} {ranOut : Prop} {now : Int}

theorem ranOut_concat (hl : l.runsOut = false) :
    (ls ++ [l]).any Label.runsOut = ls.any Label.runsOut := by
  rw [List.any_append, List.any_cons, List.any_nil, hl, Bool.or_false, Bool.or_false]

theorem Phase.atLoop (hp : c.Phase ranOut) (ha : c.AtLoop now) :
    c.running = true ∧ c.streamStarted = true ∧ ¬ ranOut := by
  rcases ha with ⟨hw, hs⟩ | ⟨hw, -⟩
  · rw [Phase, hw] at hp
    rw [started, hp.1] at hs
    exact ⟨hp.1, hs, hp.2⟩
  · rw [Phase, hw] at hp
    exact hp

theorem Phase.quit (hp : c.Phase ranOut) (hw : ¬ c.Waiting) : { c with running := false }.Phase ranOut := by
  unfold Phase at hp ⊢
  cases h : c.wait with
  | starting => exact absurd (.inl h) hw
  | streaming => exact absurd (.inr h) hw
  | idle =>
      rw [h] at hp
      exact hp.elim
  | completed | timedOut | interrupted =>
      rw [h] at hp
      simpa [h] using hp

theorem Phase.frame {d : Display} (hp : c.Phase ranOut) (hs : c.streamStarted = true → d.streamStarted = true) :
    { c with toDisplay := d, lastAiChunkTime := now }.Phase ranOut := by
  unfold Phase at hp ⊢
  cases h : c.wait with
  | idle =>
      rw [h] at hp
      exact hp.elim
  | starting | timedOut =>
      rw [h] at hp
      simpa [h] using hp
  | streaming =>
      rw [h] at hp
      simpa [h] using ⟨hp.1, hs hp.2.1, hp.2.2⟩
  | completed | interrupted =>
      rw [h] at hp
      simpa [h] using ⟨hs hp.1, hp.2⟩

theorem Inv.of_flags (hi : Inv b ls c) (hf : streamFrames [l] = [])
    (hs : c'.streamStarted = c.streamStarted)
    (ho : c.streamStarted = false → c'.inStream = c.inStream)
    (hp : c'.Phase ((ls ++ [l]).any Label.runsOut = true)) : Inv b (ls ++ [l]) c' where
  inStream h := by
    rw [hs] at h
    rw [ho h, streamFrames_append, hf, List.append_nil]
    exact hi.inStream h
  starts := by rw [hs, streamFrames_append, hf, List.append_nil, hi.starts]
  phase := hp

theorem handleChatMessage_peer {m : ChatMessage} (hm : m.fromUid ≠ 9999) (d : Display) :
    handleChatMessage m d = { d with
      shown := d.shown ++ if d.inStream then []
        else [.message m.fromUid (m.fromUid = d.chatTarget) m.content] } := by
  rw [handleChatMessage, if_pos hm]
  split_ifs
  · rw [List.append_nil]
  · rfl

/-- Before a stream has started, `in_stream_` says whether text would start one. -/
theorem Inv.opens (hi : Inv b ls c) (hs : c.streamStarted = false) :
    c.inStream = false ↔ b = false ∨ ∃ l ∈ streamFrames ls, l.isLastChunk = true := by
  rw [← Bool.not_eq_true, hi.inStream hs, not_and_or, Bool.not_eq_true]
  simp

theorem streamStarted_handleChatMessage {m : ChatMessage} {d : Display} (hs : d.streamStarted = true) :
    (handleChatMessage m d).streamStarted = true := by
  unfold handleChatMessage
  split_ifs <;> first | exact hs | rfl

theorem Inv.flags_frame {m : ChatMessage} (hi : Inv b ls c) (hm : m.fromUid = 9999) :
    ((handleChatMessage m c.toDisplay).streamStarted = false →
      ((handleChatMessage m c.toDisplay).inStream = true ↔
        b = true ∧ ∀ m' ∈ streamFrames ls ++ [m], m'.isLastChunk = false)) ∧
    ((handleChatMessage m c.toDisplay).streamStarted = true ↔ Starts b (streamFrames ls ++ [m])) := by
  rw [handleChatMessage, if_neg (not_not_intro hm), starts_concat, ← hi.starts]
  split_ifs with hlast hempty hopen
  · -- the last frame
    refine ⟨fun _ => ?_, ?_⟩
    · simp [hlast]
    · simp [IsText, hlast]
  · -- an empty frame
    refine ⟨fun hs => ?_, ?_⟩
    · simp [hi.inStream hs, hlast, or_imp, forall_and]
    · simp [IsText, hempty]
  · -- text of an open stream
    refine ⟨fun hs => ?_, .inl, fun h => ?_⟩
    · simp [hi.inStream hs, hlast, or_imp, forall_and]
    · rcases h with h | ⟨-, h⟩
      · exact h
      · cases hs : c.streamStarted with
        | true => rfl
        | false => exact absurd (hopen.symm.trans ((hi.opens hs).mpr h)) Bool.noConfusion
  · -- text that opens a stream
    refine ⟨False.elim, iff_of_true rfl ?_⟩
    cases hs : c.streamStarted with
    | true => exact .inl rfl
    | false =>
        rw [Bool.not_eq_true] at hlast hopen
        exact .inr ⟨⟨hlast, hempty⟩, (hi.opens hs).mp hopen⟩

theorem Inv.frame {m : ChatMessage} (hi : Inv b ls c) (hm : m.fromUid = 9999) :
    Inv b (ls ++ [.receive m now])
      { c with toDisplay := handleChatMessage m c.toDisplay, lastAiChunkTime := now } := by
  have hframes : streamFrames (ls ++ [.receive m now]) = streamFrames ls ++ [m] := by
    rw [streamFrames_append, streamFrames_receive hm]
  refine ⟨?_, ?_, ?_⟩
  · rw [hframes]
    exact (hi.flags_frame hm).1
  · rw [hframes]
    exact (hi.flags_frame hm).2
  · rw [ranOut_concat rfl]
    exact hi.phase.frame streamStarted_handleChatMessage

theorem Inv.step (hi : Inv b ls c) (hl : ∀ now, l ≠ .ask now) (h : step l c = some c')
    (hr : c'.receiving = true) : Inv b (ls ++ [l]) c' := by
  have hphase := hi.phase
  cases l with
  | ask now => exact absurd rfl (hl now)
  | switch target =>
      simp only [Console.step] at h
      split_ifs at h with hw
      cases h
      refine hi.of_flags rfl rfl (fun _ => rfl) ?_
      rw [ranOut_concat rfl]
      exact hphase
  | quit =>
      simp only [Console.step] at h
      split_ifs at h with hw
      cases h
      refine hi.of_flags rfl rfl (fun _ => rfl) ?_
      rw [ranOut_concat rfl]
      exact hphase.quit hw
  | closed =>
      cases h
      cases hr
  | receive m now =>
      simp only [Console.step] at h
      split_ifs at h with hc
      cases h
      by_cases hm : m.fromUid = 9999
      · exact hi.frame hm
      · rw [handleChatMessage_peer hm]
        refine hi.of_flags (streamFrames_peer hm now) rfl (fun _ => rfl) ?_
        rw [ranOut_concat rfl]
        exact hphase.frame id
  | timeout =>
      simp only [Console.step] at h
      split_ifs at h with hw
      cases h
      refine hi.of_flags rfl rfl (fun _ => rfl) ?_
      simp [Phase, Label.runsOut]
  | sleep now =>
      simp only [Console.step] at h
      split_ifs at h with hw
      cases h
      refine hi.of_flags rfl rfl (fun _ => rfl) ?_
      rw [ranOut_concat rfl]
      exact hphase.atLoop hw.1
  | finish now =>
      simp only [Console.step] at h
      split_ifs at h with hw
      cases h
      obtain ⟨-, hs, hran⟩ := hphase.atLoop hw.1
      refine hi.of_flags rfl rfl (fun hf => absurd (hs.symm.trans hf) Bool.noConfusion) ?_
      rw [ranOut_concat rfl]
      exact ⟨hs, hran⟩
  | interrupt now =>
      simp only [Console.step] at h
      split_ifs at h with hw
      cases h
      rw [Phase, hw.1] at hphase
      refine hi.of_flags rfl rfl (fun hf => absurd (hphase.2.1.symm.trans hf) Bool.noConfusion) ?_
      exact ⟨hphase.2.1, by simp [Label.runsOut]⟩

theorem receiving_of_step (h : Console.step l c = some c') (hr : c'.receiving = true) :
    c.receiving = true := by
  cases l with
  | closed =>
      cases h
      cases hr
  | ask _ | switch _ | quit | receive _ _ | timeout | sleep _ | finish _ | interrupt _ =>
      simp only [Console.step] at h
      split_ifs at h
      cases h
      exact hr

/-- **The flags after any steps since a prompt.** -/
theorem inv_of_run {c₀ : Console} (hask : Console.step (.ask now) c₀ = some c)
    (hls : ∀ t, Label.ask t ∉ ls) (hrun : Run ls c c') (hr : c'.receiving = true) :
    Inv c₀.inStream ls c' := by
  induction ls using List.reverseRecOn generalizing c' with
  | nil =>
      cases hrun
      exact inv_ask hask hr
  | append_singleton ls l ih =>
      obtain ⟨c₁, h₁, -, h₂⟩ := runAll_concat_eq_some.mp hrun
      refine (ih ?_ h₁ (receiving_of_step h₂ hr)).step ?_ h₂ hr
      · exact fun t ht => hls t (List.mem_append_left _ ht)
      · rintro t rfl
        exact hls t List.mem_concat_self

end Step

/-! ## The end of the wait -/

/-- The wait has returned, or it returns once the main thread wakes up within 30 seconds of `now`; in neither
case with a timeout. -/
def Returns (now : Int) (c : Console) : Prop :=
  c.wait = .completed ∨ (step .timeout c = none ∧ ∀ t, (t - now).tdiv 1000000000 ≤ 30 →
    step (.interrupt t) c = none ∧ step (.finish t) c = some { c with inStream := false, wait := .completed })

theorem not_ranOut {ls : List Label} :
    ¬ ls.any Label.runsOut = true ↔ ∀ l ∈ ls, l.runsOut = false := by
  rw [Bool.not_eq_true, List.any_eq_false]
  simp only [Bool.not_eq_true]

/-- Once a stream has started and is complete, only a timeout in the past keeps the wait from returning. -/
theorem returns_iff {c : Console} {now : Int} {ranOut : Prop} (hp : c.Phase ranOut)
    (hs : c.streamStarted = true) (hc : c.streamCompleted = true) (ht : c.lastAiChunkTime = now) :
    c.Returns now ↔ ¬ ranOut := by
  subst ht
  have hstarted : c.started = true := by rw [started, hs, Bool.or_true]
  -- the end of the wait from either of its places
  have hfinish : c.Waiting → ∀ t, c.elapsed t ≤ 30 → step (.interrupt t) c = none ∧
      step (.finish t) c = some { c with inStream := false, wait := .completed } := by
    intro hw t hle
    constructor
    · exact if_neg fun h => absurd h.2 (Int.not_lt.mpr hle)
    · refine if_pos ⟨?_, fun h => Bool.noConfusion (hc.symm.trans h.2)⟩
      exact hw.imp (fun h => ⟨h, hstarted⟩) fun h => ⟨h, hle⟩
  have htimeout : step .timeout c = none :=
    if_neg fun h => Bool.noConfusion (hstarted.symm.trans h.2)
  have hended : c.wait = .timedOut ∨ c.wait = .interrupted → ¬ c.Returns c.lastAiChunkTime := by
    rintro hw (h | ⟨-, h⟩)
    · rcases hw with hw | hw <;> cases hw.symm.trans h
    · have h := (h c.lastAiChunkTime (by simp)).2
      simp only [step] at h
      split_ifs at h with ha
      rcases hw with hw | hw <;> rcases ha.1 with ⟨ha, -⟩ | ⟨ha, -⟩ <;> cases hw.symm.trans ha
  unfold Phase at hp
  cases hw : c.wait with
  | idle =>
      rw [hw] at hp
      exact hp.elim
  | starting =>
      rw [hw] at hp
      exact iff_of_true (.inr ⟨htimeout, hfinish (.inl hw)⟩) hp.2
  | streaming =>
      rw [hw] at hp
      exact iff_of_true (.inr ⟨htimeout, hfinish (.inr hw)⟩) hp.2.2
  | completed =>
      rw [hw] at hp
      exact iff_of_true (.inl hw) hp.2
  | timedOut =>
      rw [hw] at hp
      exact iff_of_false (hended (.inl hw)) (not_not_intro hp)
  | interrupted =>
      rw [hw] at hp
      exact iff_of_false (hended (.inr hw)) (not_not_intro hp.2)

/-- **After the last frame the flags are as the wait needs them if and only if some text that is not in a last
frame came while no stream was open**, and the wait returns if and only if, in addition, no timeout has run
out before. -/
theorem wait_returns_iff {c₀ c c' : Console} {asked now : Int} {ls : List Label} {m : ChatMessage}
    (hask : step (.ask asked) c₀ = some c) (hls : ∀ t, Label.ask t ∉ ls)
    (hm : m.fromUid = 9999) (hlast : m.isLastChunk = true)
    (hrun : Run (ls ++ [.receive m now]) c c') :
    ((c'.streamStarted = true ∧ c'.streamCompleted = true ∧ c'.inStream = false) ↔
      Starts c₀.inStream (streamFrames ls)) ∧
    ((c'.streamStarted = true ∧ c'.streamCompleted = true ∧ c'.inStream = false ∧ c'.Returns now) ↔
      Starts c₀.inStream (streamFrames ls) ∧ ∀ l ∈ ls, l.runsOut = false) := by
  obtain ⟨c₁, h₁, -, h₂⟩ := runAll_concat_eq_some.mp hrun
  simp only [step] at h₂
  split_ifs at h₂ with hr
  have hi := inv_of_run hask hls h₁ hr
  have hd : handleChatMessage m c₁.toDisplay =
      { c₁.toDisplay with inStream := false, streamCompleted := true } := by
    rw [handleChatMessage, if_neg (not_not_intro hm), if_pos hlast]
  rw [hd] at h₂
  cases h₂
  have hphase : Phase { c₁ with
      inStream := false, streamCompleted := true, lastAiChunkTime := now } (ls.any Label.runsOut = true) :=
    hi.phase.frame (d := { c₁.toDisplay with inStream := false, streamCompleted := true }) id
  refine ⟨⟨fun h => hi.starts.mp h.1, fun h => ⟨hi.starts.mpr h, rfl, rfl⟩⟩, ?_, ?_⟩
  · rintro ⟨hs, hc, -, hret⟩
    exact ⟨hi.starts.mp hs, not_ranOut.mp ((returns_iff hphase hs hc rfl).mp hret)⟩
  · rintro ⟨hstarts, hran⟩
    have hs := hi.starts.mpr hstarts
    exact ⟨hs, rfl, rfl, (returns_iff hphase hs rfl rfl).mpr (not_ranOut.mpr hran)⟩

/-- After the first prompt. -/
def prompted : Console := { wait := .starting }

/-- Text, and the empty frame after it. -/
def textFrame : ChatMessage := chunkMessage 1000 [0x68, 0x69] false 0 0
def lastFrame : ChatMessage := chunkMessage 1000 [] true 1 0

/-- What `send_error_response` sends. -/
def errorFrame : ChatMessage := chunkMessage 1000 (bytes "AI服务排队超时，请稍后再试") true 0 0

theorem wait_returns_sample : ∃ c', Run [.receive textFrame 1, .receive lastFrame 2] prompted c' ∧
    c'.streamStarted = true ∧ c'.streamCompleted = true ∧ c'.inStream = false ∧ c'.Returns 2 := by
  have hask : step (.ask 0) {} = some prompted := rfl
  have hrun : Run ([.receive textFrame 1] ++ [.receive lastFrame 2]) prompted _ := rfl
  refine ⟨_, hrun, (wait_returns_iff hask ?_ rfl rfl hrun).2.mpr ?_⟩
  · intro t ht
    cases List.mem_singleton.mp ht
  · refine ⟨⟨[], textFrame, [], rfl, ⟨rfl, List.cons_ne_nil _ _⟩, .inl rfl⟩, ?_⟩
    decide

/-- **A stream of one frame is not noticed**: after an error of the AI the wait runs out. -/
theorem error_not_noticed :
    ∃ c c', step (.ask 0) {} = some c ∧ Run [.receive errorFrame 1] c c' ∧ c'.streamStarted = false ∧
      step .timeout c' = some { c' with wait := .timedOut } :=
  ⟨_, _, rfl, rfl, rfl, rfl⟩

/-! ## Messages of users -/

/-- The messages of users among what is printed. -/
def messages (shown : List Shown) : List (Int × Bytes) :=
  shown.filterMap fun x => match x with
    | .message fromUid _ content => some (fromUid, content)
    | _ => none

/-- The message of a user that a step handles. -/
def Label.peer : Label → List (Int × Bytes)
  | .receive m _ => if m.fromUid ≠ 9999 then [(m.fromUid, m.content)] else []
  | _ => []

/-- A stream opens with text that is not in its last frame. -/
def Label.opens : Label → Bool
  | .receive m _ => m.fromUid = 9999 ∧ IsText m
  | _ => false

/-- It is closed by its last frame, and by the end of the wait. -/
def Label.closes : Label → Bool
  | .receive m _ => m.fromUid = 9999 ∧ m.isLastChunk = true
  | .finish _ | .interrupt _ => true
  | _ => false

/-- Whether a stream is open after a step. -/
def Label.after (l : Label) (isOpen : Bool) : Bool := if l.closes then false else isOpen || l.opens

/-- All messages of users, in the order in which they are handled. -/
def peers (ls : List Label) : List (Int × Bytes) := ls.flatMap Label.peer

/-- The messages of users that are handled while no stream is open. -/
def peersBetween (isOpen : Bool) : List Label → List (Int × Bytes)
  | [] => []
  | l :: ls => (if isOpen then [] else l.peer) ++ peersBetween (l.after isOpen) ls

@[simp] theorem messages_append (shown shown' : List Shown) :
    messages (shown ++ shown') = messages shown ++ messages shown' := List.filterMap_append

theorem frame_messages {m : ChatMessage} (hm : m.fromUid = 9999) (now : Int) (c : Console) :
    messages (handleChatMessage m c.toDisplay).shown = messages c.shown ∧
      (handleChatMessage m c.toDisplay).inStream = (Label.receive m now).after c.inStream := by
  rw [handleChatMessage, if_neg (not_not_intro hm)]
  split_ifs with hlast hempty hopen
  · simp [Label.after, Label.closes, hm, hlast]
  · simp [Label.after, Label.closes, Label.opens, IsText, hm, hlast, hempty]
  · simp [Label.after, Label.closes, Label.opens, IsText, hm, hlast, hempty, hopen, messages]
  · simp [Label.after, Label.closes, Label.opens, IsText, hm, hlast, hempty, messages]

/-- What a step prints of users, and whether a stream is open after it. -/
theorem step_messages {l : Label} {c c' : Console} (h : step l c = some c') :
    messages c'.shown = messages c.shown ++ (if c.inStream then [] else l.peer) ∧
      c'.inStream = l.after c.inStream := by
  cases l with
  | receive m now =>
      simp only [step] at h
      split_ifs at h
      cases h
      by_cases hm : m.fromUid = 9999
      · rw [show (Label.receive m now).peer = [] from if_neg (not_not_intro hm), ite_self, List.append_nil]
        exact frame_messages hm now c
      · rw [handleChatMessage_peer hm]
        simp only [Label.after, Label.closes, Label.opens, Label.peer, hm, messages_append]
        cases c.inStream <;> simp [messages, hm]
  | finish now | interrupt now =>
      simp only [step] at h
      split_ifs at h
      cases h
      simp [Label.peer, Label.after, Label.closes]
  | closed =>
      cases h
      simp [Label.peer, Label.after, Label.closes, Label.opens]
  | ask _ | switch _ | quit | timeout | sleep _ =>
      simp only [step] at h
      split_ifs at h
      cases h
      simp [Label.peer, Label.after, Label.closes, Label.opens]

/-- **The messages of users that are printed are those that are handled while no stream is open**, each of
them once and in the order in which they come. -/
theorem peers_shown {ls : List Label} {c c' : Console} (hrun : Run ls c c') :
    messages c'.shown = messages c.shown ++ peersBetween c.inStream ls := by
  induction ls generalizing c with
  | nil =>
      cases hrun
      exact (List.append_nil _).symm
  | cons l ls ih =>
      simp only [Run, runAll, if_true] at hrun
      obtain ⟨c₁, h₁, hrun⟩ := Option.bind_eq_some_iff.mp hrun
      obtain ⟨hm, ho⟩ := step_messages h₁
      rw [ih hrun, hm, ho, peersBetween, List.append_assoc]

/-- A message of the user 1001. -/
def peerFrame : ChatMessage := { fromUid := 1001, toUid := 1000, content := [0x79, 0x6F] }

theorem peers_shown_sample :
    ∃ c, Run [.receive peerFrame 1] {} c ∧ messages c.shown = peersBetween false [.receive peerFrame 1] := by
  have hrun : Run [.receive peerFrame 1] {} _ := rfl
  exact ⟨_, hrun, peers_shown hrun⟩

/-- **A message that comes during a stream is not printed**, also not after the stream. -/
theorem peer_not_shown :
    ∃ (ls : List Label) (c : Console), Run ls {} c ∧ c.wait = .completed ∧ c.inStream = false ∧
      peers ls = [(1001, [0x79, 0x6F])] ∧ messages c.shown = [] :=
  ⟨[.ask 0, .receive textFrame 1, .receive peerFrame 2, .receive lastFrame 3, .finish 4], _, rfl, rfl, rfl,
    rfl, rfl⟩

end AuraChat.Console
