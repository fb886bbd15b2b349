import AuraChat.Model.Client
import AuraChat.Wire.Packets

set_option autoImplicit false

/-!
# Frames of the client on the wire

A frame of the client is two calls of `::send`, and the main thread and the heartbeat thread share the
socket without a lock.

* `Client.Effect`, **`Client.step_effect`**: what a step does to the bytes on the wire;
* `Client.Undisturbed`: no thread sends a header while the other is between its header and its body;
* **`Client.frames_whole`**: under this condition the bytes on the wire are whole frames;
* `Client.frames_torn`: the header of a heartbeat between the header and the body of a chat message.
-/

namespace AuraChat.Client

open Interleave

/-! ## Threads in `send_packet` -/

/-- The thread that is not `t`. -/
def other : Sender → Sender
  | .main => .heartbeat
  | .heartbeat => .main

section Threads

variable (s : Client) (t : Sender) (o : PacketSend) (ok : Bool)

@[simp] theorem outgoing_leaveSend : (s.leaveSend t ok).outgoing t = none := by
  cases t with
  | main =>
      simp only [leaveSend]
      split
      · cases ok <;> rfl
      · rfl
  | heartbeat => rfl

@[simp] theorem outgoing_leaveSend_other :
    (s.leaveSend t ok).outgoing (other t) = s.outgoing (other t) := by
  cases t with
  | main =>
      simp only [leaveSend]
      split <;> rfl
  | heartbeat => rfl

@[simp] theorem outgoing_setOutgoing : (s.setOutgoing t o).outgoing t = some o := by
  cases t with
  | main =>
      simp only [setOutgoing]
      split <;> rfl
  | heartbeat => rfl

@[simp] theorem outgoing_setOutgoing_other :
    (s.setOutgoing t o).outgoing (other t) = s.outgoing (other t) := by
  cases t with
  | main =>
      simp only [setOutgoing]
      split <;> rfl
  | heartbeat => rfl

@[simp] theorem wire_leaveSend : (s.leaveSend t ok).wire = s.wire := by
  unfold leaveSend
  split
  · split <;> rfl
  · rfl

@[simp] theorem wire_setOutgoing : (s.setOutgoing t o).wire = s.wire := by
  unfold setOutgoing
  split
  · split <;> rfl
  · rfl

@[simp] theorem packets_leaveSend : (s.leaveSend t ok).packets = s.packets := by
  unfold leaveSend
  split
  · split <;> rfl
  · rfl

@[simp] theorem packets_setOutgoing : (s.setOutgoing t o).packets = s.packets := by
  unfold setOutgoing
  split
  · split <;> rfl
  · rfl

end Threads

/-! ## Steps -/

/-- What a step does to the calls of `send_packet` under way, the packets and the wire. -/
inductive Effect (s s' : Client) : Label → Prop
  /-- Nothing. -/
  | quiet {l : Label} : s'.wire = s.wire → s'.packets = s.packets →
      (∀ t, s'.outgoing t = s.outgoing t) → Effect s s' l
  /-- A thread enters `send_packet`. -/
  | enter {l : Label} (t : Sender) (o : PacketSend) : o.headerSent = false → s'.wire = s.wire →
      s'.packets = s.packets ++ [o.packet] → s'.outgoing t = some o → s.outgoing t = none →
      s'.outgoing (other t) = s.outgoing (other t) → Effect s s' l
  /-- A thread sends a header; without a body it is done. -/
  | header (t : Sender) (num : ℕ) (p : Packet) : s.outgoing t = some ⟨num, p, false⟩ →
      s'.wire = s.wire ++ p.header → s'.packets = s.packets →
      s'.outgoing t = (if p.body = [] then none else some ⟨num, p, true⟩) →
      s'.outgoing (other t) = s.outgoing (other t) → Effect s s' (.header t)
  /-- A thread sends a body. -/
  | body (t : Sender) (num : ℕ) (p : Packet) : s.outgoing t = some ⟨num, p, true⟩ →
      s'.wire = s.wire ++ p.body → s'.packets = s.packets → s'.outgoing t = none →
      s'.outgoing (other t) = s.outgoing (other t) → Effect s s' (.body t)
  /-- The call of a thread fails. -/
  | fail (t : Sender) : s'.wire = s.wire → s'.packets = s.packets → s'.outgoing t = none →
      s'.outgoing (other t) = s.outgoing (other t) → Effect s s' (.fail t)

theorem quiet_handleAckResponse (r : Response) (s : Client) :
    (handleAckResponse r s).wire = s.wire ∧ (handleAckResponse r s).packets = s.packets ∧
      ∀ t, (handleAckResponse r s).outgoing t = s.outgoing t := by
  unfold handleAckResponse
  split_ifs
  all_goals exact ⟨rfl, rfl, fun t => by cases t <;> rfl⟩

/-- **Every step has one of these effects.** -/
theorem step_effect {l : Label} {s s' : Client} (hs : step l s = some s') : Effect s s' l := by
  cases l with
  | chat body =>
      simp only [step] at hs
      split_ifs at hs with h
      cases hs
      exact .enter .main _ rfl rfl rfl rfl (by rw [outgoing, h.1]) rfl
  | arm register body =>
      simp only [step] at hs
      split_ifs at hs with h
      all_goals
        cases hs
        refine .quiet rfl rfl fun t => ?_
        cases t with
        | main => rw [outgoing, outgoing, h]
        | heartbeat => rfl
  | sendAuth =>
      simp only [step] at hs
      split at hs
      · rename_i cmd body h
        cases hs
        exact .enter .main _ rfl rfl rfl rfl (by rw [outgoing, h]) rfl
      · cases hs
  | beat body =>
      simp only [step] at hs
      split_ifs at hs with h
      cases hs
      exact .enter .heartbeat _ rfl rfl rfl rfl (by rw [outgoing, h.1]) rfl
  | header t =>
      simp only [step, sendHeader] at hs
      split at hs
      · rename_i num p h
        cases hs
        refine .header t num p h ?_ ?_ ?_ ?_
        all_goals split_ifs <;> simp
        all_goals cases t <;> rfl
      · cases hs
  | body t =>
      simp only [step, sendBody] at hs
      split at hs
      · rename_i num p h
        cases hs
        refine .body t num p h ?_ ?_ ?_ ?_ <;> simp
        cases t <;> rfl
      · cases hs
  | fail t =>
      simp only [step, Option.map_eq_some_iff] at hs
      obtain ⟨-, -, rfl⟩ := hs
      exact .fail t (by simp) (by simp) (by simp) (by simp)
  | answer num r =>
      simp only [step] at hs
      split at hs
      · split_ifs at hs
        cases hs
        exact .quiet rfl rfl fun t => by cases t <;> rfl
      · cases hs
  | notify text =>
      cases hs
      exact .quiet rfl rfl fun t => by cases t <;> rfl
  | receive =>
      simp only [step] at hs
      split at hs
      · cases hs
        obtain ⟨h1, h2, h3⟩ := quiet_handleAckResponse _ { s with inbox := _ }
        refine .quiet h1 h2 fun t => (h3 t).trans ?_
        cases t <;> rfl
      · cases hs
  | wake =>
      simp only [step] at hs
      split at hs
      · rename_i num h
        split_ifs at hs
        cases hs
        unfold wake
        split_ifs with hu hoff
        all_goals
          refine .quiet rfl rfl fun t => ?_
          cases t
        all_goals simp [outgoing, *]
      · cases hs
  | timeout =>
      simp only [step] at hs
      split at hs
      · rename_i num h
        split_ifs at hs
        cases hs
        refine .quiet rfl rfl fun t => ?_
        cases t with
        | main => rw [outgoing, outgoing, h]
        | heartbeat => rfl
      · cases hs

/-! ## Whole frames -/

theorem frame_eq (p : Packet) : p.frame = p.header ++ p.body := by
  rw [Packet.frame, sendPacket, Packet.header]
  split_ifs with hbody
  · rw [hbody]
  · rfl

/-- No send fails, and a thread sends a header only while the other is not between its header and its
body. -/
def Undisturbed : Label → Client → Prop
  | .header t, s => s.between (other t) = none
  | .fail _, _ => False
  | _, _ => True

/-- The header without its body at the end of the wire. -/
def opened (s : Client) : Bytes :=
  (s.between .main).elim [] Packet.header ++ (s.between .heartbeat).elim [] Packet.header

theorem opened_of_between {s : Client} {t : Sender} (h : s.between (other t) = none) :
    s.opened = (s.between t).elim [] Packet.header := by
  cases t with
  | main =>
      have h' : s.between .heartbeat = none := h
      rw [opened, h', Option.elim_none, List.append_nil]
  | heartbeat =>
      have h' : s.between .main = none := h
      rw [opened, h', Option.elim_none, List.nil_append]

theorem between_congr {s s' : Client} {t : Sender} (h : s'.outgoing t = s.outgoing t) :
    s'.between t = s.between t := by
  rw [between, between, h]

theorem forall_sender {p : Sender → Prop} (t : Sender) (h : p t) (h' : p (other t)) : ∀ t, p t := by
  intro t'
  cases t <;> cases t'
  · exact h
  · exact h'
  · exact h'
  · exact h

/-- The bytes on the wire are frames of packets, up to the header that is open. -/
structure Whole (s : Client) : Prop where
  listed : ∀ t o, s.outgoing t = some o → o.packet ∈ s.packets
  one : s.between .main = none ∨ s.between .heartbeat = none
  frames : ∃ frames, frames ⊆ s.packets ∧ s.wire = frames.flatMap Packet.frame ++ s.opened

theorem one_of_between {s : Client} (t : Sender) (h : s.between (other t) = none) :
    s.between .main = none ∨ s.between .heartbeat = none := by
  cases t with
  | main => exact .inr h
  | heartbeat => exact .inl h

theorem Whole.other_of_between {s : Client} (h : Whole s) {t : Sender} {p : Packet}
    (ht : s.between t = some p) : s.between (other t) = none := by
  cases t with
  | main => exact h.one.resolve_left (by rw [ht]; exact Option.some_ne_none p)
  | heartbeat => exact h.one.resolve_right (by rw [ht]; exact Option.some_ne_none p)

theorem Whole.of_same {s s' : Client} (h : Whole s) (hw : s'.wire = s.wire)
    (hb : ∀ t, s'.between t = s.between t) (hp : s.packets ⊆ s'.packets)
    (hl : ∀ t o, s'.outgoing t = some o → o.packet ∈ s'.packets) : Whole s' := by
  have hopen : s'.opened = s.opened := by rw [opened, opened, hb, hb]
  obtain ⟨frames, hsub, hwire⟩ := h.frames
  refine ⟨hl, by rw [hb, hb]; exact h.one, frames, List.Subset.trans hsub hp, ?_⟩
  rw [hw, hwire, hopen]

/-- **An undisturbed step keeps the frames on the wire whole.** -/
theorem Whole.step {l : Label} {s s' : Client} (h : Whole s) (hc : Undisturbed l s)
    (hs : step l s = some s') : Whole s' := by
  cases step_effect hs with
  | quiet hw hp ho =>
      refine h.of_same hw (fun t => between_congr (ho t)) (by rw [hp]; exact fun _ hm => hm)
        fun t o he => ?_
      rw [hp]
      exact h.listed t o (ho t ▸ he)
  | enter t o hsent hw hp ht hnone hother =>
      have hb : s'.between t = s.between t := by
        simp [between, ht, hnone, hsent]
      refine h.of_same hw (forall_sender t hb (between_congr hother)) (by simp [hp]) ?_
      refine forall_sender t (fun o' he => ?_) fun o' he => ?_
      · rw [ht] at he
        cases he
        simp [hp]
      · rw [hp]
        exact List.mem_append_left _ (h.listed _ o' (hother ▸ he))
  | header t num p ht hw hp ht' hother =>
      have hoth : s'.between (other t) = none := (between_congr hother).trans hc
      have hnone : s.between t = none := by simp [between, ht]
      obtain ⟨frames, hsub, hwire⟩ := h.frames
      rw [opened_of_between hc, hnone, Option.elim_none, List.append_nil] at hwire
      have hmem : p ∈ s.packets := h.listed t _ ht
      refine ⟨?_, one_of_between t hoth, ?_⟩
      · refine forall_sender t (fun o' he => ?_) fun o' he => ?_
        · rw [ht'] at he
          split_ifs at he
          cases he
          rw [hp]
          exact hmem
        · rw [hp]
          exact h.listed _ o' (hother ▸ he)
      · rw [opened_of_between hoth, hw, hwire, hp]
        by_cases hbody : p.body = []
        · -- a frame without a body is whole with its header
          refine ⟨frames ++ [p], ?_, ?_⟩
          · exact List.append_subset.mpr ⟨hsub, List.cons_subset.mpr ⟨hmem, List.nil_subset _⟩⟩
          · simp [between, ht', hbody, frame_eq]
        · exact ⟨frames, hsub, by simp [between, ht', hbody]⟩
  | body t num p ht hw hp ht' hother =>
      have hbet : s.between t = some p := by simp [between, ht]
      have hoth := h.other_of_between hbet
      have hoth' : s'.between (other t) = none := (between_congr hother).trans hoth
      have hnone : s'.between t = none := by simp [between, ht']
      obtain ⟨frames, hsub, hwire⟩ := h.frames
      rw [opened_of_between hoth, hbet, Option.elim_some] at hwire
      refine ⟨?_, one_of_between t hoth', frames ++ [p], ?_, ?_⟩
      · refine forall_sender t (fun o' he => ?_) fun o' he => ?_
        · rw [ht'] at he
          cases he
        · rw [hp]
          exact h.listed _ o' (hother ▸ he)
      · rw [hp]
        exact List.append_subset.mpr
          ⟨hsub, List.cons_subset.mpr ⟨h.listed t _ ht, List.nil_subset _⟩⟩
      · rw [opened_of_between hoth', hnone, hw, hwire, List.flatMap_append, List.flatMap_singleton,
          frame_eq]
        simp
  | fail t => exact absurd hc id

theorem whole_init : Whole {} where
  listed t o he := by cases t <;> cases he
  one := .inl rfl
  frames := ⟨[], List.nil_subset _, rfl⟩

/-- **Frames are whole in every undisturbed run.** If no thread ever sends a header while the other is
between its header and its body, and every `::send` is complete, then at every moment the bytes on the
wire are the frames of packets, each header followed by its own body, and then the header of the
packet that is being sent, if there is one. -/
theorem frames_whole (s : Client) (hr : RunTo Undisturbed s) :
    ∃ frames, frames ⊆ s.packets ∧ s.wire = frames.flatMap Packet.frame ++ s.opened :=
  (hr.invariant Whole whole_init fun _ _ _ hc h hs => h.step hc hs).frames

/-! ## A heartbeat in the middle of a chat message -/

instance decidableUndisturbed : ∀ l s, Decidable (Undisturbed l s)
  | .header t, s => inferInstanceAs (Decidable (s.between (other t) = none))
  | .fail _, _ => inferInstanceAs (Decidable False)
  | .chat _, _ | .arm _ _, _ | .sendAuth, _ | .beat _, _ | .body _, _ | .answer _ _, _ | .notify _, _
  | .receive, _ | .wake, _ | .timeout, _ => inferInstanceAs (Decidable True)

/-- A user logs in. -/
def loggingIn : List Label :=
  [.arm false [0x0A, 1, 0x61, 0x12, 1, 0x70], .sendAuth, .header .main, .body .main,
    .answer 0 { success := true, uid := 1000, msg := "login success" }, .receive, .wake]

/-- The main thread sends `hi` to user 1001, at 1700000000000 ms, and the heartbeat thread sends `PING`; the
heartbeat thread starts its packet when the main thread has sent its header, and `mid` is what they do then. -/
def chatAndBeat (mid : List Label) : List Label :=
  loggingIn ++ [.chat [0x08, 0xE8, 0x07, 0x10, 0xE9, 0x07, 0x1A, 2, 0x68, 0x69,
      0x20, 0x80, 0xD0, 0x95, 0xFF, 0xBC, 0x31],
    .beat [0x08, 0xE8, 0x07, 0x1A, 4, 0x50, 0x49, 0x4E, 0x47], .header .main] ++ mid

/-- Both packets are sent, one after the other. -/
theorem frames_whole_sample : ∃ s, RunTo Undisturbed s ∧ s.wire.length = 80 ∧
    ∃ frames, frames ⊆ s.packets ∧ s.wire = frames.flatMap Packet.frame ++ s.opened := by
  obtain ⟨s, hr, hlen⟩ := exists_run Undisturbed
    (chatAndBeat [.body .main, .header .heartbeat, .body .heartbeat])
    (fun s => s.wire.length = 80) (by decide)
  exact ⟨s, hr, hlen, frames_whole s hr⟩

/-- A stream of frames starts with the magic number, and its first frame is as long as its header
says. -/
theorem frames_head {wire : Bytes} {frames : List Packet} (h : wire = frames.flatMap Packet.frame)
    (hne : wire ≠ []) (hlen : wire.length < uint32Size) :
    (PacketHeader.ofBytes wire).magic = protoMagic ∧ ∃ rest : List Packet,
      wire.drop (headerSize + (PacketHeader.ofBytes wire).bodyLen.toNat) =
        rest.flatMap Packet.frame := by
  cases frames with
  | nil => exact absurd h hne
  | cons p rest =>
      rw [List.flatMap_cons, frame_eq, List.append_assoc] at h
      have hhdr : PacketHeader.ofBytes wire = headerOf p.cmd.code p.seq p.body := by
        rw [h]
        exact ofBytes_toBytes _ _
      have hbody : p.body.length < uint32Size := by
        rw [h, List.length_append, List.length_append] at hlen
        omega
      rw [hhdr]
      refine ⟨rfl, rest, ?_⟩
      rw [headerOf, toNat_length hbody, ← List.drop_drop, h]
      rw [List.drop_left' (i := headerSize) rfl, List.drop_left]

/-- Every call of `::send` is complete. -/
def SendsComplete (l : Label) (_ : Client) : Prop := l ≠ .fail .main ∧ l ≠ .fail .heartbeat

instance (l : Label) (s : Client) : Decidable (SendsComplete l s) := by
  unfold SendsComplete; infer_instance

/-- **The header of a heartbeat may come between the header and the body of a chat message**, and then
the bytes on the wire are no frames, although both threads are done. -/
theorem frames_torn : ∃ s, RunTo SendsComplete s ∧ s.outgoing .main = none ∧
    s.outgoing .heartbeat = none ∧ ¬ ∃ frames : List Packet, s.wire = frames.flatMap Packet.frame := by
  obtain ⟨s, hr, hmain, hbeat, hlen, h₁, h₂, h₃⟩ := exists_run SendsComplete
    (chatAndBeat [.header .heartbeat, .body .main, .body .heartbeat])
    (fun s => s.outgoing .main = none ∧ s.outgoing .heartbeat = none ∧ s.wire.length = 80 ∧
      headerSize + (PacketHeader.ofBytes s.wire).bodyLen.toNat = 22 ∧
      headerSize + (PacketHeader.ofBytes (s.wire.drop 22)).bodyLen.toNat = 33 ∧
      (PacketHeader.ofBytes ((s.wire.drop 22).drop 33)).magic ≠ protoMagic) (by decide)
  refine ⟨s, hr, hmain, hbeat, ?_⟩
  rintro ⟨frames, hf⟩
  have short : ∀ k, k < 80 → s.wire.drop k ≠ [] ∧ (s.wire.drop k).length < uint32Size := by
    intro k hk
    rw [ne_eq, ← List.length_eq_zero_iff, List.length_drop, hlen, uint32Size]
    omega
  -- the frame of the login, then the header of the chat message with the start of the other header
  obtain ⟨-, rest, hrest⟩ := frames_head hf (short 0 (by decide)).1 (short 0 (by decide)).2
  rw [h₁] at hrest
  obtain ⟨-, rest', hrest'⟩ := frames_head hrest (short 22 (by decide)).1 (short 22 (by decide)).2
  rw [h₂] at hrest'
  have h55 := short 55 (by decide)
  rw [show 55 = 22 + 33 from rfl, ← List.drop_drop] at h55
  exact h₃ (frames_head hrest' h55.1 h55.2).1

end AuraChat.Client
