import AuraChat.Wire.Events
import AuraChat.Wire.Reference

set_option autoImplicit false

/-!
# The end of a connection

What `handle_events` does when a connection comes to its end, with an end of file, a hang-up, an error
or a bad header.

* `Wakeup.Data`, `Wakeup.Fin`: the events before the client's FIN, and the event that reports it;
* **`frames_enqueued_iff`**: when every frame of a client that shuts down gets to the pool;
* **`handleEvents_stops_iff`**: when nothing of a connection runs after its close.
-/

namespace AuraChat

open Stream

/-! ## Frames before the FIN -/

/-- The data that is read while an event is handled. -/
def Wakeup.data (w : Wakeup) : Bytes := if w.revents.input then readData w.reads else []

/-- An event before the FIN: no hang-up, reads that end where nothing more has arrived, and writes that
do not fail. -/
def Wakeup.Data (w : Wakeup) : Prop :=
  w.revents.hangup = false ∧ readBroken w.reads = false ∧ ∀ r ∈ w.writes, r ≠ .error ∧ r ≠ .taken 0

/-- The event that reports the FIN: a hang-up, or the end of the file after the rest of the data. -/
def Wakeup.Fin (w : Wakeup) : Prop :=
  w.revents.hangup = true ∨ (w.revents.input = true ∧ readBroken w.reads = true)

/-- The packets that the pool takes, when `load k` tasks are queued at the `k`-th call of `enqueue`. -/
def admitted (load : ℕ → ℕ) : List (PacketHeader × Bytes) → List (PacketHeader × Bytes)
  | [] => []
  | p :: ps =>
      let more := admitted (fun k => load (k + 1)) ps
      if 200000 < load 0 then more else p :: more

namespace Endpoint

theorem onInput_data {e : Endpoint} {w : Wakeup} (hbroken : readBroken w.reads = false)
    (he : e.closed = false) (hwait : handleReadNext e.recvBuf = .wait) :
    enqueued (e.onInput w).1 = (handleReadDecoder.drain (e.recvBuf ++ w.data)).emitted ∧
      (e.onInput w).2.recvBuf = (handleReadDecoder.drain (e.recvBuf ++ w.data)).buf ∧
      (e.onInput w).2.closed = (handleReadDecoder.drain (e.recvBuf ++ w.data)).failed := by
  unfold onInput Wakeup.data
  split_ifs
  · rcases handleRead_eq e w.reads he with ⟨hb, -⟩ | ⟨-, hops, hend⟩
    · rw [hbroken] at hb
      cases hb
    · rw [hend]
      exact ⟨hops, rfl, rfl⟩
  · have hdrain : handleReadDecoder.drain e.recvBuf = ⟨[], e.recvBuf, false⟩ :=
      Decoder.drain_wait hwait
    rw [List.append_nil, hdrain]
    exact ⟨rfl, rfl, he⟩

theorem handleEvents_data {e : Endpoint} {w : Wakeup} (hw : w.Data) (he : e.closed = false)
    (hwait : handleReadNext e.recvBuf = .wait) :
    enqueued (e.handleEvents w).1 = (handleReadDecoder.drain (e.recvBuf ++ w.data)).emitted ∧
      (e.handleEvents w).2.recvBuf = (handleReadDecoder.drain (e.recvBuf ++ w.data)).buf ∧
      (e.handleEvents w).2.closed = (handleReadDecoder.drain (e.recvBuf ++ w.data)).failed := by
  obtain ⟨hhang, hbroken, hwrites⟩ := hw
  obtain ⟨hops, hbuf, hclosed⟩ := onInput_data hbroken he hwait
  obtain ⟨hnone, hrecv⟩ := onOutput_frame (e.onInput w).2 w
  have hopen : ((e.onInput w).2.onOutput w).2.closed = (e.onInput w).2.closed := by
    unfold onOutput
    split_ifs
    · exact handleWrite_closed _ w.writes hwrites
    · rfl
  rw [handleEvents, if_neg (by rw [hhang]; exact Bool.false_ne_true)]
  exact ⟨by rw [enqueued_append, hnone, List.append_nil, hops], hrecv.trans hbuf,
    hopen.trans hclosed⟩

theorem handleEvents_fin {e : Endpoint} {w : Wakeup} (hw : w.Fin) (he : e.closed = false) :
    enqueued (e.handleEvents w).1 = [] := by
  rw [handleEvents]
  split_ifs with hhang
  · rfl
  · obtain ⟨hin, hbroken⟩ := hw.resolve_left hhang
    have hread : enqueued (e.onInput w).1 = [] := by
      rw [onInput, if_pos hin]
      rcases handleRead_eq e w.reads he with ⟨-, hops, -⟩ | ⟨hb, -⟩
      · exact hops
      · rw [hbroken] at hb
        cases hb
    rw [enqueued_append, hread, (onOutput_frame _ w).1]
    rfl

/-- **The events before the FIN** feed the decoder, as long as it does not give up. -/
theorem handleAll_data (ws : List Wakeup) (hws : ∀ w ∈ ws, w.Data) (last : Wakeup) (hlast : last.Fin)
    (e : Endpoint) (he : e.closed = false) (hwait : handleReadNext e.recvBuf = .wait)
    (hgood : (handleReadDecoder.drain (e.recvBuf ++ ws.flatMap Wakeup.data)).failed = false) :
    enqueued (handleAll (ws ++ [last]) e).1 =
      (handleReadDecoder.drain (e.recvBuf ++ ws.flatMap Wakeup.data)).emitted := by
  induction ws generalizing e with
  | nil =>
      have hdrain : handleReadDecoder.drain e.recvBuf = ⟨[], e.recvBuf, false⟩ :=
        Decoder.drain_wait hwait
      simp only [List.nil_append, handleAll, List.flatMap_nil, List.append_nil, hdrain]
      split_ifs
      · exact handleEvents_fin hlast he
      · exact handleEvents_fin hlast he
  | cons w ws ih =>
      obtain ⟨hops, hbuf, hclosed⟩ := handleEvents_data (hws w List.mem_cons_self) he hwait
      rw [List.flatMap_cons, ← List.append_assoc] at hgood ⊢
      -- the data of the first event alone does not make the decoder give up
      have hfirst : (handleReadDecoder.drain (e.recvBuf ++ w.data)).failed = false := by
        by_contra hfail
        have := Decoder.drain_append_failed _ (ws.flatMap Wakeup.data)
          (Bool.not_eq_false _ ▸ hfail)
        rw [hgood] at this
        cases this
      rw [Decoder.drain_append _ _ hfirst] at hgood ⊢
      have hrest := ih (fun w' hw' => hws w' (List.mem_cons_of_mem _ hw')) (e.handleEvents w).2
        (hclosed.trans hfirst) (by rw [hbuf]; exact Decoder.next_drain _ hfirst)
        (by rw [hbuf]; exact hgood)
      rw [List.cons_append, handleAll, if_neg (by rw [hclosed, hfirst]; exact Bool.false_ne_true),
        enqueued_append, hops, hrest, hbuf]
      rfl

end Endpoint

theorem admitted_sublist (load : ℕ → ℕ) (ps : List (PacketHeader × Bytes)) :
    (admitted load ps).Sublist ps := by
  induction ps generalizing load with
  | nil => exact .slnil
  | cons p ps ih =>
      rw [admitted]
      split_ifs
      · exact (ih _).cons p
      · exact (ih _).cons_cons p

theorem admitted_eq_self (load : ℕ → ℕ) (ps : List (PacketHeader × Bytes)) :
    admitted load ps = ps ↔ ∀ k < ps.length, load k ≤ 200000 := by
  induction ps generalizing load with
  | nil => simp [admitted]
  | cons p ps ih =>
      rw [admitted, List.length_cons]
      split_ifs with h
      · refine ⟨fun e => ?_, fun hroom => absurd (hroom 0 (Nat.succ_pos _)) (Nat.not_le.mpr h)⟩
        have hlen := (admitted_sublist (fun k => load (k + 1)) ps).length_le
        rw [e, List.length_cons] at hlen
        exact absurd hlen (Nat.not_succ_le_self _)
      · rw [List.cons_inj_right, ih]
        refine ⟨fun hroom k hk => ?_, fun hroom k hk => hroom (k + 1) (Nat.succ_lt_succ hk)⟩
        cases k with
        | zero => exact Nat.le_of_not_lt h
        | succ k => exact hroom k (Nat.lt_of_succ_lt_succ hk)

/-- The packets of a part of a stream of well-framed packets are all of them only if nothing is missing. -/
theorem emitted_eq_iff {frames : List (PacketHeader × Bytes)} (hf : ∀ p ∈ frames, p.1.Framed p.2)
    {read unread : Bytes} (h : read ++ unread = Decoder.encodeAll packetText frames) :
    (handleReadDecoder.drain read).failed = false ∧
      (handleReadDecoder.drain read).emitted <+: frames ∧
      ((handleReadDecoder.drain read).emitted = frames ↔ unread = []) := by
  have hwhole : handleReadDecoder.drain (read ++ unread) = ⟨frames, [], false⟩ := by
    have hnil : handleReadDecoder.drain [] = ⟨[], [], false⟩ := Decoder.drain_wait rfl
    rw [h, ← List.append_nil (Decoder.encodeAll packetText frames), drain_packets frames hf, hnil,
      Outcome.after, List.append_nil]
  have hgood : (handleReadDecoder.drain read).failed = false := by
    by_contra hfail
    have hbad := Decoder.drain_append_failed read unread (Bool.not_eq_false _ ▸ hfail)
    rw [hwhole] at hbad
    cases hbad
  have hprefix : (handleReadDecoder.drain read).emitted <+: frames := by
    rw [Decoder.drain_append read unread hgood] at hwhole
    exact ⟨_, congrArg Outcome.emitted hwhole⟩
  refine ⟨hgood, hprefix, fun hall => ?_, fun hnone => ?_⟩
  · -- all the packets are in what was read
    have hread := packets_append_buf read
    rw [hall, ← h, List.append_assoc] at hread
    exact (List.append_eq_nil_iff.mp (List.append_right_eq_self.mp hread)).1
  · rw [hnone, List.append_nil] at hwhole
    rw [hwhole]

/-- **When the frames of a client that shuts down get to the pool.** The client has sent well-framed
packets; `unread` is what the events before the one that reports the FIN have not read. All packets are
queued if and only if nothing is unread and the pool has room at each call of `enqueue`. -/
theorem frames_enqueued_iff (frames : List (PacketHeader × Bytes)) (hf : ∀ p ∈ frames, p.1.Framed p.2)
    (e : Endpoint) (hnew : e.recvBuf = []) (hopen : e.closed = false) (early : List Wakeup)
    (hearly : ∀ w ∈ early, w.Data) (last : Wakeup) (hlast : last.Fin) (unread : Bytes)
    (hstream : early.flatMap Wakeup.data ++ unread = Decoder.encodeAll packetText frames)
    (load : ℕ → ℕ) :
    admitted load (enqueued (Endpoint.handleAll (early ++ [last]) e).1) = frames ↔
      unread = [] ∧ ∀ k < frames.length, load k ≤ 200000 := by
  obtain ⟨hgood, hprefix, hall⟩ := emitted_eq_iff hf hstream
  have hwait : handleReadNext e.recvBuf = .wait := by rw [hnew]; rfl
  rw [Endpoint.handleAll_data early hearly last hlast e hopen hwait (by rw [hnew]; exact hgood), hnew,
    List.nil_append]
  constructor
  · intro hadm
    have hlen := (admitted_sublist load (handleReadDecoder.drain (early.flatMap Wakeup.data)).emitted).length_le
    rw [hadm] at hlen
    have heq := hprefix.eq_of_length_le hlen
    rw [heq] at hadm
    exact ⟨hall.mp heq, (admitted_eq_self load frames).mp hadm⟩
  · rintro ⟨hnone, hroom⟩
    rw [hall.mpr hnone]
    exact (admitted_eq_self load frames).mpr hroom

/-- A heartbeat that is read before the FIN is reported. -/
theorem frames_enqueued_sample :
    admitted (fun _ => 0) (enqueued (Endpoint.handleAll ([{
        revents := { input := true }
        reads := [.bytes [0xEF, 0xBE, 0xAD, 0xDE, 0, 0, 0], .bytes [0, 4, 0, 0, 0, 1, 0, 0, 0]] }] ++
      [{ revents := { rdhup := true, input := true } }]) {}).1) = [(⟨protoMagic, 0, 4, 1⟩, [])] :=
  (frames_enqueued_iff [(⟨protoMagic, 0, 4, 1⟩, [])] (by decide) {} rfl rfl
    [{ revents := { input := true }
       reads := [.bytes [0xEF, 0xBE, 0xAD, 0xDE, 0, 0, 0], .bytes [0, 4, 0, 0, 0, 1, 0, 0, 0]] }]
    (by rintro w hw; obtain rfl := List.mem_singleton.mp hw; exact ⟨rfl, rfl, nofun⟩)
    { revents := { rdhup := true, input := true } } (.inl rfl) [] (by decide) fun _ => 0).mpr
    ⟨rfl, fun _ _ => Nat.zero_le _⟩

/-- **A heartbeat that is read together with the FIN is lost**: with `EPOLLRDHUP` nothing is read, and
without it the end of the file comes before the parsing. -/
theorem frames_lost :
    let heartbeat : Bytes := [0xEF, 0xBE, 0xAD, 0xDE, 0, 0, 0, 0, 4, 0, 0, 0, 1, 0, 0, 0]
    Decoder.encodeAll packetText [(⟨protoMagic, 0, 4, 1⟩, [])] = heartbeat ∧
      (⟨protoMagic, 0, 4, 1⟩ : PacketHeader).Framed [] ∧
      enqueued (Endpoint.handleAll [{
        revents := { rdhup := true, input := true }
        reads := [.bytes heartbeat, .bytes []] }] {}).1 = [] ∧
      enqueued (Endpoint.handleAll [{
        revents := { input := true }
        reads := [.bytes heartbeat, .bytes []] }] {}).1 = [] := by
  decide

/-! ## Statements after the close -/

/-- Nothing of the connection runs after its close. -/
def StopsAtClose (ops : List ConnOp) : Prop := ∀ pre post, ops = pre ++ .forceClose :: post → post = []

theorem stops_of_not_mem {ops : List ConnOp} (h : .forceClose ∉ ops) : StopsAtClose ops := by
  rintro pre post rfl
  exact absurd (List.mem_append_right pre List.mem_cons_self) h

theorem stops_concat {ops : List ConnOp} (h : .forceClose ∉ ops) :
    StopsAtClose (ops ++ [.forceClose]) := by
  intro pre post e
  rcases List.append_eq_append_iff.mp e with ⟨mid, rfl, hmid⟩ | ⟨mid, rfl, hmid⟩
  · cases mid with
    | nil => exact (List.cons.inj hmid).2.symm
    | cons op mid => cases List.append_eq_nil_iff.mp (List.cons.inj hmid).2.symm |>.2
  · cases mid with
    | nil => exact (List.cons.inj hmid).2
    | cons op mid =>
        obtain ⟨rfl, -⟩ := List.cons.inj hmid
        exact absurd (List.mem_append_right pre List.mem_cons_self) h

theorem not_stops {ops : List ConnOp} {op : ConnOp} {more : List ConnOp} :
    ¬ StopsAtClose (ops ++ [.forceClose] ++ op :: more) := by
  intro h
  rw [List.append_assoc] at h
  cases h ops (op :: more) rfl

theorem stops_append {ops ops' : List ConnOp} (h : .forceClose ∉ ops) (h' : StopsAtClose ops') :
    StopsAtClose (ops ++ ops') := by
  induction ops with
  | nil => exact h'
  | cons op ops ih =>
      obtain ⟨hop, hops⟩ := not_or.mp (mt List.mem_cons.mpr h)
      intro pre post e
      cases pre with
      | nil => exact absurd (List.cons.inj e).1.symm hop
      | cons op' pre => exact ih hops pre post (List.cons.inj e).2

/-- The statements stop at a close, and there is one exactly if the connection is closed after them. -/
def EndsAtClose (r : List ConnOp × Endpoint) : Prop :=
  if r.2.closed then ∃ ops, .forceClose ∉ ops ∧ r.1 = ops ++ [.forceClose] else .forceClose ∉ r.1

theorem EndsAtClose.stops {r : List ConnOp × Endpoint} (h : EndsAtClose r) : StopsAtClose r.1 := by
  unfold EndsAtClose at h
  split_ifs at h
  · obtain ⟨ops, hops, e⟩ := h
    rw [e]
    exact stops_concat hops
  · exact stops_of_not_mem h

theorem EndsAtClose.append {r : List ConnOp × Endpoint} (h : EndsAtClose r) (ops : List ConnOp)
    (hops : .forceClose ∉ ops) : EndsAtClose (ops ++ r.1, r.2) := by
  unfold EndsAtClose at h ⊢
  split_ifs at h ⊢
  · obtain ⟨ops', hops', e⟩ := h
    refine ⟨ops ++ ops', ?_, by rw [e, List.append_assoc]⟩
    exact fun hmem => (List.mem_append.mp hmem).elim hops hops'
  · exact fun hmem => (List.mem_append.mp hmem).elim hops h

namespace Endpoint

theorem readLoop_ends (reads : List IoResult) (e : Endpoint) (he : e.closed = false) :
    EndsAtClose (readLoop reads e) := by
  induction reads generalizing e with
  | nil => simp [readLoop, EndsAtClose, he]
  | cons r rs ih =>
      rcases r with (_ | ⟨b, bs⟩) | _ | _
      · exact ⟨[.read (.bytes [])], by decide, rfl⟩
      · exact (ih { e with recvBuf := e.recvBuf ++ (b :: bs) } he).append
          [.read (.bytes (b :: bs)), .received (b :: bs)] (by simp)
      · simp [readLoop, EndsAtClose, he]
      · exact ⟨[.read .error], by decide, rfl⟩

theorem parseLoop_ends (e : Endpoint) : EndsAtClose e.parseLoop := by
  have hcut : ∀ ps : List (PacketHeader × Bytes), .forceClose ∉ ps.flatMap cutOps ++ [.inspect] := by
    intro ps hmem
    rcases List.mem_append.mp hmem with hmem | hmem
    · obtain ⟨p, -, hp⟩ := List.mem_flatMap.mp hmem
      simp [cutOps] at hp
    · simp at hmem
  by_cases h : (handleReadDecoder.drain e.recvBuf).failed = true
  · simp only [EndsAtClose, parseLoop, h, if_true]
    exact ⟨_, hcut (handleReadDecoder.drain e.recvBuf).emitted, by simp⟩
  · simp only [EndsAtClose, parseLoop, h]
    exact hcut _

theorem handleRead_ends (reads : List IoResult) (e : Endpoint) (he : e.closed = false) :
    EndsAtClose (e.handleRead reads) := by
  have hloop := readLoop_ends reads e he
  rw [handleRead]
  split_ifs with hclosed
  · exact hloop
  · rw [EndsAtClose, if_neg hclosed] at hloop
    exact (parseLoop_ends _).append _ hloop

theorem handleWrite_ends (writes : List WriteResult) (e : Endpoint) (he : e.closed = false) :
    EndsAtClose (handleWrite writes e) := by
  fun_induction handleWrite writes e with
  | case4 => exact ⟨[.sendEmpty, .write []], by decide, rfl⟩
  | case5 _ _ _ n next ih => exact (ih he).append [.sendEmpty, .write _, .erase _] (by simp)
  | case7 => exact ⟨[.sendEmpty, .write []], by decide, rfl⟩
  | _ => simp [EndsAtClose, drained, he]

theorem handleWrite_ne_nil (writes : List WriteResult) (e : Endpoint) :
    (handleWrite writes e).1 ≠ [] := by
  fun_cases handleWrite writes e <;> exact List.cons_ne_nil _ _

end Endpoint

/-- **When nothing of a connection runs after its close.** `handle_events` on an open connection goes on
after the close exactly when the event is an input and an output without a hang-up and the reading ends
with an end of file, an error or a bad header: `handle_write` then runs on the connection that
`handle_read` has closed. -/
theorem handleEvents_stops_iff (e : Endpoint) (he : e.closed = false) (w : Wakeup) :
    StopsAtClose (e.handleEvents w).1 ↔
      ¬ (w.revents.hangup = false ∧ w.revents.input = true ∧ w.revents.output = true ∧
        (readBroken w.reads = true ∨ Malformed (e.recvBuf ++ readData w.reads))) := by
  by_cases hhang : w.revents.hangup = true
  · rw [Endpoint.handleEvents, if_pos hhang, hhang]
    refine ⟨fun _ h => ?_, fun _ => ?_⟩
    · cases h.1
    · have hnone : ConnOp.forceClose ∉ [] := List.not_mem_nil
      exact stops_concat hnone
  rw [Endpoint.handleEvents, if_neg hhang]
  have hhang' : w.revents.hangup = false := Bool.eq_false_iff.mpr hhang
  by_cases hin : w.revents.input = true
  swap
  · -- no input: only `handle_write` runs
    have hr : e.onInput w = ([], e) := if_neg hin
    refine ⟨fun _ h => hin h.2.1, fun _ => ?_⟩
    simp only [hr, List.nil_append, Endpoint.onOutput]
    split_ifs
    · exact (Endpoint.handleWrite_ends w.writes e he).stops
    · exact stops_of_not_mem List.not_mem_nil
  have hr : e.onInput w = e.handleRead w.reads := if_pos hin
  have hends := Endpoint.handleRead_ends w.reads e he
  have hclosed : (e.handleRead w.reads).2.closed = true ↔
      readBroken w.reads = true ∨ Malformed (e.recvBuf ++ readData w.reads) := by
    rcases Endpoint.handleRead_eq e w.reads he with ⟨hb, -, hend⟩ | ⟨hb, -, hend⟩
    · rw [hend]
      exact ⟨fun _ => .inl hb, fun _ => rfl⟩
    · rw [hend, ← failed_iff, hb]
      exact ⟨.inr, fun h => h.resolve_left Bool.false_ne_true⟩
  simp only [hr, ← hclosed, hhang', hin, true_and]
  by_cases hc : (e.handleRead w.reads).2.closed = true
  · rw [EndsAtClose, if_pos hc] at hends
    obtain ⟨ops, hops, hread⟩ := hends
    rw [hread]
    by_cases hout : w.revents.output = true
    · -- what runs on the closed connection
      obtain ⟨op, more, hmore⟩ :=
        List.exists_cons_of_ne_nil (Endpoint.handleWrite_ne_nil w.writes (e.handleRead w.reads).2)
      rw [Endpoint.onOutput, if_pos hout, hmore]
      exact ⟨fun h => absurd h not_stops, fun h => absurd ⟨hout, hc⟩ h⟩
    · rw [Endpoint.onOutput, if_neg hout, List.append_nil]
      exact ⟨fun _ h => hout h.1, fun _ => stops_concat hops⟩
  · refine ⟨fun _ h => hc h.2, fun _ => ?_⟩
    rw [EndsAtClose, if_neg hc] at hends
    refine stops_append hends ?_
    unfold Endpoint.onOutput
    split_ifs
    · exact (Endpoint.handleWrite_ends w.writes _ (Bool.eq_false_iff.mpr hc)).stops
    · exact stops_of_not_mem List.not_mem_nil

/-- An end of file with nothing to write. -/
theorem handleEvents_stops_sample :
    StopsAtClose (({} : Endpoint).handleEvents
      { revents := { input := true }, reads := [.bytes []] }).1 :=
  (handleEvents_stops_iff {} rfl { revents := { input := true }, reads := [.bytes []] }).mpr
    fun h => Bool.false_ne_true h.2.2.1

/-- **`handle_write` runs on a closed connection**: an input and an output are reported together, and the
client has closed its end. -/
theorem handleWrite_after_close :
    ¬ StopsAtClose (({ sendBuf := [1], writing := true, epollOut := true } : Endpoint).handleEvents
      { revents := { input := true, output := true }, reads := [.bytes []] }).1 := by
  intro h
  cases h [.read (.bytes [])] [.sendEmpty, .write []] rfl

end AuraChat
