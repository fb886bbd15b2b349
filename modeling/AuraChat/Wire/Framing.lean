import AuraChat.Model.Server
import AuraChat.Wire.Packets

set_option autoImplicit false

/-!
# Framing

Packets arrive as they were sent, however the stream is cut into reads. The server reads until there
is nothing more to read and then cuts packets off; the client cuts after every `recv` and, unlike the
server, looks for the next magic number when the stream is out of step.

* `handleRead`, **`client_packets_arrive`**: from the client to the server;
* `receiveLoop`, **`server_packets_arrive`**: from the server to the client, after any garbage that
  does not contain the magic number.
-/

namespace AuraChat

open Stream

/-! ## From the client to the server -/

/-- A connection that reads: the packets handed to `g_workers->enqueue`, `recv_buf`, and whether the
connection is closed. -/
abbrev Reader : Type := Outcome UInt8 (PacketHeader × Bytes)

/-- One call of `handle_read`. -/
def handleRead (o : Reader) (results : List IoResult) : Reader :=
  if o.failed then o
  else match readLoop results o.buf with
    | none => { o with failed := true }
    | some buf => (handleReadDecoder.drain buf).after o.emitted

/-- The calls of `handle_read` on a new connection. -/
def handleReads (calls : List (List IoResult)) : Reader := calls.foldl handleRead ⟨[], [], false⟩

theorem readLoop_bytes (reads : List Bytes) (hne : ∀ r ∈ reads, r ≠ []) (buf : Bytes) :
    readLoop (reads.map .bytes) buf = some (buf ++ reads.flatten) := by
  induction reads generalizing buf with
  | nil => simp [readLoop]
  | cons r reads ih =>
      have hr := hne r List.mem_cons_self
      obtain ⟨b, bs, rfl⟩ := List.exists_cons_of_ne_nil hr
      rw [List.map_cons, readLoop, ih fun r' hr' => hne r' (List.mem_cons_of_mem _ hr')]
      · rw [List.flatten_cons, List.append_assoc]
      · exact hr

theorem handleRead_bytes (o : Reader) (reads : List Bytes) (hne : ∀ r ∈ reads, r ≠ []) :
    handleRead o (reads.map .bytes) = handleReadDecoder.feed o reads.flatten := by
  simp only [handleRead, Decoder.feed, readLoop_bytes reads hne]

/-- The packets that `send_packet` makes, when `seq_` is `seq` before the first. -/
def sentPackets (seq : UInt32) (ps : List (UInt32 × Bytes)) : List (PacketHeader × Bytes) :=
  ps.mapIdx fun i p => (headerOf p.1 (seq + (i + 1).toUInt32) p.2, p.2)

theorem sentPackets_cons (seq cmd : UInt32) (body : Bytes) (ps : List (UInt32 × Bytes)) :
    sentPackets seq ((cmd, body) :: ps) =
      (headerOf cmd (seq + 1) body, body) :: sentPackets (seq + 1) ps := by
  rw [sentPackets, List.mapIdx_cons]
  have hseq : ∀ i : ℕ, seq + (i + 1 + 1).toUInt32 = seq + 1 + (i + 1).toUInt32 := by
    intro i
    rw [Nat.toUInt32_eq, UInt32.ofNat_add, UInt32.add_comm _ (UInt32.ofNat 1), ← UInt32.add_assoc]
    rfl
  simp only [hseq]
  rfl

/-- The bytes of a packet. -/
def packetText (p : PacketHeader × Bytes) : Bytes := p.1.toBytes ++ p.2

theorem sendPacket_eq (seq cmd : UInt32) (body : Bytes) :
    sendPacket seq cmd body = packetText (headerOf cmd seq body, body) := by
  rw [sendPacket, packetText]
  split_ifs with h
  · rw [h]
  · rfl

theorem sendPackets_eq (seq : UInt32) (ps : List (UInt32 × Bytes)) :
    sendPackets seq ps = Decoder.encodeAll packetText (sentPackets seq ps) := by
  induction ps generalizing seq with
  | nil => rfl
  | cons p ps ih =>
      obtain ⟨cmd, body⟩ := p
      rw [sentPackets_cons, sendPackets, sendPacket_eq, ih]
      rfl

theorem framed_of_mem_sentPackets {seq : UInt32} {ps : List (UInt32 × Bytes)}
    (h : ∀ p ∈ ps, p.2.length ≤ maxBodyLen.toNat) {q : PacketHeader × Bytes}
    (hq : q ∈ sentPackets seq ps) : q.1.Framed q.2 := by
  induction ps generalizing seq with
  | nil => cases hq
  | cons p ps ih =>
      obtain ⟨cmd, body⟩ := p
      rw [sentPackets_cons] at hq
      rcases List.mem_cons.mp hq with rfl | hq
      · have hlen : body.length ≤ 65535 := h (cmd, body) List.mem_cons_self
        have hb : body.length.toUInt32.toNat = body.length :=
          toNat_length (by unfold uint32Size; omega)
        refine ⟨rfl, UInt32.le_iff_toNat_le.mpr ?_, hb.symm⟩
        change body.length.toUInt32.toNat ≤ 65535
        rw [hb]
        exact hlen
      · exact ih (fun p hp => h p (List.mem_cons_of_mem _ hp)) hq

theorem drain_sendPackets (seq : UInt32) (ps : List (UInt32 × Bytes))
    (h : ∀ p ∈ ps, p.2.length ≤ maxBodyLen.toNat) :
    handleReadDecoder.drain (sendPackets seq ps) = ⟨sentPackets seq ps, [], false⟩ := by
  rw [sendPackets_eq, Decoder.drain_encodeAll id, List.map_id]
  · rintro ⟨hdr, body⟩ hq more
    obtain ⟨hm, hb, hlen⟩ := framed_of_mem_sentPackets h hq
    exact handleReadNext_packet hm hb hlen more
  · rfl

theorem foldl_handleRead_bytes (calls : List (List Bytes)) (hne : ∀ reads ∈ calls, ∀ r ∈ reads, r ≠ [])
    (o : Reader) : (calls.map (List.map .bytes)).foldl handleRead o =
      (calls.map List.flatten).foldl handleReadDecoder.feed o := by
  induction calls generalizing o with
  | nil => rfl
  | cons reads calls ih =>
      simp only [List.map_cons, List.foldl_cons]
      rw [handleRead_bytes o reads (hne reads List.mem_cons_self),
        ih fun reads' hr => hne reads' (List.mem_cons_of_mem _ hr)]

theorem foldl_enqueue (ts : List Task) (s : State) (h : s.tasks.length + ts.length ≤ 200001) :
    (ts.foldl (fun s t => s.enqueue t) s).tasks = s.tasks ++ ts := by
  induction ts generalizing s with
  | nil => simp
  | cons t ts ih =>
      rw [List.length_cons] at h
      have hs : (s.enqueue t).tasks = s.tasks ++ [t] := by
        rw [State.enqueue, if_neg (by omega)]
      rw [List.foldl_cons, ih, hs, List.append_assoc]
      · rfl
      · rw [hs, List.length_append, List.length_singleton]
        omega

/-- **The packets of a client arrive as they were sent.** Whatever `(cmd, body)` are sent with bodies
within the limit, and however the bytes are cut into reads and the reads into calls of `handle_read`,
the connection stays open, the packets handed to the pool are those sent, numbered from 1, and the
buffer ends empty. A pool with room queues them in this order. -/
theorem client_packets_arrive (ps : List (UInt32 × Bytes))
    (hlen : ∀ p ∈ ps, p.2.length ≤ maxBodyLen.toNat) (calls : List (List Bytes))
    (hsize : ∀ reads ∈ calls, ∀ r ∈ reads, 1 ≤ r.length ∧ r.length ≤ 8192)
    (hstream : calls.flatten.flatten = sendPackets 0 ps) :
    let packets := ps.mapIdx fun i p => (headerOf p.1 (i + 1).toUInt32 p.2, p.2)
    handleReads (calls.map (List.map .bytes)) = ⟨packets, [], false⟩ ∧
      ∀ (o : Origin) (s : State), s.tasks.length + ps.length ≤ 200001 →
        ((packets.map fun p => Task.business o p.1 p.2).foldl (fun s t => s.enqueue t) s).tasks =
          s.tasks ++ packets.map fun p => Task.business o p.1 p.2 := by
  intro packets
  have hne : ∀ reads ∈ calls, ∀ r ∈ reads, r ≠ [] := by
    intro reads hreads r hr e
    have := (hsize reads hreads r hr).1
    rw [e] at this
    cases this
  have hflat : (calls.map List.flatten).flatten = sendPackets 0 ps := by
    rw [← hstream, List.flatten_flatten]
  have hpackets : sentPackets 0 ps = packets := by
    simp only [sentPackets, UInt32.zero_add, packets]
  have hdrain := drain_sendPackets 0 ps hlen
  rw [hpackets] at hdrain
  refine ⟨?_, fun o s hroom => foldl_enqueue _ s (by simpa [packets] using hroom)⟩
  rw [handleReads, foldl_handleRead_bytes calls hne, Decoder.feed_eq_drain _ _ rfl rfl]
  · rw [List.nil_append, hflat, hdrain]
    rfl
  · rw [List.nil_append, hflat, hdrain]

/-- A heartbeat and a chat packet, cut in the first header, in the second header and in its body. -/
theorem client_packets_arrive_sample :
    sendPackets 0 [(4, []), (2, [1, 2])] = [[0xEF, 0xBE, 0xAD],
      [0xDE, 0, 0, 0, 0, 4, 0, 0, 0, 1, 0, 0, 0, 0xEF, 0xBE], [0xAD, 0xDE, 2, 0, 0, 0, 2, 0, 0, 0, 2, 0,
      0, 0, 1], [2]].flatten ∧
    handleReads [[.bytes [0xEF, 0xBE, 0xAD]],
      [.bytes [0xDE, 0, 0, 0, 0, 4, 0, 0, 0, 1, 0, 0, 0, 0xEF, 0xBE],
        .bytes [0xAD, 0xDE, 2, 0, 0, 0, 2, 0, 0, 0, 2, 0, 0, 0, 1]], [.bytes [2]]] =
      ⟨[(⟨protoMagic, 0, 4, 1⟩, []), (⟨protoMagic, 2, 2, 2⟩, [1, 2])], [], false⟩ :=
  ⟨by decide, (client_packets_arrive [(4, []), (2, [1, 2])] (by decide)
    [[[0xEF, 0xBE, 0xAD]],
      [[0xDE, 0, 0, 0, 0, 4, 0, 0, 0, 1, 0, 0, 0, 0xEF, 0xBE],
        [0xAD, 0xDE, 2, 0, 0, 0, 2, 0, 0, 0, 2, 0, 0, 0, 1]], [[2]]] (by decide) (by decide)).1⟩

/-! ## From the server to the client -/

/-- The client in `receive_loop`: the packets that it has taken out, its buffer, and whether it has
stopped. -/
abbrev Receiver : Type := Outcome UInt8 (UInt32 × Bytes)

/-- One turn of `receive_loop`. -/
def receiveStep (o : Receiver) : IoResult → Receiver
  | .bytes [] => { o with failed := true }
  | .bytes chunk => receiveDecoder.feed o chunk
  | .again => o
  | .error => { o with failed := true }

def receiveLoop (results : List IoResult) : Receiver := results.foldl receiveStep ⟨[], [], false⟩

theorem foldl_receiveStep_bytes (recvs : List Bytes) (hne : ∀ r ∈ recvs, r ≠ []) (o : Receiver) :
    (recvs.map .bytes).foldl receiveStep o = recvs.foldl receiveDecoder.feed o := by
  induction recvs generalizing o with
  | nil => rfl
  | cons r recvs ih =>
      have hr := hne r List.mem_cons_self
      obtain ⟨b, bs, rfl⟩ := List.exists_cons_of_ne_nil hr
      rw [List.map_cons, List.foldl_cons, List.foldl_cons,
        ih fun r' hr' => hne r' (List.mem_cons_of_mem _ hr')]
      rfl

/-- The bytes of packets `(cmd, seq, body)`, one after another. -/
def packetsOf (ps : List (UInt32 × UInt32 × Bytes)) : Bytes :=
  Decoder.encodeAll (fun p => packetOf p.1 p.2.1 p.2.2) ps

theorem packetsOf_cases (ps : List (UInt32 × UInt32 × Bytes)) :
    (ps = [] ∧ packetsOf ps = []) ∨ ∃ rest, packetsOf ps = word protoMagic ++ rest ∧
      headerSize ≤ (packetsOf ps).length := by
  cases ps with
  | nil => exact .inl ⟨rfl, rfl⟩
  | cons p ps =>
      refine .inr ⟨word p.2.2.length.toUInt32 ++ (word p.1 ++ (word p.2.1 ++ (p.2.2 ++ packetsOf ps))),
        ?_, ?_⟩
      · change packetOf p.1 p.2.1 p.2.2 ++ packetsOf ps = _
        simp only [packetOf, PacketHeader.toBytes, headerOf, List.append_assoc]
      · change headerSize ≤ (packetOf p.1 p.2.1 p.2.2 ++ packetsOf ps).length
        rw [packetOf, List.length_append, List.length_append, length_toBytes]
        omega

/-- **No header straddles the garbage and the first packet**: the bytes of the magic number are
different, so its start inside the garbage would make it end there. -/
theorem magic_ne_of_garbage {b : UInt8} {g : Bytes} (hg : ¬ word protoMagic <:+: b :: g)
    (ps : List (UInt32 × UInt32 × Bytes)) (hlen : headerSize ≤ (b :: g ++ packetsOf ps).length) :
    (PacketHeader.ofBytes (b :: g ++ packetsOf ps)).magic ≠ protoMagic := by
  intro hm
  have htake : (b :: g ++ packetsOf ps).take 4 = word protoMagic := by
    rw [take_of_ofWord (Nat.le_trans (by decide) hlen)]
    exact congrArg word hm
  by_cases h4 : 4 ≤ (b :: g).length
  · rw [List.take_append_of_le_length h4] at htake
    exact hg (htake ▸ (List.take_prefix 4 _).isInfix)
  · -- the magic number would start with the last bytes of the garbage
    rcases packetsOf_cases ps with ⟨-, hnil⟩ | ⟨rest, hps, -⟩
    · rw [hnil, List.append_nil] at hlen
      exact h4 (Nat.le_trans (by decide) hlen)
    · rw [hps] at htake
      have hw : word protoMagic = [0xEF, 0xBE, 0xAD, 0xDE] := by decide
      rw [hw] at htake
      match g, h4 with
      | [], _ => simp at htake
      | [_], _ => simp at htake
      | [_, _], _ => simp at htake
      | _ :: _ :: _ :: _, h4 => exact h4 (by simp)

theorem drain_garbage (g : Bytes) (hg : ¬ word protoMagic <:+: g)
    (ps : List (UInt32 × UInt32 × Bytes))
    (hlen : ∀ p ∈ ps, p.2.2.length < uint32Size - headerSize) :
    ∃ buf, receiveDecoder.drain (g ++ packetsOf ps) = ⟨ps.map fun p => (p.1, p.2.2), buf, false⟩ ∧
      (ps ≠ [] → buf = []) := by
  induction g with
  | nil =>
      refine ⟨[], ?_, fun _ => rfl⟩
      rw [List.nil_append, packetsOf, Decoder.drain_encodeAll]
      · exact fun p hp more => receiveNext_packet p.1 p.2.1 (hlen p hp) more
      · rfl
  | cons b g ih =>
      by_cases h16 : headerSize ≤ (b :: g ++ packetsOf ps).length
      · have hskip := receiveNext_skip h16 (magic_ne_of_garbage hg ps h16)
        rw [Decoder.drain_skip hskip]
        exact ih fun hin => hg (hin.trans (List.suffix_cons b g).isInfix)
      · rcases packetsOf_cases ps with ⟨rfl, -⟩ | ⟨-, -, hps⟩
        · refine ⟨_, Decoder.drain_wait (if_pos (Nat.lt_of_not_le h16)), fun hne => absurd rfl hne⟩
        · rw [List.length_append] at h16
          omega

/-- **The packets of the server arrive, after any garbage.** After bytes `g` that do not contain the
magic number, and however the stream is cut into results of `recv`, the client takes out exactly the
packets of the server, in order, goes on running, and ends with an empty buffer if there was a
packet. -/
theorem server_packets_arrive (g : Bytes) (hg : ¬ word protoMagic <:+: g)
    (ps : List (UInt32 × UInt32 × Bytes))
    (hlen : ∀ p ∈ ps, p.2.2.length < uint32Size - headerSize) (recvs : List Bytes)
    (hsize : ∀ r ∈ recvs, 1 ≤ r.length ∧ r.length ≤ 4096)
    (hstream : recvs.flatten = g ++ ps.flatMap fun p => packetOf p.1 p.2.1 p.2.2) :
    (receiveLoop (recvs.map .bytes)).emitted = ps.map (fun p => (p.1, p.2.2)) ∧
      (receiveLoop (recvs.map .bytes)).failed = false ∧
      (ps ≠ [] → (receiveLoop (recvs.map .bytes)).buf = []) := by
  have hne : ∀ r ∈ recvs, r ≠ [] := by
    intro r hr e
    have := (hsize r hr).1
    rw [e] at this
    cases this
  obtain ⟨buf, hdrain, hbuf⟩ := drain_garbage g hg ps hlen
  have hwhole : receiveDecoder.drain recvs.flatten = ⟨ps.map fun p => (p.1, p.2.2), buf, false⟩ := by
    rw [hstream]
    exact hdrain
  have hloop : receiveLoop (recvs.map .bytes) = ⟨ps.map fun p => (p.1, p.2.2), buf, false⟩ := by
    rw [receiveLoop, foldl_receiveStep_bytes recvs hne, Decoder.feed_eq_drain _ _ rfl rfl]
    · rw [List.nil_append, hwhole]
      rfl
    · rw [List.nil_append, hwhole]
  rw [hloop]
  exact ⟨rfl, rfl, hbuf⟩

/-- Garbage that ends with the first bytes of the magic number, and one chat packet, cut in the
garbage and in the header. -/
theorem server_packets_arrive_sample :
    (receiveLoop [.bytes [7, 0xEF, 0xBE], .bytes [0xAD, 0xEF, 0xBE, 0xAD, 0xDE, 1, 0, 0],
      .bytes [0, 2, 0, 0, 0, 0, 0, 0, 0, 9]]).emitted = [(2, [9])] :=
  (server_packets_arrive [7, 0xEF, 0xBE, 0xAD] (by decide) [(2, 0, [9])] (by decide)
    [[7, 0xEF, 0xBE], [0xAD, 0xEF, 0xBE, 0xAD, 0xDE, 1, 0, 0], [0, 2, 0, 0, 0, 0, 0, 0, 0, 9]]
    (by decide) (by decide)).1

end AuraChat
