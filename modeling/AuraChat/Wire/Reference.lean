import AuraChat.Wire.Framing

set_option autoImplicit false

/-!
# The parser of the server against its reference

`parseStream` is a parser of a whole stream at once. Whatever bytes a client sends, and however they are
cut into reads and calls of `handle_read`, the server hands the same packets to the pool and closes the
connection exactly when that parser stops with an error.

* `parseStream`, `parseStream_eq`: the reference, and that it is the decoder run on the whole stream;
* `Malformed`, `failed_iff`: the streams it refuses;
* `drain_packets`, `prefix_of_wait`: what is left in the buffer of an open connection;
* **`handleReads_parse`**; `handleReads_garbage`: a buffer shorter than a header is not looked at.
-/

namespace AuraChat

open Stream

/-- A parser of a whole stream: its packets, and whether it stops with an error. -/
def parseStream (stream : Bytes) : List (PacketHeader × Bytes) × Bool :=
  if stream.length < headerSize then ([], false)
  else
    let hdr := PacketHeader.ofBytes (stream.take headerSize)
    let rest := stream.drop headerSize
    if hdr.magic ≠ protoMagic ∨ maxBodyLen < hdr.bodyLen then ([], true)
    else if rest.length < hdr.bodyLen.toNat then ([], false)
    else
      let more := parseStream (rest.drop hdr.bodyLen.toNat)
      ((hdr, rest.take hdr.bodyLen.toNat) :: more.1, more.2)
termination_by stream.length
decreasing_by
  simp only [headerSize, List.length_drop] at *
  omega

theorem ofBytes_take {buf : Bytes} (h : headerSize ≤ buf.length) :
    PacketHeader.ofBytes (buf.take headerSize) = PacketHeader.ofBytes buf := by
  have hlen : headerSize ≤ (buf.take headerSize).length := by
    rw [List.length_take]
    exact Nat.le_min.mpr ⟨Nat.le_refl _, h⟩
  rw [← ofBytes_append hlen (buf.drop headerSize), List.take_append_drop]

/-- **The reference is the decoder on the whole stream.** -/
theorem parseStream_eq (stream : Bytes) : parseStream stream =
    ((handleReadDecoder.drain stream).emitted, (handleReadDecoder.drain stream).failed) := by
  induction stream using parseStream.induct with
  | case1 stream h =>
      rw [parseStream, if_pos h, Decoder.drain_wait (if_pos h)]
  | case2 stream h hdr hbad =>
      have h16 : headerSize ≤ stream.length := Nat.le_of_not_lt h
      have hfail := handleReadNext_fail h16 (ofBytes_take h16).symm hbad
      rw [parseStream, if_neg h, if_pos hbad, Decoder.drain_fail hfail]
  | case3 stream h hdr rest hgood hshort =>
      have h16 : headerSize ≤ stream.length := Nat.le_of_not_lt h
      have hwait : handleReadNext stream = .wait := by
        have hlen : stream.length < headerSize + hdr.bodyLen.toNat := by
          rw [List.length_drop] at hshort
          omega
        simp only [handleReadNext, if_neg h, ← ofBytes_take h16]
        rw [if_neg hgood, if_pos hlen]
      rw [parseStream, if_neg h, if_neg hgood, if_pos hshort, Decoder.drain_wait hwait]
  | case4 stream h hdr rest hgood hlong ih =>
      have h16 : headerSize ≤ stream.length := Nat.le_of_not_lt h
      obtain ⟨hm, hb⟩ := not_or.mp hgood
      have hlen : headerSize + hdr.bodyLen.toNat ≤ stream.length := by
        rw [List.length_drop] at hlong
        omega
      have hdrain : handleReadDecoder.drain stream =
          (handleReadDecoder.drain (stream.drop (headerSize + hdr.bodyLen.toNat))).after
            [(hdr, (stream.drop headerSize).take hdr.bodyLen.toNat)] :=
        Decoder.drain_emit (handleReadNext_emit (ofBytes_take h16).symm (not_not.mp hm)
          (UInt32.not_lt.mp hb) hlen)
      rw [parseStream, if_neg h, if_neg hgood, if_neg hlong, ih, hdrain, ← List.drop_drop]
      rfl

/-- The streams that have a bad header where a packet is to start. -/
def Malformed (stream : Bytes) : Prop :=
  ∃ (frames : List (PacketHeader × Bytes)) (rest : Bytes), (∀ p ∈ frames, p.1.Framed p.2) ∧
    stream = Decoder.encodeAll packetText frames ++ rest ∧ headerSize ≤ rest.length ∧
    ((PacketHeader.ofBytes rest).magic ≠ protoMagic ∨ maxBodyLen < (PacketHeader.ofBytes rest).bodyLen)

/-! ## What is left -/

theorem handleReadNext_append {buf rest : Bytes} {p : PacketHeader × Bytes}
    (h : handleReadNext buf = .emit p rest) : packetText p ++ rest = buf := by
  rcases handleReadNext_cases buf with hw | ⟨h16, hbad⟩ | ⟨hdr, hh, hm, hb, hlen⟩
  · rw [hw] at h; cases h
  · rw [handleReadNext_fail h16 rfl hbad] at h; cases h
  · rw [handleReadNext_emit hh hm hb hlen] at h
    cases h
    have h16 : headerSize ≤ buf.length := by omega
    rw [packetText, ← hh, toBytes_ofBytes h16, List.append_assoc, ← List.drop_drop,
      List.take_append_drop, List.take_append_drop]

/-- **The decoder cuts the stream into packets and a rest**, and nothing is lost. -/
theorem packets_append_buf (stream : Bytes) :
    Decoder.encodeAll packetText (handleReadDecoder.drain stream).emitted ++
      (handleReadDecoder.drain stream).buf = stream := by
  induction stream using Decoder.drain.induct handleReadDecoder with
  | case1 buf hv => rw [Decoder.drain_wait hv]; rfl
  | case2 buf hv => rw [Decoder.drain_fail hv]; rfl
  | case3 buf rest hv =>
      rcases handleReadNext_cases buf with hw | ⟨h16, hbad⟩ | ⟨hdr, hh, hm, hb, hlen⟩
      · cases hv.symm.trans hw
      · cases hv.symm.trans (handleReadNext_fail h16 rfl hbad)
      · cases hv.symm.trans (handleReadNext_emit hh hm hb hlen)
  | case4 buf p rest hv _ ih =>
      rw [Decoder.drain_emit hv]
      calc packetText p ++ Decoder.encodeAll packetText (handleReadDecoder.drain rest).emitted ++
            (handleReadDecoder.drain rest).buf
          = packetText p ++ rest := by rw [List.append_assoc, ih]
        _ = buf := handleReadNext_append hv

theorem drain_packets (frames : List (PacketHeader × Bytes)) (hf : ∀ p ∈ frames, p.1.Framed p.2)
    (rest : Bytes) : handleReadDecoder.drain (Decoder.encodeAll packetText frames ++ rest) =
      (handleReadDecoder.drain rest).after frames := by
  rw [Decoder.drain_encodeAll_append id, List.map_id]
  intro p hp more
  obtain ⟨hm, hb, hlen⟩ := hf p hp
  exact handleReadNext_packet hm hb hlen more

/-- **The decoder gives up exactly on the malformed streams.** -/
theorem failed_iff (stream : Bytes) :
    (handleReadDecoder.drain stream).failed = true ↔ Malformed stream := by
  constructor
  · intro h
    have hfail := Decoder.next_drain_failed stream h
    refine ⟨(handleReadDecoder.drain stream).emitted, (handleReadDecoder.drain stream).buf,
      Decoder.drain_forall (fun _ _ _ => handleReadNext_framed) stream,
      (packets_append_buf stream).symm, ?_⟩
    rcases handleReadNext_cases (handleReadDecoder.drain stream).buf with
      hw | hbad | ⟨hdr, hh, hm, hb, hlen⟩
    · cases hfail.symm.trans hw
    · exact hbad
    · cases hfail.symm.trans (handleReadNext_emit hh hm hb hlen)
  · rintro ⟨frames, rest, hf, rfl, h16, hbad⟩
    have hfail : handleReadDecoder.next rest = .fail := handleReadNext_fail h16 rfl hbad
    rw [drain_packets frames hf, Decoder.drain_fail hfail]
    rfl

/-- A buffer in which the parsing loop finds nothing to do is shorter than a header, or a proper prefix
of a well-framed packet. -/
theorem prefix_of_wait {buf : Bytes} (h : handleReadNext buf = .wait) :
    buf.length < headerSize ∨
      ∃ hdr body, hdr.Framed body ∧ buf <+: packetText (hdr, body) ∧ buf ≠ packetText (hdr, body) := by
  by_cases h16 : buf.length < headerSize
  · exact .inl h16
  have h16' : headerSize ≤ buf.length := Nat.le_of_not_lt h16
  simp only [handleReadNext, if_neg h16] at h
  split_ifs at h with hbad hshort
  obtain ⟨hm, hb⟩ := not_or.mp hbad
  -- the packet with the header that is there, its body filled up with zeros
  let hdr := PacketHeader.ofBytes buf
  let missing : Bytes := List.replicate (headerSize + hdr.bodyLen.toNat - buf.length) 0
  have htext : packetText (hdr, buf.drop headerSize ++ missing) = buf ++ missing := by
    rw [packetText, toBytes_ofBytes h16', ← List.append_assoc, List.take_append_drop]
  refine .inr ⟨hdr, buf.drop headerSize ++ missing, ⟨not_not.mp hm, UInt32.not_lt.mp hb, ?_⟩, ?_, ?_⟩
  · rw [List.length_append, List.length_drop, List.length_replicate]
    change headerSize + hdr.bodyLen.toNat > buf.length at hshort
    omega
  · rw [htext]
    exact List.prefix_append _ _
  · rw [htext]
    intro e
    have hlen := congrArg List.length e
    rw [List.length_append, List.length_replicate] at hlen
    change headerSize + hdr.bodyLen.toNat > buf.length at hshort
    omega

theorem length_lt_of_wait {buf : Bytes} (h : handleReadNext buf = .wait) :
    buf.length < headerSize + maxBodyLen.toNat := by
  rcases prefix_of_wait h with h16 | ⟨hdr, body, ⟨-, hb, hlen⟩, hpre, hne⟩
  · exact Nat.lt_of_lt_of_le h16 (Nat.le_add_right _ _)
  · have hlt : buf.length < (packetText (hdr, body)).length :=
      Nat.lt_of_le_of_ne hpre.length_le fun e => hne (hpre.eq_of_length e)
    rw [packetText, List.length_append, length_toBytes] at hlt
    change buf.length < headerSize + body.length at hlt
    have := UInt32.le_iff_toNat_le.mp hb
    omega

/-! ## The parser of the server -/

/-- **The server parses a stream as the reference does.** For every stream and every way to cut it into
reads and calls of `handle_read`, the packets handed to the pool are those of `parseStream`, and the
connection is closed if and only if that stops with an error. While it is open, the buffer is shorter
than a header or a proper prefix of one well-framed packet, and shorter than the longest packet. A pool
with room queues the packets in this order. -/
theorem handleReads_parse (calls : List (List Bytes))
    (hsize : ∀ reads ∈ calls, ∀ r ∈ reads, 1 ≤ r.length ∧ r.length ≤ 8192) :
    let o := handleReads (calls.map (List.map .bytes))
    (o.emitted, o.failed) = parseStream calls.flatten.flatten ∧
      (o.failed = false →
        (o.buf.length < headerSize ∨ ∃ hdr body, hdr.Framed body ∧
          o.buf <+: packetText (hdr, body) ∧ o.buf ≠ packetText (hdr, body)) ∧
        o.buf.length < headerSize + maxBodyLen.toNat) ∧
      ∀ (src : Origin) (s : State), s.tasks.length + o.emitted.length ≤ 200001 →
        ((o.emitted.map fun p => Task.business src p.1 p.2).foldl (fun s t => s.enqueue t) s).tasks =
          s.tasks ++ o.emitted.map fun p => Task.business src p.1 p.2 := by
  intro o
  have hne : ∀ reads ∈ calls, ∀ r ∈ reads, r ≠ [] := by
    intro reads hreads r hr e
    have := (hsize reads hreads r hr).1
    rw [e] at this
    cases this
  have ho : o = (calls.map List.flatten).foldl handleReadDecoder.feed ⟨[], [], false⟩ :=
    foldl_handleRead_bytes calls hne _
  have hstart : handleReadDecoder.next [] = .wait := rfl
  obtain ⟨hemitted, hfailed⟩ := Decoder.feed_agrees (D := handleReadDecoder) (calls.map List.flatten)
    ⟨[], [], false⟩ rfl hstart
  rw [← ho, List.nil_append, List.nil_append, ← List.flatten_flatten] at hemitted
  rw [← ho, List.nil_append, ← List.flatten_flatten] at hfailed
  refine ⟨by rw [parseStream_eq, hemitted, hfailed], fun hopen => ?_,
    fun src s hroom => foldl_enqueue _ s (by rw [List.length_map]; exact hroom)⟩
  have hwait : handleReadNext o.buf = .wait := by
    rw [ho] at hopen ⊢
    exact Decoder.next_foldl_feed _ _ hstart hopen
  exact ⟨prefix_of_wait hwait, length_lt_of_wait hwait⟩

/-- A packet, a header that is cut in two, and a bad header. -/
theorem handleReads_parse_sample :
    let o := handleReads [[.bytes [0xEF, 0xBE, 0xAD, 0xDE, 1, 0, 0, 0, 4, 0, 0, 0, 1, 0, 0, 0, 7, 9]],
      [.bytes [0, 0, 0, 0, 0, 0, 0, 0, 0, 0, 0, 0, 0], .bytes [0, 0]]]
    (o.emitted, o.failed) = parseStream [0xEF, 0xBE, 0xAD, 0xDE, 1, 0, 0, 0, 4, 0, 0, 0, 1, 0, 0, 0, 7, 9,
      0, 0, 0, 0, 0, 0, 0, 0, 0, 0, 0, 0, 0, 0, 0] :=
  (handleReads_parse [[[0xEF, 0xBE, 0xAD, 0xDE, 1, 0, 0, 0, 4, 0, 0, 0, 1, 0, 0, 0, 7, 9]],
    [[0, 0, 0, 0, 0, 0, 0, 0, 0, 0, 0, 0, 0], [0, 0]]] (by decide)).1

/-- **A buffer shorter than a header need not start a packet**: a connection that has sent one zero byte
is open, and no well-framed packet starts with it. -/
theorem handleReads_garbage :
    (handleReads [[.bytes [0]]]).failed = false ∧
      ¬ ∃ hdr body, hdr.Framed body ∧ (handleReads [[.bytes [0]]]).buf <+: packetText (hdr, body) ∧
        (handleReads [[.bytes [0]]]).buf ≠ packetText (hdr, body) := by
  have hread : handleReads [[.bytes [0]]] = ⟨[], [0], false⟩ := by
    have hwait : handleReadDecoder.next [0] = .wait := rfl
    change (handleReadDecoder.drain [0]).after [] = _
    rw [Decoder.drain_wait hwait]
    rfl
  rw [hread]
  refine ⟨rfl, ?_⟩
  rintro ⟨hdr, body, ⟨hm, -, -⟩, ⟨rest, hpre⟩, -⟩
  have hfirst := congrArg (List.head? ·) hpre
  rw [packetText, PacketHeader.toBytes, hm] at hfirst
  cases hfirst

end AuraChat
