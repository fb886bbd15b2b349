import AuraChat.Model.Framing

set_option autoImplicit false

/-!
# Cutting packets off a buffer

The two parsing loops are decoders: each turn uses input up, and what it decides on the front of the
buffer stands when more bytes follow.

* `ofWord_word`, `ofBytes_toBytes`: headers are read back as they were written;
* `handleReadDecoder`, `receiveDecoder`: the loops as decoders;
* **`handleReadNext_packet`**, **`receiveNext_packet`**: a packet at the front is cut off whole;
* `handleReadNext_framed`: what `handle_read` hands on has passed the tests of `Framed`.
-/

namespace AuraChat

open Stream

/-! ## Headers -/

theorem ofWord_word (x : UInt32) (more : Bytes) : ofWord (word x ++ more) = x := by
  have hx := x.toNat_lt
  have h₀ : x.toUInt8.toNat = x.toNat % 256 := by simp
  have h₁ : (x >>> 8).toUInt8.toNat = x.toNat / 256 % 256 := by
    simp [Nat.shiftRight_eq_div_pow]
  have h₂ : (x >>> 16).toUInt8.toNat = x.toNat / 65536 % 256 := by
    simp [Nat.shiftRight_eq_div_pow]
  have h₃ : (x >>> 24).toUInt8.toNat = x.toNat / 16777216 % 256 := by
    simp [Nat.shiftRight_eq_div_pow]
  have hsum : x.toUInt8.toNat + 256 * (x >>> 8).toUInt8.toNat + 65536 * (x >>> 16).toUInt8.toNat +
      16777216 * (x >>> 24).toUInt8.toNat = x.toNat := by omega
  simp only [word, List.cons_append, List.nil_append, ofWord, hsum, UInt32.ofNat_toNat]

theorem ofWord_append {buf : Bytes} (h : 4 ≤ buf.length) (more : Bytes) :
    ofWord (buf ++ more) = ofWord buf := by
  match buf, h with
  | _ :: _ :: _ :: _ :: _, _ => rfl

theorem take_of_ofWord {buf : Bytes} (h : 4 ≤ buf.length) : buf.take 4 = word (ofWord buf) := by
  match buf, h with
  | b₀ :: b₁ :: b₂ :: b₃ :: _, _ =>
      have l₀ := b₀.toNat_lt
      have l₁ := b₁.toNat_lt
      have l₂ := b₂.toNat_lt
      have l₃ := b₃.toNat_lt
      have hn : b₀.toNat + 256 * b₁.toNat + 65536 * b₂.toNat + 16777216 * b₃.toNat < 4294967296 := by
        omega
      simp only [List.take_succ_cons, List.take_zero, word, ofWord, List.cons.injEq, and_true]
      refine ⟨?_, ?_, ?_, ?_⟩ <;> apply UInt8.toNat_inj.mp <;>
        simp [Nat.shiftRight_eq_div_pow] <;> omega

theorem length_word (x : UInt32) : (word x).length = 4 := rfl

theorem length_toBytes (hdr : PacketHeader) : hdr.toBytes.length = headerSize := rfl

theorem ofBytes_toBytes (hdr : PacketHeader) (more : Bytes) :
    PacketHeader.ofBytes (hdr.toBytes ++ more) = hdr := by
  obtain ⟨magic, bodyLen, cmd, seq⟩ := hdr
  have drop4 : ∀ (x : UInt32) (rest : Bytes), (word x ++ rest).drop 4 = rest :=
    fun x rest => List.drop_left' (length_word x)
  have drop_add : ∀ (k : ℕ) (x : UInt32) (rest : Bytes),
      (word x ++ rest).drop (k + 4) = rest.drop k := by
    intro k x rest
    rw [Nat.add_comm, ← List.drop_drop, drop4]
  simp only [PacketHeader.ofBytes, PacketHeader.toBytes, List.append_assoc, drop4, drop_add 4,
    drop_add 8, ofWord_word]

theorem toBytes_ofBytes {buf : Bytes} (h : headerSize ≤ buf.length) :
    (PacketHeader.ofBytes buf).toBytes = buf.take headerSize := by
  have h16 : 16 ≤ buf.length := h
  have hword : ∀ k, k + 4 ≤ 16 → word (ofWord (buf.drop k)) = (buf.drop k).take 4 := by
    intro k hk
    exact (take_of_ofWord (by rw [List.length_drop]; omega)).symm
  have htake : ∀ k l : ℕ, buf.take k ++ (buf.drop k).take l = buf.take (k + l) :=
    fun k l => List.take_add.symm
  rw [PacketHeader.toBytes, PacketHeader.ofBytes, hword 4 (by decide), hword 8 (by decide),
    hword 12 (by decide), ← take_of_ofWord (Nat.le_trans (by decide) h), htake 4 4, htake 8 4,
    htake 12 4]
  rfl

theorem ofBytes_append {buf : Bytes} (h : headerSize ≤ buf.length) (more : Bytes) :
    PacketHeader.ofBytes (buf ++ more) = PacketHeader.ofBytes buf := by
  have hd : ∀ k, k ≤ 12 → ofWord ((buf ++ more).drop k) = ofWord (buf.drop k) := by
    intro k hk
    have h16 : 16 ≤ buf.length := h
    rw [List.drop_append_of_le_length (by omega)]
    exact ofWord_append (by rw [List.length_drop]; omega) more
  simp only [PacketHeader.ofBytes, hd 4 (by decide), hd 8 (by decide), hd 12 (by decide)]
  rw [ofWord_append (Nat.le_trans (by decide) h)]

/-! ## The decoders -/

section HandleRead

variable {buf : Bytes} {hdr : PacketHeader}

theorem handleReadNext_fail (h : headerSize ≤ buf.length) (hh : PacketHeader.ofBytes buf = hdr)
    (hbad : hdr.magic ≠ protoMagic ∨ maxBodyLen < hdr.bodyLen) : handleReadNext buf = .fail := by
  simp only [handleReadNext, if_neg (Nat.not_lt.mpr h), hh, if_pos hbad]

theorem handleReadNext_emit (hh : PacketHeader.ofBytes buf = hdr) (hm : hdr.magic = protoMagic)
    (hb : hdr.bodyLen ≤ maxBodyLen) (hlen : headerSize + hdr.bodyLen.toNat ≤ buf.length) :
    handleReadNext buf = .emit (hdr, (buf.drop headerSize).take hdr.bodyLen.toNat)
      (buf.drop (headerSize + hdr.bodyLen.toNat)) := by
  have h16 : ¬ buf.length < headerSize := by omega
  have hgood : ¬ (hdr.magic ≠ protoMagic ∨ maxBodyLen < hdr.bodyLen) :=
    not_or.mpr ⟨not_not.mpr hm, UInt32.not_lt.mpr hb⟩
  simp only [handleReadNext, if_neg h16, hh, if_neg hgood, if_neg (Nat.not_lt.mpr hlen)]

theorem handleReadNext_cases (buf : Bytes) :
    handleReadNext buf = .wait ∨
    (headerSize ≤ buf.length ∧ ((PacketHeader.ofBytes buf).magic ≠ protoMagic ∨
      maxBodyLen < (PacketHeader.ofBytes buf).bodyLen)) ∨
    ∃ hdr, PacketHeader.ofBytes buf = hdr ∧ hdr.magic = protoMagic ∧ hdr.bodyLen ≤ maxBodyLen ∧
      headerSize + hdr.bodyLen.toNat ≤ buf.length := by
  by_cases h1 : buf.length < headerSize
  · exact .inl (if_pos h1)
  by_cases h2 : (PacketHeader.ofBytes buf).magic ≠ protoMagic ∨
      maxBodyLen < (PacketHeader.ofBytes buf).bodyLen
  · exact .inr (.inl ⟨Nat.le_of_not_lt h1, h2⟩)
  by_cases h3 : buf.length < headerSize + (PacketHeader.ofBytes buf).bodyLen.toNat
  · exact .inl (by simp only [handleReadNext, if_neg h1, if_neg h2, if_pos h3])
  · obtain ⟨hm, hb⟩ := not_or.mp h2
    exact .inr (.inr ⟨_, rfl, not_not.mp hm, UInt32.not_lt.mp hb, Nat.le_of_not_lt h3⟩)

/-- The parsing loop of `handle_read`. -/
def handleReadDecoder : Decoder UInt8 (PacketHeader × Bytes) where
  next := handleReadNext
  shorter buf rest h := by
    rcases handleReadNext_cases buf with hw | ⟨h16, hbad⟩ | ⟨hdr, hh, hm, hb, hlen⟩
    · rw [hw] at h; cases h
    · rw [handleReadNext_fail h16 rfl hbad] at h; cases h
    · rw [handleReadNext_emit hh hm hb hlen] at h
      obtain rfl := Option.some.inj h
      rw [List.length_drop]
      unfold headerSize at *
      omega
  stable buf more := by
    rcases handleReadNext_cases buf with hw | ⟨h16, hbad⟩ | ⟨hdr, hh, hm, hb, hlen⟩
    · rw [hw]; trivial
    · rw [handleReadNext_fail h16 rfl hbad]
      refine handleReadNext_fail ?_ (ofBytes_append h16 more) hbad
      rw [List.length_append]
      omega
    · have h16 : headerSize ≤ buf.length := by omega
      rw [handleReadNext_emit hh hm hb hlen]
      rw [handleReadNext_emit ((ofBytes_append h16 more).trans hh) hm hb
        (by rw [List.length_append]; omega)]
      rw [List.drop_append_of_le_length h16, List.drop_append_of_le_length hlen,
        List.take_append_of_le_length (by rw [List.length_drop]; omega)]
      rfl

/-- **A packet at the front of the buffer is cut off whole.** -/
theorem handleReadNext_packet {body : Bytes} (hm : hdr.magic = protoMagic)
    (hb : hdr.bodyLen ≤ maxBodyLen) (hlen : body.length = hdr.bodyLen.toNat) (more : Bytes) :
    handleReadNext (hdr.toBytes ++ body ++ more) = .emit (hdr, body) more := by
  rw [List.append_assoc, handleReadNext_emit (ofBytes_toBytes hdr _) hm hb]
  · rw [← List.drop_drop, List.drop_left' (length_toBytes hdr), List.take_left' hlen,
      List.drop_left' hlen]
  · rw [List.length_append, List.length_append, length_toBytes]
    omega

/-- **What `handle_read` hands on has passed its tests.** -/
theorem handleReadNext_framed {body rest : Bytes} (h : handleReadNext buf = .emit (hdr, body) rest) :
    hdr.Framed body := by
  rcases handleReadNext_cases buf with hw | ⟨h16, hbad⟩ | ⟨hdr', hh, hm, hb, hlen⟩
  · rw [hw] at h; cases h
  · rw [handleReadNext_fail h16 rfl hbad] at h; cases h
  · rw [handleReadNext_emit hh hm hb hlen] at h
    cases h
    refine ⟨hm, hb, ?_⟩
    rw [List.length_take, List.length_drop]
    omega

end HandleRead

section Receive

variable {buf : Bytes} {hdr : PacketHeader}

/-- `full_len` of `receive_loop`. -/
def fullLen (hdr : PacketHeader) : ℕ := (headerSize.toUInt32 + hdr.bodyLen).toNat

theorem receiveNext_skip (h : headerSize ≤ buf.length)
    (hm : (PacketHeader.ofBytes buf).magic ≠ protoMagic) : receiveNext buf = .skip (buf.drop 1) := by
  simp only [receiveNext, if_neg (Nat.not_lt.mpr h), if_pos hm]

theorem receiveNext_fail (h : headerSize ≤ buf.length) (hh : PacketHeader.ofBytes buf = hdr)
    (hm : hdr.magic = protoMagic) (hwrap : fullLen hdr < headerSize) : receiveNext buf = .fail := by
  have hlen : ¬ buf.length < fullLen hdr := by omega
  simp only [receiveNext, if_neg (Nat.not_lt.mpr h), hh, hm, ne_eq, not_true_eq_false, if_false]
  simp only [← fullLen.eq_1, if_neg hlen, if_pos hwrap]

theorem receiveNext_emit (hh : PacketHeader.ofBytes buf = hdr) (hm : hdr.magic = protoMagic)
    (hfull : headerSize ≤ fullLen hdr) (hlen : fullLen hdr ≤ buf.length) :
    receiveNext buf = .emit (hdr.cmd, (buf.drop headerSize).take (fullLen hdr - headerSize))
      (buf.drop (fullLen hdr)) := by
  have h16 : ¬ buf.length < headerSize := by omega
  simp only [receiveNext, if_neg h16, hh, hm, ne_eq, not_true_eq_false, if_false]
  simp only [← fullLen.eq_1, if_neg (Nat.not_lt.mpr hlen), if_neg (Nat.not_lt.mpr hfull)]

theorem receiveNext_wait (hm : (PacketHeader.ofBytes buf).magic = protoMagic)
    (hlen : buf.length < fullLen (PacketHeader.ofBytes buf)) : receiveNext buf = .wait := by
  by_cases h16 : buf.length < headerSize
  · exact if_pos h16
  · simp only [receiveNext, if_neg h16, hm, ne_eq, not_true_eq_false, if_false]
    simp only [← fullLen.eq_1, if_pos hlen]

theorem receiveNext_cases (buf : Bytes) :
    receiveNext buf = .wait ∨
    (headerSize ≤ buf.length ∧ (PacketHeader.ofBytes buf).magic ≠ protoMagic) ∨
    ∃ hdr, PacketHeader.ofBytes buf = hdr ∧ hdr.magic = protoMagic ∧ headerSize ≤ buf.length ∧
      fullLen hdr ≤ buf.length := by
  by_cases h1 : buf.length < headerSize
  · exact .inl (if_pos h1)
  by_cases h2 : (PacketHeader.ofBytes buf).magic = protoMagic
  · by_cases h3 : buf.length < fullLen (PacketHeader.ofBytes buf)
    · exact .inl (receiveNext_wait h2 h3)
    · exact .inr (.inr ⟨_, rfl, h2, Nat.le_of_not_lt h1, Nat.le_of_not_lt h3⟩)
  · exact .inr (.inl ⟨Nat.le_of_not_lt h1, h2⟩)

/-- The parsing loop of `receive_loop`. -/
def receiveDecoder : Decoder UInt8 (UInt32 × Bytes) where
  next := receiveNext
  shorter buf rest h := by
    rcases receiveNext_cases buf with hw | ⟨h16, hm⟩ | ⟨hdr, hh, hm, h16, hlen⟩
    · rw [hw] at h; cases h
    · rw [receiveNext_skip h16 hm] at h
      obtain rfl := Option.some.inj h
      rw [List.length_drop]
      unfold headerSize at h16
      omega
    · by_cases hfull : headerSize ≤ fullLen hdr
      · rw [receiveNext_emit hh hm hfull hlen] at h
        obtain rfl := Option.some.inj h
        rw [List.length_drop]
        unfold headerSize at *
        omega
      · rw [receiveNext_fail h16 hh hm (Nat.lt_of_not_le hfull)] at h; cases h
  stable buf more := by
    have longer : headerSize ≤ buf.length → headerSize ≤ (buf ++ more).length := by
      rw [List.length_append]
      omega
    rcases receiveNext_cases buf with hw | ⟨h16, hm⟩ | ⟨hdr, hh, hm, h16, hlen⟩
    · rw [hw]; trivial
    · rw [receiveNext_skip h16 hm, receiveNext_skip (longer h16) (by rwa [ofBytes_append h16]),
        List.drop_append_of_le_length (Nat.le_trans (by decide) h16)]
      rfl
    · have hh' := (ofBytes_append h16 more).trans hh
      by_cases hfull : headerSize ≤ fullLen hdr
      · rw [receiveNext_emit hh hm hfull hlen,
          receiveNext_emit hh' hm hfull (by rw [List.length_append]; omega),
          List.drop_append_of_le_length h16, List.drop_append_of_le_length hlen,
          List.take_append_of_le_length (by rw [List.length_drop]; omega)]
        rfl
      · rw [receiveNext_fail h16 hh hm (Nat.lt_of_not_le hfull)]
        exact receiveNext_fail (longer h16) hh' hm (Nat.lt_of_not_le hfull)

theorem toNat_length {body : Bytes} (h : body.length < uint32Size) :
    body.length.toUInt32.toNat = body.length := by
  simp only [Nat.toUInt32_eq, UInt32.toNat_ofNat']
  exact Nat.mod_eq_of_lt h

theorem fullLen_headerOf (cmd seq : UInt32) {body : Bytes} (h : body.length < uint32Size - headerSize) :
    fullLen (headerOf cmd seq body) = headerSize + body.length := by
  have hb : body.length.toUInt32.toNat = body.length := toNat_length (by omega)
  have hs : headerSize.toUInt32.toNat = headerSize := rfl
  rw [fullLen, UInt32.toNat_add, headerOf, hb, hs]
  refine Nat.mod_eq_of_lt ?_
  unfold uint32Size headerSize at *
  omega

/-- **A packet at the front of the buffer is cut off whole.** -/
theorem receiveNext_packet (cmd seq : UInt32) {body : Bytes}
    (h : body.length < uint32Size - headerSize) (more : Bytes) :
    receiveNext (packetOf cmd seq body ++ more) = .emit (cmd, body) more := by
  have hfull := fullLen_headerOf cmd seq h
  rw [packetOf, List.append_assoc, receiveNext_emit (ofBytes_toBytes (headerOf cmd seq body) _) rfl,
    hfull, ← List.drop_drop, List.drop_left' (length_toBytes _), Nat.add_sub_cancel_left,
    List.take_left, List.drop_left]
  · rfl
  · omega
  · rw [hfull, List.length_append, List.length_append, length_toBytes]
    omega

end Receive

end AuraChat
