import AuraChat.Wire.Packets
import Mathlib.Logic.Relation

set_option autoImplicit false

/-!
# The progress of the client's parsing loop

`receive_loop` keeps the length of a packet, `16 + body_len`, in a `uint32_t`. Where that wraps around, a turn
of the parsing loop cuts a body out of an invalid range, or removes nothing. Anywhere else it stops or goes on
with a shorter buffer.

* `TurnSound`: what is asked of a turn;
* `scanNext`, `Scanned`: where the packets of a stream start, with lengths that do not wrap around;
* **`receive_progress_iff`**: when all turns are sound; `receive_stuck`: a turn that is not.
-/

namespace AuraChat

open Stream

variable {buf rest : Bytes}

/-- A turn of the parsing loop on a buffer of at least `headerSize` bytes removes one byte, stops, or cuts a
body out of a valid range and removes the packet. -/
def TurnSound (buf : Bytes) : Prop :=
  headerSize ≤ buf.length →
    ((PacketHeader.ofBytes buf).magic ≠ protoMagic ∧ (buf.drop 1).length < buf.length) ∨
    buf.length < fullLen (PacketHeader.ofBytes buf) ∨
    (headerSize ≤ fullLen (PacketHeader.ofBytes buf) ∧ fullLen (PacketHeader.ofBytes buf) ≤ buf.length ∧
      (buf.drop (fullLen (PacketHeader.ofBytes buf))).length < buf.length)

/-- A turn is unsound exactly where `receiveNext` fails. -/
theorem turnSound_iff (buf : Bytes) : TurnSound buf ↔ receiveNext buf ≠ .fail := by
  by_cases h16 : headerSize ≤ buf.length
  · by_cases hm : (PacketHeader.ofBytes buf).magic = protoMagic
    · by_cases hlen : fullLen (PacketHeader.ofBytes buf) ≤ buf.length
      · by_cases hfull : headerSize ≤ fullLen (PacketHeader.ofBytes buf)
        · refine iff_of_true (fun _ => .inr (.inr ⟨hfull, hlen, ?_⟩)) ?_
          · rw [List.length_drop]
            unfold headerSize at *
            omega
          · rw [receiveNext_emit rfl hm hfull hlen]
            exact fun h => by cases h
        · refine iff_of_false (fun h => ?_) fun h => h (receiveNext_fail h16 rfl hm (Nat.lt_of_not_le hfull))
          obtain h | h | h := h h16
          · exact h.1 hm
          · omega
          · exact hfull h.1
      · refine iff_of_true (fun _ => .inr (.inl (Nat.lt_of_not_le hlen))) fun h => ?_
        rw [receiveNext_wait hm (Nat.lt_of_not_le hlen)] at h
        cases h
    · refine iff_of_true (fun _ => .inl ⟨hm, ?_⟩) ?_
      · rw [List.length_drop]
        unfold headerSize at h16
        omega
      · rw [receiveNext_skip h16 hm]
        exact fun h => by cases h
  · refine iff_of_true (fun h => absurd h h16) ?_
    rw [receiveNext, if_pos (Nat.lt_of_not_le h16)]
    exact fun h => by cases h

/-! ## The stream -/

/-- The stream from the next place on where a packet may start. A header that does not fit, or a packet that is
not complete, is the end. -/
def scanNext (s : Bytes) : Option Bytes :=
  if s.length < headerSize then none
  else if (PacketHeader.ofBytes s).magic ≠ protoMagic then some (s.drop 1)
  else if s.length < headerSize + (PacketHeader.ofBytes s).bodyLen.toNat then none
  else some (s.drop (headerSize + (PacketHeader.ofBytes s).bodyLen.toNat))

/-- A packet may start here. -/
def Scanned : Bytes → Bytes → Prop := Relation.ReflTransGen fun s t => scanNext s = some t

/-- A header whose packet is too long for a `uint32_t`. -/
def Overlong (s : Bytes) : Prop :=
  headerSize ≤ s.length ∧ (PacketHeader.ofBytes s).magic = protoMagic ∧
    uint32Size - headerSize ≤ (PacketHeader.ofBytes s).bodyLen.toNat

theorem fullLen_eq {hdr : PacketHeader} (h : hdr.bodyLen.toNat < uint32Size - headerSize) :
    fullLen hdr = headerSize + hdr.bodyLen.toNat := by
  have hs : headerSize.toUInt32.toNat = headerSize := rfl
  rw [fullLen, UInt32.toNat_add, hs]
  apply Nat.mod_eq_of_lt
  unfold uint32Size headerSize at *
  omega

theorem fullLen_wrap {hdr : PacketHeader} (h : uint32Size - headerSize ≤ hdr.bodyLen.toNat) :
    fullLen hdr < headerSize := by
  have hs : headerSize.toUInt32.toNat = headerSize := rfl
  have hlt := hdr.bodyLen.toNat_lt
  rw [fullLen, UInt32.toNat_add, hs]
  unfold uint32Size headerSize at *
  omega

theorem Overlong.fail {s : Bytes} (h : Overlong s) : receiveNext s = .fail :=
  receiveNext_fail h.1 rfl h.2.1 (fullLen_wrap h.2.2)

/-- Elsewhere a turn goes on where the next packet may start. -/
theorem rest_receiveNext {s : Bytes} (h : ¬ Overlong s) :
    receiveNext s ≠ .fail ∧ (receiveNext s).rest? = scanNext s := by
  rw [scanNext]
  by_cases h16 : s.length < headerSize
  · rw [if_pos h16, receiveNext, if_pos h16]
    exact ⟨(fun h => by cases h), rfl⟩
  by_cases hm : (PacketHeader.ofBytes s).magic = protoMagic
  · have hshort : (PacketHeader.ofBytes s).bodyLen.toNat < uint32Size - headerSize := by
      apply Nat.lt_of_not_le
      exact fun hlong => h ⟨Nat.le_of_not_lt h16, hm, hlong⟩
    have hfull := fullLen_eq hshort
    rw [if_neg h16, if_neg (not_not.mpr hm), ← hfull]
    by_cases hlen : s.length < fullLen (PacketHeader.ofBytes s)
    · rw [if_pos hlen, receiveNext_wait hm hlen]
      exact ⟨(fun h => by cases h), rfl⟩
    · rw [if_neg hlen, receiveNext_emit rfl hm (by omega) (Nat.le_of_not_lt hlen)]
      exact ⟨(fun h => by cases h), rfl⟩
  · rw [if_neg h16, if_pos hm, receiveNext_skip (Nat.le_of_not_lt h16) hm]
    exact ⟨(fun h => by cases h), rfl⟩

theorem scanned_overlong_iff (s : Bytes) : (∃ t, Scanned s t ∧ Overlong t) ↔
    Overlong s ∨ ∃ r, scanNext s = some r ∧ ∃ t, Scanned r t ∧ Overlong t := by
  constructor
  · intro ⟨t, hst, ht⟩
    cases hst using Relation.ReflTransGen.head_induction_on with
    | refl => exact .inl ht
    | head hsr hrt _ => exact .inr ⟨_, hsr, t, hrt, ht⟩
  · rintro (hs | ⟨r, hr, t, hrt, ht⟩)
    · exact ⟨s, .refl, hs⟩
    · exact ⟨t, .head hr hrt, ht⟩

theorem scanned_overlong_rest {s : Bytes} {v : Verdict UInt8 (UInt32 × Bytes)} (hv : receiveNext s = v)
    (hne : v ≠ .fail) : (∃ t, Scanned s t ∧ Overlong t) ↔
      ∃ r, v.rest? = some r ∧ ∃ t, Scanned r t ∧ Overlong t := by
  have hlong : ¬ Overlong s := fun h => hne (hv.symm.trans h.fail)
  have hnext := (rest_receiveNext hlong).2
  rw [hv] at hnext
  rw [scanned_overlong_iff, hnext, or_iff_right hlong]

/-- Draining a stream fails if an overlong packet starts somewhere in it. -/
theorem drain_failed_iff (s : Bytes) :
    (receiveDecoder.drain s).failed = true ↔ ∃ t, Scanned s t ∧ Overlong t := by
  induction s using Decoder.drain.induct receiveDecoder with
  | case1 buf hv =>
      rw [Decoder.drain_wait hv, scanned_overlong_rest hv (fun h => by cases h)]
      simp [Verdict.rest?]
  | case2 buf hv =>
      have hlong : Overlong buf := by
        by_contra h
        exact (rest_receiveNext h).1 hv
      rw [Decoder.drain_fail hv]
      exact iff_of_true rfl ⟨buf, .refl, hlong⟩
  | case3 buf rest hv _ ih =>
      rw [Decoder.drain_skip hv, ih, scanned_overlong_rest hv (fun h => by cases h)]
      simp [Verdict.rest?]
  | case4 buf b rest hv _ ih =>
      have hfailed : ((receiveDecoder.drain rest).after [b]).failed = (receiveDecoder.drain rest).failed := rfl
      rw [Decoder.drain_emit hv, hfailed, ih, scanned_overlong_rest hv (fun h => by cases h)]
      simp [Verdict.rest?]

/-! ## The loop -/

/-- The turns of the parsing loop while bytes arrive. -/
def receiveTurns (pieces : List Bytes) : List Bytes := receiveDecoder.feedTurns ⟨[], [], false⟩ pieces

/-- **All turns of the parsing loop are sound, and there are finitely many, exactly when the received bytes
have no overlong packet.** -/
theorem receive_progress_iff (pieces : List Bytes) :
    ((∀ buf ∈ receiveTurns pieces, TurnSound buf) ∧
      (receiveTurns pieces).length ≤ pieces.flatten.length + pieces.length) ↔
    ∀ t, Scanned pieces.flatten t → ¬ Overlong t := by
  have hbound := Decoder.length_feedTurns (D := receiveDecoder) pieces ⟨[], [], false⟩
  have hwait : receiveDecoder.next [] = .wait := rfl
  have hfed : (pieces.foldl receiveDecoder.feed ⟨[], [], false⟩).failed = true ↔
      ∃ t, Scanned pieces.flatten t ∧ Overlong t := by
    rw [(Decoder.feed_agrees pieces ⟨[], [], false⟩ rfl hwait).2, List.nil_append, drain_failed_iff]
  have hturns := Decoder.feed_failed_iff_turns (D := receiveDecoder) pieces ⟨[], [], false⟩ rfl
  rw [List.length_nil, Nat.zero_add] at hbound
  rw [receiveTurns, and_iff_left hbound]
  constructor
  · intro h t ht hlong
    obtain ⟨buf, hbuf, hfail⟩ := hturns.mp (hfed.mpr ⟨t, ht, hlong⟩)
    exact (turnSound_iff buf).mp (h buf hbuf) hfail
  · intro h buf hbuf
    refine (turnSound_iff buf).mpr fun hfail => ?_
    obtain ⟨t, ht, hlong⟩ := hfed.mp (hturns.mpr ⟨buf, hbuf, hfail⟩)
    exact h t ht hlong

/-- The length of a packet wraps around to nothing: the body is cut out of an invalid range. -/
theorem receive_stuck :
    ¬ ∀ buf ∈ receiveTurns [(⟨protoMagic, 4294967280, 3, 0⟩ : PacketHeader).toBytes], TurnSound buf := by
  intro h
  have hread : PacketHeader.ofBytes (⟨protoMagic, 4294967280, 3, 0⟩ : PacketHeader).toBytes =
      ⟨protoMagic, 4294967280, 3, 0⟩ := by decide
  have hlong : Overlong (⟨protoMagic, 4294967280, 3, 0⟩ : PacketHeader).toBytes := by
    refine ⟨Nat.le_refl _, ?_, ?_⟩
    · rw [hread]
    · rw [hread]
      decide
  have hone : receiveDecoder.turns (⟨protoMagic, 4294967280, 3, 0⟩ : PacketHeader).toBytes =
      [(⟨protoMagic, 4294967280, 3, 0⟩ : PacketHeader).toBytes] := by
    apply Decoder.turns_stop
    have hfail : receiveDecoder.next (⟨protoMagic, 4294967280, 3, 0⟩ : PacketHeader).toBytes = .fail :=
      hlong.fail
    rw [hfail]
    rfl
  refine (turnSound_iff _).mp (h _ ?_) hlong.fail
  change _ ∈ receiveDecoder.turns (⟨protoMagic, 4294967280, 3, 0⟩ : PacketHeader).toBytes ++ _
  rw [hone]
  exact List.mem_cons_self

end AuraChat
