import Mathlib.Tactic.Common

set_option autoImplicit false

/-!
# Incremental decoders

A decoder looks at the front of a buffer: it waits for more, gives up, drops some input or cuts an
item off. It never changes its mind when more input follows. Such a decoder can be run whenever
input arrives, and how the input was cut up does not matter.

* `Decoder`, `Decoder.drain`: run a decoder until it waits or gives up;
* `Decoder.feed`: input arrives in pieces;
* **`Decoder.feed_eq_drain`**, **`Decoder.feed_agrees`**: feeding the pieces ends as draining the whole
  input at once;
* `Decoder.turns`, `Decoder.feed_failed_iff_turns`, `Decoder.length_feedTurns`: the buffers that a decoder
  looks at;
* `Decoder.drain_encodeAll`: a decoder that undoes the encoding of an item undoes it on streams.
-/

namespace Stream

/-- What a decoder makes of its buffer. -/
inductive Verdict (α β : Type) : Type
  | wait
  | fail
  | skip (rest : List α)
  | emit (b : β) (rest : List α)

namespace Verdict

variable {α β : Type}

/-- What is left of the buffer, where the decoder goes on. -/
def rest? : Verdict α β → Option (List α)
  | wait | fail => none
  | skip rest => some rest
  | emit _ rest => some rest

/-- The same verdict on a longer buffer; a decoder that waits may then decide. -/
def Extends (more : List α) : Verdict α β → Verdict α β → Prop
  | wait, _ => True
  | fail, v => v = fail
  | skip rest, v => v = skip (rest ++ more)
  | emit b rest, v => v = emit b (rest ++ more)

end Verdict

/-- A decoder: each step that goes on uses input up, and a decision stands when more input follows. -/
structure Decoder (α β : Type) where
  next : List α → Verdict α β
  shorter : ∀ buf rest, (next buf).rest? = some rest → rest.length < buf.length
  stable : ∀ buf more, (next buf).Extends more (next (buf ++ more))

/-- Where a decoder has come to: the items so far, the buffer, and whether it has given up. -/
structure Outcome (α β : Type) where
  emitted : List β
  buf : List α
  failed : Bool

/-- The outcome of a run that starts with items decoded before. -/
def Outcome.after {α β : Type} (items : List β) (o : Outcome α β) : Outcome α β :=
  ⟨items ++ o.emitted, o.buf, o.failed⟩

namespace Decoder

variable {α β : Type} (D : Decoder α β)

/-- Run a decoder until it waits or gives up. -/
def drain (buf : List α) : Outcome α β :=
  match h : D.next buf with
  | .wait => ⟨[], buf, false⟩
  | .fail => ⟨[], buf, true⟩
  | .skip rest =>
      have := D.shorter buf rest (by rw [h]; rfl)
      drain rest
  | .emit b rest =>
      have := D.shorter buf rest (by rw [h]; rfl)
      (drain rest).after [b]
termination_by buf.length

/-- A piece of input arrives. A decoder that has given up takes no more. -/
def feed (o : Outcome α β) (piece : List α) : Outcome α β :=
  if o.failed then o else (D.drain (o.buf ++ piece)).after o.emitted

variable {D} {buf rest : List α} {b : β}

theorem drain_wait (h : D.next buf = .wait) : D.drain buf = ⟨[], buf, false⟩ := by
  rw [drain]; split <;> simp_all

theorem drain_fail (h : D.next buf = .fail) : D.drain buf = ⟨[], buf, true⟩ := by
  rw [drain]; split <;> simp_all

theorem drain_skip (h : D.next buf = .skip rest) : D.drain buf = D.drain rest := by
  rw [drain]; split <;> simp_all

theorem drain_emit (h : D.next buf = .emit b rest) :
    D.drain buf = (D.drain rest).after [b] := by
  rw [drain]; split <;> simp_all

theorem after_after (xs ys : List β) (o : Outcome α β) :
    (o.after ys).after xs = o.after (xs ++ ys) := by
  simp [Outcome.after]

/-- What every item cut off satisfies, every item of a run satisfies. -/
theorem drain_forall {Q : β → Prop} (h : ∀ buf b rest, D.next buf = .emit b rest → Q b)
    (buf : List α) : ∀ b ∈ (D.drain buf).emitted, Q b := by
  induction buf using drain.induct D with
  | case1 buf hv => rw [drain_wait hv]; exact fun b hb => absurd hb List.not_mem_nil
  | case2 buf hv => rw [drain_fail hv]; exact fun b hb => absurd hb List.not_mem_nil
  | case3 buf rest hv _ ih => rw [drain_skip hv]; exact ih
  | case4 buf b rest hv _ ih =>
      rw [drain_emit hv]
      exact List.forall_mem_cons.mpr ⟨h buf b rest hv, ih⟩

/-- A decoder that has not given up waits. -/
theorem next_drain (buf : List α) (h : (D.drain buf).failed = false) :
    D.next (D.drain buf).buf = .wait := by
  induction buf using drain.induct D with
  | case1 buf hv => rw [drain_wait hv]; exact hv
  | case2 buf hv => simp [drain_fail hv] at h
  | case3 buf rest hv _ ih => rw [drain_skip hv] at h ⊢; exact ih h
  | case4 buf b rest hv _ ih => rw [drain_emit hv] at h ⊢; exact ih h

/-- A decoder that has given up stands where it gives up. -/
theorem next_drain_failed (buf : List α) (h : (D.drain buf).failed = true) :
    D.next (D.drain buf).buf = .fail := by
  induction buf using drain.induct D with
  | case1 buf hv => simp [drain_wait hv] at h
  | case2 buf hv => rw [drain_fail hv]; exact hv
  | case3 buf rest hv _ ih => rw [drain_skip hv] at h ⊢; exact ih h
  | case4 buf b rest hv _ ih => rw [drain_emit hv] at h ⊢; exact ih h

/-- More input does not help a decoder that has given up. -/
theorem drain_append_failed (buf more : List α) (h : (D.drain buf).failed = true) :
    (D.drain (buf ++ more)).failed = true := by
  induction buf using drain.induct D with
  | case1 buf hv => simp [drain_wait hv] at h
  | case2 buf hv =>
      have hs := D.stable buf more
      rw [hv] at hs
      rw [drain_fail hs]
  | case3 buf rest hv _ ih =>
      have hs := D.stable buf more
      rw [hv] at hs
      rw [drain_skip hv] at h
      rw [drain_skip hs]
      exact ih h
  | case4 buf b rest hv _ ih =>
      have hs := D.stable buf more
      rw [hv] at hs
      rw [drain_emit hv] at h
      rw [drain_emit hs]
      exact ih h

/-- A decoder that has given up has cut off all that it ever will. -/
theorem drain_append_emitted (buf more : List α) (h : (D.drain buf).failed = true) :
    (D.drain (buf ++ more)).emitted = (D.drain buf).emitted := by
  induction buf using drain.induct D with
  | case1 buf hv => simp [drain_wait hv] at h
  | case2 buf hv =>
      have hs := D.stable buf more
      rw [hv] at hs
      rw [drain_fail hs, drain_fail hv]
  | case3 buf rest hv _ ih =>
      have hs := D.stable buf more
      rw [hv] at hs
      rw [drain_skip hv] at h ⊢
      rw [drain_skip hs]
      exact ih h
  | case4 buf b rest hv _ ih =>
      have hs := D.stable buf more
      rw [hv] at hs
      rw [drain_emit hv] at h ⊢
      rw [drain_emit hs]
      exact congrArg (List.cons b) (ih h)

/-- **Draining can stop where the decoder waits and go on from there.** -/
theorem drain_append (buf more : List α) (h : (D.drain buf).failed = false) :
    D.drain (buf ++ more) = (D.drain ((D.drain buf).buf ++ more)).after (D.drain buf).emitted := by
  induction buf using drain.induct D with
  | case1 buf hv => rw [drain_wait hv]; rfl
  | case2 buf hv => simp [drain_fail hv] at h
  | case3 buf rest hv _ ih =>
      have hs := D.stable buf more
      rw [hv] at hs
      rw [drain_skip hv] at h ⊢
      rw [drain_skip hs]
      exact ih h
  | case4 buf b rest hv _ ih =>
      have hs := D.stable buf more
      rw [hv] at hs
      rw [drain_emit hv] at h ⊢
      rw [drain_emit hs, ih h, after_after]
      rfl

/-- **How the input was cut up does not matter**, as long as the decoder does not give up. -/
theorem feed_eq_drain (pieces : List (List α)) (o : Outcome α β) (ho : o.failed = false)
    (hw : D.next o.buf = .wait) (h : (D.drain (o.buf ++ pieces.flatten)).failed = false) :
    pieces.foldl D.feed o = (D.drain (o.buf ++ pieces.flatten)).after o.emitted := by
  induction pieces generalizing o with
  | nil =>
      obtain ⟨emitted, buf, failed⟩ := o
      obtain rfl : failed = false := ho
      simp [drain_wait hw, Outcome.after]
  | cons p ps ih =>
      rw [List.flatten_cons, ← List.append_assoc] at h ⊢
      -- the first piece alone does not make the decoder give up
      have hp : (D.drain (o.buf ++ p)).failed = false := by
        cases e : (D.drain (o.buf ++ p)).failed with
        | false => rfl
        | true => rw [drain_append_failed _ _ e] at h; cases h
      have hfeed : D.feed o p = (D.drain (o.buf ++ p)).after o.emitted := by
        rw [feed, if_neg (by rw [ho]; exact Bool.false_ne_true)]
      rw [drain_append _ _ hp] at h ⊢
      rw [List.foldl_cons, hfeed, after_after]
      exact ih ((D.drain (o.buf ++ p)).after o.emitted) hp (next_drain _ hp) h

/-- A decoder that has given up takes no more. -/
theorem foldl_feed_failed (pieces : List (List α)) (o : Outcome α β) (ho : o.failed = true) :
    pieces.foldl D.feed o = o := by
  induction pieces with
  | nil => rfl
  | cons p ps ih => rw [List.foldl_cons, feed, if_pos ho, ih]

/-- A decoder that is fed and has not given up waits. -/
theorem next_foldl_feed (pieces : List (List α)) (o : Outcome α β) (hw : D.next o.buf = .wait)
    (h : (pieces.foldl D.feed o).failed = false) : D.next (pieces.foldl D.feed o).buf = .wait := by
  induction pieces generalizing o with
  | nil => exact hw
  | cons p ps ih =>
      rw [List.foldl_cons] at h ⊢
      refine ih _ ?_ h
      by_cases hp : (D.feed o p).failed = true
      · rw [foldl_feed_failed ps _ hp, hp] at h
        cases h
      · rw [feed] at hp ⊢
        split_ifs with ho
        · exact hw
        · rw [if_neg ho] at hp
          exact next_drain (o.buf ++ p) (Bool.eq_false_iff.mpr hp)

/-- **How the input was cut up does not matter, also to a decoder that gives up**: it has cut off the
items of the whole input, and it gives up where it does on the whole input. -/
theorem feed_agrees (pieces : List (List α)) (o : Outcome α β) (ho : o.failed = false)
    (hw : D.next o.buf = .wait) :
    (pieces.foldl D.feed o).emitted =
        o.emitted ++ (D.drain (o.buf ++ pieces.flatten)).emitted ∧
      (pieces.foldl D.feed o).failed = (D.drain (o.buf ++ pieces.flatten)).failed := by
  induction pieces generalizing o with
  | nil => simp [drain_wait hw, ho]
  | cons p ps ih =>
      have hfeed : D.feed o p = (D.drain (o.buf ++ p)).after o.emitted := by
        rw [feed, if_neg (by rw [ho]; exact Bool.false_ne_true)]
      rw [List.foldl_cons, List.flatten_cons, ← List.append_assoc, hfeed]
      by_cases hp : (D.drain (o.buf ++ p)).failed = true
      · rw [foldl_feed_failed ps ((D.drain (o.buf ++ p)).after o.emitted) hp,
          drain_append_emitted _ _ hp, drain_append_failed _ _ hp]
        exact ⟨rfl, hp⟩
      · have hp' : (D.drain (o.buf ++ p)).failed = false := Bool.eq_false_iff.mpr hp
        obtain ⟨he, hf⟩ := ih ((D.drain (o.buf ++ p)).after o.emitted) hp' (next_drain _ hp')
        rw [drain_append _ _ hp']
        exact ⟨by rw [he]; exact List.append_assoc _ _ _, hf⟩

/-! ## Turns -/

variable (D) in
/-- The buffers that a decoder looks at until it waits or gives up. -/
def turns (buf : List α) : List (List α) :=
  match h : D.next buf with
  | .wait | .fail => [buf]
  | .skip rest | .emit _ rest =>
      have := D.shorter buf rest (by rw [h]; rfl)
      buf :: turns rest
termination_by buf.length

variable (D) in
/-- The buffers that a decoder looks at while input arrives. -/
def feedTurns : Outcome α β → List (List α) → List (List α)
  | _, [] => []
  | o, piece :: rest =>
      if o.failed then [] else D.turns (o.buf ++ piece) ++ feedTurns (D.feed o piece) rest

theorem turns_stop (h : (D.next buf).rest? = none) : D.turns buf = [buf] := by
  rw [turns]
  split <;> simp_all [Verdict.rest?]

theorem turns_go (h : (D.next buf).rest? = some rest) : D.turns buf = buf :: D.turns rest := by
  rw [turns]
  split <;> simp_all [Verdict.rest?]

/-- A decoder gives up if it does at one of the buffers that it looks at. -/
theorem failed_iff_turns (buf : List α) :
    (D.drain buf).failed = true ↔ ∃ b ∈ D.turns buf, D.next b = .fail := by
  induction buf using drain.induct D with
  | case1 buf hv =>
      have ht : D.turns buf = [buf] := turns_stop (by rw [hv]; rfl)
      simp [drain_wait hv, ht, hv]
  | case2 buf hv =>
      have ht : D.turns buf = [buf] := turns_stop (by rw [hv]; rfl)
      simp [drain_fail hv, ht, hv]
  | case3 buf rest hv _ ih =>
      have ht : D.turns buf = buf :: D.turns rest := turns_go (by rw [hv]; rfl)
      rw [drain_skip hv, ih, ht]
      simp [hv]
  | case4 buf b rest hv _ ih =>
      have ht : D.turns buf = buf :: D.turns rest := turns_go (by rw [hv]; rfl)
      rw [drain_emit hv, ht]
      simpa [hv, Outcome.after] using ih

/-- Each turn that goes on uses input up. -/
theorem length_turns (buf : List α) :
    (D.turns buf).length + (D.drain buf).buf.length ≤ buf.length + 1 := by
  induction buf using drain.induct D with
  | case1 buf hv =>
      have ht : D.turns buf = [buf] := turns_stop (by rw [hv]; rfl)
      simp [drain_wait hv, ht, Nat.add_comm]
  | case2 buf hv =>
      have ht : D.turns buf = [buf] := turns_stop (by rw [hv]; rfl)
      simp [drain_fail hv, ht, Nat.add_comm]
  | case3 buf rest hv hlt ih =>
      have ht : D.turns buf = buf :: D.turns rest := turns_go (by rw [hv]; rfl)
      rw [drain_skip hv, ht, List.length_cons]
      omega
  | case4 buf b rest hv hlt ih =>
      have ht : D.turns buf = buf :: D.turns rest := turns_go (by rw [hv]; rfl)
      have hbuf : ((D.drain rest).after [b]).buf = (D.drain rest).buf := rfl
      rw [drain_emit hv, ht, List.length_cons, hbuf]
      omega

/-- A decoder that is fed gives up if it does at one of the buffers that it looks at. -/
theorem feed_failed_iff_turns (pieces : List (List α)) (o : Outcome α β) (ho : o.failed = false) :
    (pieces.foldl D.feed o).failed = true ↔ ∃ b ∈ D.feedTurns o pieces, D.next b = .fail := by
  induction pieces generalizing o with
  | nil => simp [feedTurns, ho]
  | cons piece rest ih =>
      have hfeed : D.feed o piece = (D.drain (o.buf ++ piece)).after o.emitted := by
        rw [feed, if_neg (by rw [ho]; exact Bool.false_ne_true)]
      rw [List.foldl_cons, feedTurns, if_neg (by rw [ho]; exact Bool.false_ne_true)]
      simp only [List.mem_append, or_and_right, exists_or, ← failed_iff_turns]
      cases hp : (D.feed o piece).failed with
      | false =>
          have hdrain : (D.drain (o.buf ++ piece)).failed = false := by
            rw [hfeed] at hp
            exact hp
          rw [ih _ hp, hdrain]
          simp
      | true =>
          have hdrain : (D.drain (o.buf ++ piece)).failed = true := by
            rw [hfeed] at hp
            exact hp
          rw [foldl_feed_failed rest _ hp, hp, hdrain]
          simp

/-- The turns of a decoder that is fed are at most the pieces and the input together. -/
theorem length_feedTurns (pieces : List (List α)) (o : Outcome α β) :
    (D.feedTurns o pieces).length ≤ o.buf.length + pieces.flatten.length + pieces.length := by
  induction pieces generalizing o with
  | nil => simp [feedTurns]
  | cons piece rest ih =>
      rw [feedTurns, List.flatten_cons, List.length_append, List.length_cons]
      split_ifs with ho
      · simp
      · have hfeed : (D.feed o piece).buf = (D.drain (o.buf ++ piece)).buf := by rw [feed, if_neg ho]; rfl
        have hone := length_turns (D := D) (o.buf ++ piece)
        have hrest := ih (D.feed o piece)
        rw [hfeed] at hrest
        rw [List.length_append] at hone ⊢
        omega

/-! ## Encodings -/

/-- The encoding of a list of items, one after another. -/
def encodeAll {ι : Type} (enc : ι → List α) (items : List ι) : List α := items.flatMap enc

/-- A decoder that cuts each encoded item off the front of any input takes the items off first. -/
theorem drain_encodeAll_append {ι : Type} {enc : ι → List α} (out : ι → β) (items : List ι)
    (h : ∀ x ∈ items, ∀ more, D.next (enc x ++ more) = .emit (out x) more) (rest : List α) :
    D.drain (encodeAll enc items ++ rest) = (D.drain rest).after (items.map out) := by
  induction items with
  | nil => rfl
  | cons x xs ih =>
      have hx := h x List.mem_cons_self (encodeAll enc xs ++ rest)
      have hxs := ih fun y hy => h y (List.mem_cons_of_mem _ hy)
      change D.drain (enc x ++ encodeAll enc xs ++ rest) = _
      rw [List.append_assoc, drain_emit hx, hxs, after_after]
      rfl

/-- **A decoder that cuts each encoded item off the front of any input decodes encoded streams.** -/
theorem drain_encodeAll {ι : Type} {enc : ι → List α} (out : ι → β) (items : List ι)
    (h : ∀ x ∈ items, ∀ more, D.next (enc x ++ more) = .emit (out x) more)
    (hnil : D.next [] = .wait) :
    D.drain (encodeAll enc items) = ⟨items.map out, [], false⟩ := by
  rw [← List.append_nil (encodeAll enc items), drain_encodeAll_append out items h, drain_wait hnil,
    Outcome.after, List.append_nil]

end Decoder

end Stream
