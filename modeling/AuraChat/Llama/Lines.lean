import AuraChat.Lib.Decoder
import AuraChat.Model.Llama

set_option autoImplicit false

/-!
# The lines of a reply

`stream_write_cb` cuts lines off a buffer that the pieces of the reply are added to. The loop is a decoder,
so the lines are those of the whole reply, however it was cut into pieces.

* `lineDecoder`, `drainLines_eq`: the loop as a decoder;
* `eventData`, `payloads`: the data of the events, read off the whole reply;
* **`deliver_eq`**.
-/

namespace AuraChat

namespace Llama

open Stream

/-! ## Lines -/

theorem splitLine_append {buf line rest : Bytes} (h : splitLine buf = some (line, rest)) (more : Bytes) :
    splitLine (buf ++ more) = some (line, rest ++ more) := by
  obtain ⟨rfl, hline⟩ := splitLine_eq_some.mp h
  exact splitLine_eq_some.mpr ⟨by rw [List.append_assoc, List.cons_append], hline⟩

theorem splitLine_eq_none {buf : Bytes} : splitLine buf = none ↔ 0x0A ∉ buf := by
  rw [splitLine]
  split_ifs with h
  · exact iff_of_false (by simp) (not_not.mpr h)
  · exact iff_of_true rfl h

/-- The decoder that cuts off a line. -/
def lineDecoder : Decoder UInt8 Bytes where
  next buf := match splitLine buf with
    | none => .wait
    | some (line, rest) => .emit line rest
  shorter buf rest h := by
    cases hl : splitLine buf with
    | none =>
        rw [hl] at h
        cases h
    | some r =>
        rw [hl] at h
        cases h
        exact splitLine_shorter hl
  stable buf more := by
    cases hl : splitLine buf with
    | none => trivial
    | some r =>
        rw [splitLine_append hl more]
        rfl

theorem next_none {buf : Bytes} (h : splitLine buf = none) : lineDecoder.next buf = .wait := by
  simp only [lineDecoder, h]

theorem next_some {buf line rest : Bytes} (h : splitLine buf = some (line, rest)) :
    lineDecoder.next buf = .emit line rest := by
  simp only [lineDecoder, h]

@[elab_as_elim]
theorem line_induction {motive : Bytes → Prop} (buf : Bytes)
    (wait : ∀ buf, splitLine buf = none → motive buf)
    (line : ∀ buf line rest, splitLine buf = some (line, rest) → motive rest → motive buf) : motive buf := by
  cases h : splitLine buf with
  | none => exact wait buf h
  | some r =>
      have := splitLine_shorter h
      exact line buf r.1 r.2 h (line_induction r.2 wait line)
termination_by buf.length

theorem drain_failed (buf : Bytes) : (lineDecoder.drain buf).failed = false := by
  induction buf using line_induction with
  | wait buf h => rw [Decoder.drain_wait (next_none h)]
  | line buf line rest h ih =>
      rw [Decoder.drain_emit (next_some h)]
      exact ih

/-! ## The whole reply -/

/-- The lines of a reply that are ended by a line feed. -/
def lines (s : Bytes) : List Bytes := (s.splitOn 0x0A).dropLast

/-- The bytes behind the last line feed. -/
def afterLines (s : Bytes) : Bytes := (s.splitOn 0x0A).getLast (List.splitOn_ne_nil _ _)

/-- The data of the event in a line, without the mark of the end. -/
def eventData (line : Bytes) : Option Bytes :=
  if bytes "data: " <+: stripCr line ∧ (stripCr line).drop 6 ≠ bytes "[DONE]" then
    some ((stripCr line).drop 6)
  else none

/-- The data of the events of a reply. -/
def payloads (s : Bytes) : List Bytes := (lines s).filterMap eventData

theorem drain_eq_lines (buf : Bytes) : lineDecoder.drain buf = ⟨lines buf, afterLines buf, false⟩ := by
  induction buf using line_induction with
  | wait buf h =>
      have hsplit : buf.splitOn 0x0A = [buf] := List.splitOn_eq_singleton (splitLine_eq_none.mp h)
      simp only [Decoder.drain_wait (next_none h), lines, afterLines, hsplit, List.dropLast_singleton,
        List.getLast_singleton]
  | line buf line rest h ih =>
      obtain ⟨rfl, hline⟩ := splitLine_eq_some.mp h
      have hsplit : (line ++ 0x0A :: rest).splitOn 0x0A = line :: rest.splitOn 0x0A :=
        List.splitOn_append_cons_self_of_not_mem hline rest
      simp only [Decoder.drain_emit (next_some h), ih, lines, afterLines, hsplit,
        List.dropLast_cons_of_ne_nil (List.splitOn_ne_nil _ _),
        List.getLast_cons (List.splitOn_ne_nil _ _), Outcome.after, List.singleton_append]

section

variable {m : Type → Type} [Monad m] {parse : Bytes → m Unit}

theorem handleLine_eq (line : Bytes) :
    handleLine parse line = match eventData line with
      | none => pure ()
      | some data => parse data := by
  rw [handleLine, eventData]
  by_cases hdata : bytes "data: " <+: stripCr line
  · by_cases hdone : (stripCr line).drop 6 = bytes "[DONE]"
    · rw [if_pos hdata, if_pos hdone, if_neg fun h => h.2 hdone]
    · rw [if_pos hdata, if_neg hdone, if_pos ⟨hdata, hdone⟩]
  · rw [if_neg hdata, if_neg fun h => hdata h.1]

variable [LawfulMonad m]

theorem forM_handleLine (ls : List Bytes) :
    forM ls (handleLine parse) = forM (ls.filterMap eventData) parse := by
  induction ls with
  | nil => rfl
  | cons l ls ih =>
      rw [List.forM_cons, ih, handleLine_eq]
      cases h : eventData l with
      | none => rw [List.filterMap_cons_none h, pure_bind]
      | some data => rw [List.filterMap_cons_some h, List.forM_cons]

theorem drainLines_eq (buf : Bytes) :
    drainLines parse buf = forM (lineDecoder.drain buf).emitted (handleLine parse) >>= fun _ =>
      pure (lineDecoder.drain buf).buf := by
  induction buf using line_induction with
  | wait buf h =>
      rw [drainLines, Decoder.drain_wait (next_none h)]
      split <;> simp_all
  | line buf line rest h ih =>
      rw [drainLines, Decoder.drain_emit (next_some h)]
      split <;> simp_all [Outcome.after]

theorem deliver_from (pieces : List Bytes) (buf : Bytes) (hw : lineDecoder.next buf = .wait) :
    deliver parse pieces ⟨buf⟩ =
      forM (lineDecoder.drain (buf ++ pieces.flatten)).emitted (handleLine parse) >>= fun _ =>
        pure (⟨(lineDecoder.drain (buf ++ pieces.flatten)).buf⟩, true) := by
  induction pieces generalizing buf with
  | nil => simp [deliver, Decoder.drain_wait hw]
  | cons piece rest ih =>
      have hdrain := Decoder.drain_append (buf ++ piece) rest.flatten (drain_failed _)
      rw [List.flatten_cons, ← List.append_assoc, hdrain, deliver, streamWriteCb, drainLines_eq]
      simp only [bind_assoc, pure_bind, if_true, ih _ (Decoder.next_drain _ (drain_failed _)),
        Outcome.after, List.forM_append]

/-- **The events do not depend on how the reply was cut into pieces.** Whatever the parsing of an event does,
the calls of `stream_write_cb` parse the data of the lines of the whole reply, in order; the buffer then holds
the bytes behind the last line feed, and each call has reported all of its bytes. -/
theorem deliver_eq (parse : Bytes → m Unit) (pieces : List Bytes) :
    deliver parse pieces {} =
      forM (payloads pieces.flatten) parse >>= fun _ => pure (⟨afterLines pieces.flatten⟩, true) := by
  have hwait : lineDecoder.next [] = .wait := next_none (splitLine_eq_none.mpr List.not_mem_nil)
  rw [deliver_from pieces [] hwait, List.nil_append, drain_eq_lines, forM_handleLine]
  rfl

/-- A reply of three lines in three pieces, and the beginning of a fourth line. -/
theorem deliver_eq_sample :
    (deliver (m := StateM (List Bytes)) (fun data => modify (· ++ [data]))
        [bytes "data: a\r", bytes "\ndata: [DO", bytes "NE]\ndata: b\nda"] {}).run [] =
      ((⟨bytes "da"⟩, true), [bytes "a", bytes "b"]) := by
  have hpayloads : payloads (bytes "data: a\r\ndata: [DONE]\ndata: b\nda") = [bytes "a", bytes "b"] := by
    decide
  have hafter : afterLines (bytes "data: a\r\ndata: [DONE]\ndata: b\nda") = bytes "da" := by decide
  have hwhole : [bytes "data: a\r", bytes "\ndata: [DO", bytes "NE]\ndata: b\nda"].flatten =
      bytes "data: a\r\ndata: [DONE]\ndata: b\nda" := by decide
  rw [deliver_eq, hwhole, hpayloads, hafter]
  rfl

end

end Llama

end AuraChat
