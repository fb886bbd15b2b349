import AuraChat.Wire.Pipe

set_option autoImplicit false

/-!
# After an overflow

A packet without room in the send buffer is refused, and the close of its connection is queued. Until the
loop comes to the close, the functors of the batch and of the next one may pass more packets to `send`, and
`handle_write` may make room.

* `Offers.step`: the send path, with what each connection was offered;
* `Gapless`: nothing is accepted after a refusal;
* `Offered`, `offered_step`: the offers, the record and the bytes written agree;
* **`no_gap`**: in which runs there is no gap.
-/

namespace AuraChat

open Interleave

variable {P : Params} {db : Store}

/-! ## Offers -/

/-- The send path, with the packets that were passed to `send` of each connection, and whether there was room
for them. -/
structure Offers where
  pipes : Pipes
  offers : ℕ → List (Frame × Bool)

/-- The packet that a step passes to `send` of a connection. -/
def Pipes.offer (P : Params) (l : PipesLabel) (p : Pipes) : Option (ℕ × Frame × Bool) :=
  match l with
  | .server l => (p.server.delivers l).map fun v => (v.1, v.2.2, decide (p.server.net.fits P v.2.2 v.2.1))
  | .handleWrite _ _ => none

namespace Offers

/-- The packets that were passed to `send` of a connection. -/
def addressed (c : ℕ) (x : Offers) : List Frame := (x.offers c).map Prod.fst

def record (x : Offers) : Option (ℕ × Frame × Bool) → ℕ → List (Frame × Bool)
  | none => x.offers
  | some (c, f, room) => Function.update x.offers c (x.offers c ++ [(f, room)])

def step (P : Params) (l : PipesLabel) (x : Offers) : Option Offers :=
  (Pipes.step P l x.pipes).map fun p => ⟨p, x.record (x.pipes.offer P l)⟩

/-- The states that a run reaches, from a start on the store `db`, when every step meets `C`. -/
abbrev RunTo (P : Params) (db : Store) (C : PipesLabel → Offers → Prop) (x : Offers) : Prop :=
  Reach (step P) C ⟨⟨State.init P db, fun _ => false, fun _ => []⟩, fun _ => []⟩ x

end Offers

/-- A packet that is passed to `send` after one was refused does not find room either. -/
def NoRoomLeft (P : Params) (l : PipesLabel) (x : Offers) : Prop :=
  ∀ o ∈ x.pipes.offer P l, (∃ r ∈ x.offers o.1, r.2 = false) → o.2.2 = false

instance (l : PipesLabel) (x : Offers) : Decidable (NoRoomLeft P l x) := by
  unfold NoRoomLeft; infer_instance

/-! ## Gaps -/

section Gapless

variable {α : Type} {os : List (α × Bool)}

/-- Nothing is accepted after a refusal. -/
def Gapless (os : List (α × Bool)) : Prop := os.Pairwise fun a b => b.2 = true → a.2 = true

instance (os : List (α × Bool)) : Decidable (Gapless os) := by unfold Gapless; infer_instance

theorem gapless_concat {a : α} {room : Bool} :
    Gapless (os ++ [(a, room)]) ↔ Gapless os ∧ ((∃ r ∈ os, r.2 = false) → room = false) := by
  simp only [Gapless, List.pairwise_append, List.pairwise_singleton, true_and, List.mem_singleton,
    forall_eq]
  refine and_congr_right fun _ => ?_
  cases room <;> simp

/-- What is accepted comes first. -/
theorem Gapless.prefix_accepted (h : Gapless os) : os.filter Prod.snd <+: os := by
  induction os with
  | nil => exact List.nil_prefix
  | cons o os ih =>
      obtain ⟨ho, hos⟩ := List.pairwise_cons.mp h
      cases hroom : o.2 with
      | true =>
          rw [List.filter_cons_of_pos hroom]
          exact List.cons_prefix_cons.mpr ⟨rfl, ih hos⟩
      | false =>
          have hnone : (o :: os).filter Prod.snd = [] := by
            refine List.filter_eq_nil_iff.mpr fun b hb htrue => ?_
            rcases List.mem_cons.mp hb with rfl | hb
            · rw [hroom] at htrue
              cases htrue
            · have := ho b hb htrue
              rw [hroom] at this
              cases this
          rw [hnone]
          exact List.nil_prefix

end Gapless

/-! ## The record -/

/-- The packets with room are those that the record has as accepted, and the bytes written are the first ones
of them. -/
structure Offered (x : Offers) : Prop where
  accepted : ∀ c, acceptedFrames c x.pipes.server.log = ((x.offers c).filter Prod.snd).map Prod.fst
  written : ∀ c, x.pipes.written c <+: (acceptedFrames c x.pipes.server.log).flatMap Net.packetBytes

theorem pipes_of_offersRun {C : PipesLabel → Offers → Prop} {x : Offers} (h : Offers.RunTo P db C x) :
    Pipes.RunTo P db x.pipes := by
  refine h.map Offers.pipes fun l x x' _ hs => ?_
  obtain ⟨p, hp, rfl⟩ := Option.map_eq_some_iff.mp hs
  exact .tail .refl trivial hp

theorem offered_server {x : Offers} {l : Label} {s' : State} (hwf : x.pipes.server.net.WF P)
    (h : Offered x) (hs : SendStep P x.pipes.server l s') :
    Offered ⟨⟨s', x.pipes.watch P l, x.pipes.written⟩, x.record (x.pipes.offer P (.server l))⟩ := by
  -- a step that accepts nothing
  have same : appends s'.log = appends x.pipes.server.log →
      (∀ c d f, x.pipes.server.delivers l = some (c, d, f) → ¬ x.pipes.server.net.fits P f d) →
      Offered ⟨⟨s', x.pipes.watch P l, x.pipes.written⟩, x.record (x.pipes.offer P (.server l))⟩ := by
    intro hlog hfull
    have hacc : ∀ c, acceptedFrames c s'.log = acceptedFrames c x.pipes.server.log :=
      acceptedFrames_congr hlog
    refine ⟨fun c => (hacc c).trans ((h.accepted c).trans ?_), fun c => ?_⟩
    · simp only [Pipes.offer]
      cases hv : x.pipes.server.delivers l with
      | none => rfl
      | some v =>
          obtain ⟨c', d, f⟩ := v
          have hroom := hfull c' d f hv
          simp only [Option.map_some, Offers.record, Function.update_apply]
          split_ifs with e
          · rw [e, List.filter_append, List.filter_cons_of_neg (by simpa using hroom), List.filter_nil,
              List.append_nil]
          · rfl
    · dsimp only
      rw [hacc]
      exact h.written c
  cases hs with
  | kept hk ha hr =>
      refine same hk.log fun c d f hv => ?_
      exact (hr c d f hv).resolve_left (not_not.mpr (delivers_eq hwf hv).2)
  | sent c d f ha hv hd hp hf hnet hside hlog =>
      obtain ⟨uid, hlog⟩ := hlog
      have hacc := acceptedFrames_cons hlog
      refine ⟨fun c' => ?_, fun c' => ?_⟩
      · dsimp only
        rw [hacc, h.accepted]
        simp only [Pipes.offer, hv, Option.map_some, Offers.record, Function.update_apply]
        split_ifs with e
        · rw [e, List.filter_append, List.map_append]
          simp [hf]
        · rfl
      · dsimp only
        rw [hacc]
        split_ifs
        · rw [List.flatMap_append]
          exact (h.written c').trans (List.prefix_append _ _)
        · exact h.written c'
  | opens w fd y ha hc hx hnew hn hs hsx hlog =>
      exact same hlog fun c d f hv => by rw [delivers_of_adds ha] at hv; cases hv
  | released c d ha hv hd hp hc hnet hs hsx hlog =>
      exact same hlog fun c' d' f' hv' => by rw [hv] at hv'; cases hv'

theorem appends_forceClose (s : State) (w : ℕ) (fd : Int) (kick : Option Kick) :
    appends (s.forceClose w fd kick).log = appends s.log := by
  simp only [State.forceClose]
  split <;> rfl

theorem offered_write {x : Offers} {c : ℕ} {d : Conn} (hp : Piped P x.pipes) (h : Offered x)
    (hd : x.pipes.server.net.conns c = some d) (ho : d.phase = .opened) (results : List WriteResult) :
    Offered ⟨x.pipes.write c d results, x.offers⟩ := by
  have hlog : appends (x.pipes.write c d results).server.log = appends x.pipes.server.log := by
    simp only [Pipes.write]
    split_ifs
    · exact appends_forceClose _ _ _ _
    · rfl
  have hacc := acceptedFrames_congr hlog
  refine ⟨fun c' => (hacc c').trans (h.accepted c'), fun c' => ?_⟩
  dsimp only
  rw [hacc]
  by_cases e : c' = c
  · -- what is written comes off the front of the buffer
    subst e
    obtain ⟨hbytes, -⟩ := (x.pipes.endpoint c' d).handleWrite_buffer results
    have hflow := (hp.flow c' d hd ho).bytes
    change _ ++ (x.pipes.endpoint c' d).sendBuf = _ at hflow
    rw [← hbytes, ← List.append_assoc] at hflow
    simp only [Pipes.write, Function.update_self]
    exact ⟨_, hflow⟩
  · simp only [Pipes.write, Function.update_of_ne e]
    exact h.written c'

theorem offered_step {x x' : Offers} {l : PipesLabel} (hr : Pipes.RunTo P db x.pipes) (h : Offered x)
    (hs : Offers.step P l x = some x') : Offered x' := by
  obtain ⟨p, hp, rfl⟩ := Option.map_eq_some_iff.mp hs
  have hwf := wf_of_run (run_of_pipesRun hr)
  cases l with
  | server l =>
      obtain ⟨hl, s', hs', rfl⟩ := pipes_server hp
      exact offered_server hwf h (sendStep_of_move hwf (move_of_step hwf hs') hl)
  | handleWrite c results =>
      obtain ⟨d, hd, hev, rfl⟩ := pipes_handleWrite hp
      exact offered_write (piped_of_run hr) h hd hev.1 results

/-- A step leaves no gap exactly if it does not accept a packet after a refusal. -/
theorem gapless_step {x x' : Offers} {l : PipesLabel} (h : ∀ c, Gapless (x.offers c))
    (hs : Offers.step P l x = some x') : (∀ c, Gapless (x'.offers c)) ↔ NoRoomLeft P l x := by
  obtain ⟨p, hp, rfl⟩ := Option.map_eq_some_iff.mp hs
  simp only [NoRoomLeft]
  cases ho : x.pipes.offer P l with
  | none => exact iff_of_true h nofun
  | some o =>
      obtain ⟨c, f, room⟩ := o
      simp only [Option.mem_def, Option.some.injEq, forall_eq', Offers.record]
      constructor
      · intro hall
        have hc := hall c
        rw [Function.update_self] at hc
        exact (gapless_concat.mp hc).2
      · intro hroom c'
        by_cases e : c' = c
        · subst e
          rw [Function.update_self]
          exact gapless_concat.mpr ⟨h c', hroom⟩
        · rw [Function.update_of_ne e]
          exact h c'

/-- **When an overflow leaves no gap.** In a run in which every packet that is passed to `send` of a
connection after one was refused is refused as well, for every connection: nothing is accepted after a
refusal, the packets accepted are the first ones of those addressed to the peer, and the bytes written are a
prefix of theirs. A step that accepts a packet after a refusal leaves a gap. -/
theorem no_gap {x : Offers} (h : Offers.RunTo P db (NoRoomLeft P) x) :
    (∀ c, Gapless (x.offers c) ∧ acceptedFrames c x.pipes.server.log <+: x.addressed c ∧
      x.pipes.written c <+: (x.addressed c).flatMap Net.packetBytes) ∧
    ∀ l x', Offers.step P l x = some x' → ((∀ c, Gapless (x'.offers c)) ↔ NoRoomLeft P l x) := by
  have hgap : ∀ c, Gapless (x.offers c) :=
    h.invariant (fun x => ∀ c, Gapless (x.offers c)) (fun _ => .nil)
      fun _ _ _ hroom hg hs => (gapless_step hg hs).mpr hroom
  have hoff : Offered x := h.invariant_reach Offered ⟨fun _ => rfl, fun _ => List.nil_prefix⟩
    fun _ _ _ hr _ ho hs => offered_step (pipes_of_offersRun hr) ho hs
  refine ⟨fun c => ?_, fun l x' hs => gapless_step hgap hs⟩
  have haccepted : acceptedFrames c x.pipes.server.log <+: x.addressed c := by
    rw [hoff.accepted]
    exact (hgap c).prefix_accepted.map Prod.fst
  exact ⟨hgap c, haccepted, (hoff.written c).trans (haccepted.flatMap Net.packetBytes)⟩

namespace Sample

/-- The small server with 30 bytes for a send buffer. -/
def tight : Params := { params with cfg := { params.cfg with maxSendBuf := 30 } }

theorem exists_offersRun (C : PipesLabel → Offers → Prop) [∀ l x, Decidable (C l x)]
    (ls : List Label) (p : Offers → Prop)
    (h : ∃ x ∈ runAll (Offers.step tight) C (ls.map .server)
      ⟨⟨State.init tight Sample.db, fun _ => false, fun _ => []⟩, fun _ => []⟩, p x) :
    ∃ x, Offers.RunTo tight Sample.db C x ∧ p x :=
  exists_reach _ h

/-- Two packets of a connection are answered, and the worker passes both answers to `send`. -/
def answerTwo (cmd₁ cmd₂ : CmdType) (k₁ k₂ : ℕ) : List Label :=
  connect 5 ++ [packet 0 cmd₁ [], packet 0 cmd₂ []] ++ work 0 k₁ ++ work 1 k₂ ++
    [.swap 0, .functor 0, .functor 0]

end Sample

/-- An answer of 24 bytes is accepted, and one of 45 bytes is refused. -/
theorem no_gap_sample : ∃ x, Offers.RunTo Sample.tight Sample.db (NoRoomLeft Sample.tight) x ∧
    (x.offers 0).map Prod.snd = [true, false] ∧
    acceptedFrames 0 x.pipes.server.log <+: x.addressed 0 := by
  obtain ⟨x, hr, hroom⟩ := Sample.exists_offersRun (NoRoomLeft Sample.tight)
    (Sample.answerTwo .heartbeat .addFriend 2 3)
    (fun x => (x.offers 0).map Prod.snd = [true, false]) (by decide)
  exact ⟨x, hr, hroom, ((no_gap hr).1 0).2.1⟩

/-- An answer of 45 bytes is refused, and the answer of 24 bytes after it is accepted: the peer gets the
second packet and not the first one. -/
theorem gap_after_overflow : ∃ x, Offers.RunTo Sample.tight Sample.db (fun _ _ => True) x ∧
    ¬ Gapless (x.offers 0) ∧ ¬ acceptedFrames 0 x.pipes.server.log <+: x.addressed 0 :=
  Sample.exists_offersRun (fun _ _ => True) (Sample.answerTwo .addFriend .heartbeat 3 2)
    (fun x => ¬ Gapless (x.offers 0) ∧ ¬ acceptedFrames 0 x.pipes.server.log <+: x.addressed 0) (by decide)

end AuraChat
