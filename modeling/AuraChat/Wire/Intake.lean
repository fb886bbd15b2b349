import AuraChat.Model.Shutdown
import AuraChat.Wire.Pipe
import AuraChat.Wire.Reference

set_option autoImplicit false

/-!
# The receive path

`Intake` is the server with what comes into it: the receive buffer of each context, and the bytes that were
read from each connection. `handle_read` reads all there is, and then takes one packet off after another.
Between two packets the other threads go on: the pool works on what was taken off before.

* `Intake.step`, `run_of_intakeRun`: the receive side next to the server;
* `HolderStep`, `turn_kept`: what a step of the server does to the holders of the contexts, and to a worker
  that does not take it;
* `Taken`, `taken_step`;
* **`intake_exact`**: what is taken off is what a parser of all bytes that have come in finds.
-/

namespace AuraChat

open Interleave Stream

variable {P : Params} {db : Store} {s s' : State} {l : Label}

/-! ## The receive side of the server -/

/-- The context that a step gives back to its pool, which resets it. -/
def State.releases (s : State) : Label → Option ℕ
  | .close w =>
      match (s.net.workers w).busy with
      | none => none
      | some c => match s.net.conns c with
        | none => none
        | some d =>
            if d.phase = .release ∧ (s.net.ctxs d.ctx).poolIdx ≠ -1 then some d.ctx else none
  | _ => none

/-- The server and what comes into it. -/
structure Intake where
  server : State
  /-- `recv_buf` of the contexts. -/
  recvBuf : ℕ → Bytes
  /-- The connection whose buffer a worker is parsing. -/
  parsing : ℕ → Option ℕ
  /-- What was read from the connections. -/
  arrived : ℕ → Bytes

inductive IntakeLabel
  /-- A step of the server that is not part of a `handle_read`. -/
  | server (l : Label)
  /-- A worker runs the reading loop of `handle_read`. -/
  | receive (c : ℕ) (results : List IoResult)
  /-- A worker runs the next turn of the parsing loop of `handle_read`. -/
  | parse (c : ℕ)

namespace Intake

/-- The step is one of a worker that is parsing. -/
def engaged (l : Label) (p : Intake) : Bool :=
  match p.server.runner l with
  | some (.worker w) => (p.parsing w).isSome
  | _ => false

/-- The receive buffers after a step. -/
def cleared (l : Label) (p : Intake) : ℕ → Bytes :=
  match p.server.releases l with
  | some x => Function.update p.recvBuf x []
  | none => p.recvBuf

/-- The data of a reading loop is appended to the buffer, and the parsing loop begins. -/
def append (c : ℕ) (d : Conn) (data : Bytes) (p : Intake) : Intake :=
  { p with
    recvBuf := Function.update p.recvBuf d.ctx (p.recvBuf d.ctx ++ data)
    parsing := Function.update p.parsing d.worker (some c)
    arrived := Function.update p.arrived c (p.arrived c ++ data) }

/-- `force_close_in_loop` and `return`. -/
def leave (P : Params) (c : ℕ) (d : Conn) (p : Intake) : Option Intake :=
  (AuraChat.step P (.drop c) p.server).map fun s =>
    { p with server := s, parsing := Function.update p.parsing d.worker none }

/-- A turn of the parsing loop. -/
def turn (P : Params) (c : ℕ) (d : Conn) (p : Intake) : Option Intake :=
  match handleReadNext (p.recvBuf d.ctx) with
  | .wait => some { p with parsing := Function.update p.parsing d.worker none }
  | .fail => p.leave P c d
  | .skip _ => none
  | .emit (hdr, body) rest => (AuraChat.step P (.read c hdr body) p.server).map fun s =>
      { p with server := s, recvBuf := Function.update p.recvBuf d.ctx rest }

def step (P : Params) : IntakeLabel → Intake → Option Intake
  | .server (.read _ _ _), _ => none
  | .server l, p =>
      if p.engaged l then none
      else (AuraChat.step P l p.server).map fun s => { p with server := s, recvBuf := p.cleared l }
  | .receive c results, p =>
      match p.server.net.conns c with
      | none => none
      | some d =>
          if p.server.atEvents d ∧ p.parsing d.worker = none then
            let p := p.append c d (readData results)
            if readBroken results then p.leave P c d else some p
          else none
  | .parse c, p =>
      match p.server.net.conns c with
      | none => none
      | some d => if p.parsing d.worker = some c then p.turn P c d else none

/-- The server before the first connection. -/
def init (P : Params) (db : Store) : Intake := ⟨State.init P db, fun _ => [], fun _ => none, fun _ => []⟩

/-- The states that a run reaches, from a start on the store `db`. -/
abbrev RunTo (P : Params) (db : Store) (p : Intake) : Prop := Reach (step P) (fun _ _ => True) (init P db) p

end Intake

/-- The packets that were taken off the buffer of a connection, in order. -/
def packetsOn (c : ℕ) (log : List Entry) : List (PacketHeader × Bytes) :=
  (log.filterMap fun e => match e with
    | .received o hdr body => if o.conn = c then some (hdr, body) else none
    | _ => none).reverse

/-! ## What a step does to the holders of the contexts -/

/-- **What a step does to the holders of the contexts.** -/
inductive HolderStep (P : Params) (s s' : State) : Prop
  | kept (opened : ∀ c d, s'.net.conns c = some d → d.phase = .opened → s.net.conns c = some d)
      (held : ∀ c d, s.net.conns c = some d → d.Live →
        ∃ d', s'.net.conns c = some d' ∧ d'.Live ∧ d'.ctx = d.ctx)
      (hnet : s'.net.nextCtx = s.net.nextCtx ∧ s'.net.nextConn = s.net.nextConn)
  | opens (w : ℕ) (fd : Int) (x : ℕ)
      (hc : s'.net.conns = Function.update s.net.conns s.net.nextConn (some ⟨w, fd, x, .opened⟩))
      (hx : ∀ c d, s.net.conns c = some d → d.Live → d.ctx ≠ x)
      (hnew : (P.pooled x ∧ s'.net.nextCtx = s.net.nextCtx) ∨
        (x = s.net.nextCtx ∧ s'.net.nextCtx = s.net.nextCtx + 1))
      (hn : s'.net.nextConn = s.net.nextConn + 1)
  | released (c : ℕ) (d : Conn) (hd : s.net.conns c = some d) (hp : d.phase = .release)
      (hc : s'.net.conns = Function.update s.net.conns c (some { d with phase := .closed }))
      (hnet : s'.net.nextCtx = s.net.nextCtx ∧ s'.net.nextConn = s.net.nextConn)

theorem holderStep_of_move (hwf : s.net.WF P) (h : Move P s l s') : HolderStep P s s' := by
  by_cases hl : ∀ c n, l ≠ .write c n
  · cases sendStep_of_move hwf h hl with
    | kept hk ha hr => exact .kept hk.opened hk.held ⟨hk.nextCtx, hk.nextConn⟩
    | sent c d f ha hv hd hp hf hnet hs hlog =>
        obtain ⟨hc, hx, hn⟩ := hnet
        refine .kept (fun c d hd _ => by rwa [hc] at hd) (fun c d hd hlive => ?_) ⟨hx, hn⟩
        exact ⟨d, by rw [hc, hd], hlive, rfl⟩
    | opens w fd x ha hc hx hnew hn hs hsx hlog => exact .opens w fd x hc hx hnew hn
    | released c d ha hv hd hp hc hnet hs hsx hlog => exact .released c d hd hp hc hnet
  · push Not at hl
    obtain ⟨c, n, rfl⟩ := hl
    cases h
    exact .kept (fun c d hd _ => hd) (fun c d hd hlive => ⟨d, hd, hlive, rfl⟩) ⟨rfl, rfl⟩

/-- A connection is closed to the end by the statement of its worker that releases its context. -/
theorem release_of_closed (h : Move P s l s') {c : ℕ} {d d' : Conn} (hd : s.net.conns c = some d)
    (hlive : d.Live) (hd' : s'.net.conns c = some d') (hcl : d'.phase = .closed) :
    d.phase = .release ∧ l = .close d.worker := by
  have same : s'.net.conns = s.net.conns → d.phase = .release ∧ l = .close d.worker := by
    intro e
    rw [e, hd] at hd'
    obtain rfl := Option.some.inj hd'
    exact absurd hcl hlive
  -- one connection has gone on, to another phase
  have goes : ∀ {c₁ : ℕ} {d₁ : Conn} {ph : Phase}, s.net.conns c₁ = some d₁ → ph ≠ .closed →
      s'.net.conns = Function.update s.net.conns c₁ (some { d₁ with phase := ph }) →
      d.phase = .release ∧ l = .close d.worker := by
    intro c₁ d₁ ph hd₁ hph e
    rw [e] at hd'
    obtain ⟨d₂, hd₂, -, hat, hoff⟩ := update_phase_cases hd₁ hd'
    obtain rfl := Option.some.inj (hd.symm.trans hd₂)
    by_cases hc : c = c₁
    · exact absurd ((hat hc).2.symm.trans hcl) hph
    · rw [hoff hc] at hcl
      exact absurd hcl hlive
  cases h with
  | add w num fd rest hb hq =>
      dsimp only at hd'
      rw [addConnection_conns, Function.update_apply] at hd'
      split_ifs at hd' with e
      · obtain rfl := Option.some.inj hd'
        cases hcl
      · obtain rfl := Option.some.inj (hd.symm.trans hd')
        exact absurd hcl hlive
  | closed num kick rest c₁ d₁ hb hq hd₁ hp => exact goes hd₁ (by decide) rfl
  | drop c₁ d₁ hd₁ hev => exact goes hd₁ (by decide) rfl
  | check c₁ d₁ hd₁ hp =>
      refine goes hd₁ ?_ rfl
      split_ifs <;> decide
  | loadCancel c₁ d₁ hd₁ hp | cancel c₁ d₁ _ hd₁ hp | loadUnbind c₁ d₁ hd₁ hp | unbind c₁ d₁ _ hd₁ hp
  | closeFd c₁ d₁ hd₁ hp => exact goes hd₁ (by simp) rfl
  | release c₁ d₁ hd₁ hp =>
      rw [Net.releaseContext_conns] at hd'
      split_ifs at hd' with e
      · subst e
        obtain rfl := Option.some.inj (hd.symm.trans hd₁)
        exact ⟨hp, rfl⟩
      · obtain rfl := Option.some.inj (hd.symm.trans hd')
        exact absurd hcl hlive
  | call i e t a k r s₁ hi hp ha => exact same (effect_threads (act_effect ha)).2.2
  | _ => exact same rfl

theorem addConnection_other (n : Net) {w w' : ℕ} (fd : Int) (hne : w' ≠ w) :
    (n.addConnection P w' fd).workers w = n.workers w := by
  rw [Net.addConnection_eq, Net.attach_workers, if_neg (Ne.symm hne)]
  simp only [Net.acquire]
  split
  · rfl
  · rw [Net.updWorker_apply, if_neg (Ne.symm hne)]

theorem releaseContext_other (n : Net) {c : ℕ} {d : Conn} {w : ℕ} (hne : d.worker ≠ w) :
    (n.releaseContext c d).workers w = n.workers w := by
  simp only [Net.releaseContext]
  split_ifs
  · rw [Net.updWorker_apply, if_neg (Ne.symm hne)]
    rfl
  · rw [Net.updWorker_apply, if_neg (Ne.symm hne)]
    rfl

/-- A step that is not its own leaves a worker where it is in its loop, and its connections open. -/
theorem turn_kept (hwf : s.net.WF P) (h : Move P s l s') {w : ℕ} (hr : s.runner l ≠ some (.worker w)) :
    (s'.net.workers w).busy = (s.net.workers w).busy ∧
      (s'.net.workers w).batch = (s.net.workers w).batch ∧
      ∀ c d, s.net.conns c = some d → d.worker = w → d.phase = .opened → s'.net.conns c = some d := by
  have hpush : ∀ (n : Net) (w' : ℕ) (job : Job), ((n.push w' job).workers w).busy = (n.workers w).busy ∧
      ((n.push w' job).workers w).batch = (n.workers w).batch := by
    intro n w' job
    simp only [Net.push, Net.updWorker_apply]
    split_ifs with e <;> simp [e]
  have hpop : ∀ {w' : ℕ} (rest : List Functor), w' ≠ w →
      (s.net.popBatch w' rest).workers w = s.net.workers w := by
    intro w' rest hne
    rw [Net.popBatch, Net.updWorker_apply, if_neg (Ne.symm hne)]
  have hleave : ∀ (n : Net) {c : ℕ} {d : Conn}, d.worker ≠ w →
      (n.leave c d).workers w = n.workers w := by
    intro n c d hne
    rw [Net.leave, Net.updWorker_apply, if_neg (Ne.symm hne)]
    rfl
  -- a connection of another worker has gone on
  have hother : ∀ {c₁ : ℕ} {d₁ : Conn} {ph : Phase}, s.net.conns c₁ = some d₁ → d₁.worker ≠ w →
      ∀ c d, s.net.conns c = some d → d.worker = w → d.phase = .opened →
      Function.update s.net.conns c₁ (some { d₁ with phase := ph }) c = some d := by
    intro c₁ d₁ ph hd₁ hne c d hd hw _
    rw [Function.update_of_ne, hd]
    rintro rfl
    obtain rfl := Option.some.inj (hd.symm.trans hd₁)
    exact hne hw
  have hown : ∀ {w' : ℕ}, s.runner l = some (.worker w') → w' ≠ w := by
    rintro w' e rfl
    exact hr e
  cases h with
  | accept fd h0 hfd => exact ⟨(hpush _ _ _).1, (hpush _ _ _).2, fun c d hd _ _ => hd⟩
  | swap w' hb hq =>
      have hw : (s.net.updWorker w' fun k => { k with batch := k.pending, pending := [] }).workers w =
          s.net.workers w := by rw [Net.updWorker_apply, if_neg (Ne.symm (hown rfl))]
      exact ⟨congrArg _ hw, congrArg _ hw, fun c d hd _ _ => hd⟩
  | add w' num fd rest hb hq =>
      have hne := hown rfl
      have hw := (addConnection_other (P := P) (s.net.popBatch w' rest) fd hne).trans (hpop rest hne)
      refine ⟨congrArg _ hw, congrArg _ hw, fun c d hd _ _ => ?_⟩
      have hc : c ≠ (s.net.popBatch w' rest).nextConn := Nat.ne_of_lt (hwf.conn_lt c d hd)
      dsimp only
      rw [addConnection_conns, Function.update_of_ne hc]
      exact hd
  | sent w' num f rest c d hb hq ha =>
      have hw := hpop rest (hown rfl)
      exact ⟨congrArg _ hw, congrArg _ hw, fun c d hd _ _ => hd⟩
  | lost w' num f rest hb hq ha =>
      have hw := hpop rest (hown rfl)
      exact ⟨congrArg _ hw, congrArg _ hw, fun c d hd _ _ => hd⟩
  | overflow w' num f rest c d hb hq ha hroute =>
      have hw := hpop rest (hown rfl)
      obtain ⟨hbusy, hbatch⟩ := hpush (s.net.popBatch w' rest) w' (.close d.fd none)
      exact ⟨hbusy.trans (congrArg _ hw), hbatch.trans (congrArg _ hw), fun c d hd _ _ => hd⟩
  | missed w' num fd kick rest hb hq hc =>
      have hw := hpop rest (hown rfl)
      exact ⟨congrArg _ hw, congrArg _ hw, fun c d hd _ _ => hd⟩
  | closed num kick rest c d hb hq hd hp =>
      have hne := hown rfl
      have hw := (hleave (s.net.popBatch d.worker rest) (c := c) hne).trans (hpop rest hne)
      exact ⟨congrArg _ hw, congrArg _ hw, hother hd hne⟩
  | drop c d hd hev =>
      have hne : d.worker ≠ w := hown (by rw [State.runner, hd]; rfl)
      have hw := hleave s.net (c := c) hne
      exact ⟨congrArg _ hw, congrArg _ hw, hother hd hne⟩
  | check c d hd hp | loadCancel c d hd hp | cancel c d _ hd hp | loadUnbind c d hd hp | unbind c d _ hd hp
  | closeFd c d hd hp =>
      exact ⟨rfl, rfl, hother hd (hown rfl)⟩
  | release c d hd hp =>
      have hne := hown rfl
      have hw := releaseContext_other s.net (c := c) hne
      refine ⟨congrArg _ hw, congrArg _ hw, fun c' d' hd' hw' ho => ?_⟩
      dsimp only
      rw [Net.releaseContext_conns, ← Function.update_apply]
      exact hother hd hne c' d' hd' hw' ho
  | call i e t a k r s₁ hi hp ha =>
      have hconns := (effect_threads (act_effect ha)).2.2
      have hkept : ∀ c d, s.net.conns c = some d → d.worker = w → d.phase = .opened →
          s₁.net.conns c = some d := fun c d hd _ _ => by rw [hconns, hd]
      cases act_effect ha with
      | send | kick => exact ⟨(hpush _ _ _).1, (hpush _ _ _).2, hkept⟩
      | _ => exact ⟨rfl, rfl, hkept⟩
  | expire req rest now w' f hq hw ho hx hy =>
      exact ⟨(hpush _ _ _).1, (hpush _ _ _).2, fun c d hd _ _ => hd⟩
  | read | write | dequeue | finish | forget | activate | dispatch | drain | flush =>
      exact ⟨rfl, rfl, fun c d hd _ _ => hd⟩

/-! ## What is taken off -/

theorem packetsOn_cons (c : ℕ) {e : Entry} (he : ∀ o hdr body, e ≠ .received o hdr body)
    (log : List Entry) : packetsOn c (e :: log) = packetsOn c log := by
  cases e with
  | received o hdr body => exact absurd rfl (he o hdr body)
  | _ => rfl

theorem packetsOn_received (c : ℕ) (o : Origin) (hdr : PacketHeader) (body : Bytes) (log : List Entry) :
    packetsOn c (.received o hdr body :: log) =
      packetsOn c log ++ if o.conn = c then [(hdr, body)] else [] := by
  simp only [packetsOn, List.filterMap_cons]
  split_ifs
  · exact List.reverse_cons
  · exact (List.append_nil _).symm

theorem packetsOn_move (h : Move P s l s') (hl : ∀ c hdr body, l ≠ .read c hdr body) (c : ℕ) :
    packetsOn c s'.log = packetsOn c s.log := by
  cases h with
  | read c' d hdr body ts hd hev hfr ht => exact absurd rfl (hl c' hdr body)
  | sent | closed | drop | expire => exact packetsOn_cons c (fun _ _ _ e => by cases e) _
  | call i e t a k r s₁ hi hp ha =>
      refine (packetsOn_cons c (fun _ _ _ e => by cases e) _).trans ?_
      rcases effect_log_eq (act_effect ha) with e | ⟨x, cmd, seq, body, why, -, e⟩ | ⟨m, -, e⟩
      · rw [e]
      · rw [e, packetsOn_cons c (fun _ _ _ e => by cases e)]
      · rw [e, packetsOn_cons c (fun _ _ _ e => by cases e)]
  | _ => rfl

/-- **The receive buffers**: what has come in is the packets taken off and what is in the buffer. -/
structure Poured (P : Params) (p : Intake) : Prop where
  flow : ∀ c d, p.server.net.conns c = some d → d.phase = .opened →
    handleReadDecoder.drain (p.arrived c) =
      (handleReadDecoder.drain (p.recvBuf d.ctx)).after (packetsOn c p.server.log)
  front : ∀ c, packetsOn c p.server.log <+: (handleReadDecoder.drain (p.arrived c)).emitted
  clean : ∀ x, (∀ c d, p.server.net.conns c = some d → d.Live → d.ctx ≠ x) →
    (P.pooled x ∨ p.server.net.nextCtx ≤ x) → p.recvBuf x = []
  fresh : ∀ c, p.server.net.nextConn ≤ c → p.arrived c = [] ∧ packetsOn c p.server.log = []

/-- **The workers**: one that is parsing is at an open connection, and a buffer that is not being parsed
holds no packet. -/
structure Turning (p : Intake) : Prop where
  waits : ∀ c d, p.server.net.conns c = some d → d.phase = .opened → p.parsing d.worker ≠ some c →
    handleReadNext (p.recvBuf d.ctx) = .wait
  parsing : ∀ w c, p.parsing w = some c →
    ∃ d, p.server.net.conns c = some d ∧ d.worker = w ∧ p.server.atEvents d

theorem poured_init : Poured P (Intake.init P db) where
  flow c d hd := by cases hd
  front c := List.nil_prefix
  clean x _ _ := rfl
  fresh c _ := ⟨rfl, rfl⟩

theorem turning_init : Turning (Intake.init P db) where
  waits c d hd := by cases hd
  parsing w c hc := by cases hc

section Steps

variable {p : Intake}

theorem releases_eq {x : ℕ} (h : s.releases l = some x) :
    ∃ c d, s.net.conns c = some d ∧ d.phase = .release ∧ d.ctx = x := by
  unfold State.releases at h
  split at h
  · split at h
    · cases h
    rename_i c _
    split at h
    · cases h
    rename_i d hd
    split_ifs at h with hr
    exact ⟨c, d, hd, hr.1, Option.some.inj h⟩
  · cases h

theorem cleared_cases (l : Label) (p : Intake) (x : ℕ) :
    p.cleared l x = p.recvBuf x ∨ p.cleared l x = [] := by
  rcases hr : p.server.releases l with _ | y
  · exact .inl (by rw [Intake.cleared, hr])
  · rw [Intake.cleared, hr]
    dsimp only
    rw [Function.update_apply]
    split_ifs
    · exact .inr rfl
    · exact .inl rfl

theorem cleared_opened (hwf : p.server.net.WF P) (l : Label) {c : ℕ} {d : Conn}
    (hd : p.server.net.conns c = some d) (ho : d.phase = .opened) :
    p.cleared l d.ctx = p.recvBuf d.ctx := by
  rcases hx : p.server.releases l with _ | x
  · rw [Intake.cleared, hx]
  · obtain ⟨c', d', hd', hr, rfl⟩ := releases_eq hx
    rw [Intake.cleared, hx]
    refine Function.update_of_ne (fun e => ?_) _ _
    have hlive : d'.Live := by simp [Conn.Live, hr]
    obtain rfl := hwf.ctx_inj c d c' d' hd hd' (Conn.holds_of_opened ho).live hlive e
    obtain rfl := Option.some.inj (hd.symm.trans hd')
    rw [ho] at hr
    cases hr

theorem cleared_release (hwf : p.server.net.WF P) {c : ℕ} {d : Conn}
    (hd : p.server.net.conns c = some d) (hr : d.phase = .release) (hpool : P.pooled d.ctx) :
    p.cleared (.close d.worker) d.ctx = [] := by
  have hbusy : (p.server.net.workers d.worker).busy = some c :=
    (hwf.busy d.worker c).mpr ⟨d, hd, rfl, by simp [Conn.Closing, hr]⟩
  have hidx : (p.server.net.ctxs d.ctx).poolIdx ≠ -1 := by
    have := (hwf.owner d.ctx hpool).2
    omega
  have hreleases : p.server.releases (.close d.worker) = some d.ctx := by
    simp only [State.releases, hbusy, hd, hr, hidx, ne_eq, not_false_eq_true, and_self, if_true]
  rw [Intake.cleared, hreleases]
  exact Function.update_self ..

/-- An open connection after a step of the server has its buffer from before, or it is new and its
buffer is empty. -/
theorem opened_buffer (hwf : p.server.net.WF P) (hp : Poured P p) (h : Move P p.server l s') {c : ℕ}
    {d : Conn} (hd : s'.net.conns c = some d) (ho : d.phase = .opened) :
    (p.server.net.conns c = some d ∧ p.cleared l d.ctx = p.recvBuf d.ctx) ∨
      (p.server.net.nextConn ≤ c ∧ p.cleared l d.ctx = []) := by
  have old : p.server.net.conns c = some d → _ := fun hd =>
    Or.inl (b := p.server.net.nextConn ≤ c ∧ p.cleared l d.ctx = [])
      (And.intro hd (cleared_opened hwf l hd ho))
  cases holderStep_of_move hwf h with
  | kept hopened hheld hnet => exact old (hopened c d hd ho)
  | opens w fd x hc hx hnew hn =>
      rw [hc, Function.update_apply] at hd
      split_ifs at hd with e
      · obtain rfl := Option.some.inj hd
        have hempty : p.recvBuf x = [] :=
          hp.clean x hx (hnew.imp And.left fun e => Nat.le_of_eq e.1.symm)
        refine .inr ⟨Nat.le_of_eq e.symm, ?_⟩
        rcases cleared_cases l p x with he | he
        · exact he.trans hempty
        · exact he
      · exact old hd
  | released c' d' hd' hr hc hnet =>
      rw [hc, Function.update_apply] at hd
      split_ifs at hd with e
      · obtain rfl := Option.some.inj hd
        cases ho
      · exact old hd

theorem holderStep_mono (h : HolderStep P s s') :
    s.net.nextConn ≤ s'.net.nextConn ∧ s.net.nextCtx ≤ s'.net.nextCtx := by
  cases h with
  | kept hopened hheld hnet => omega
  | opens w fd x hc hx hnew hn => omega
  | released c d hd hr hc hnet => omega

theorem poured_server (hwf : p.server.net.WF P) (hp : Poured P p) (h : Move P p.server l s')
    (hl : ∀ c hdr body, l ≠ .read c hdr body) :
    Poured P { p with server := s', recvBuf := p.cleared l } := by
  have hpackets := packetsOn_move h hl
  obtain ⟨hconn, hctx⟩ := holderStep_mono (holderStep_of_move hwf h)
  constructor
  case flow =>
    intro c d hd ho
    dsimp only at hd ⊢
    rw [hpackets]
    rcases opened_buffer hwf hp h hd ho with ⟨hd, he⟩ | ⟨hc, he⟩
    · rw [he]
      exact hp.flow c d hd ho
    · obtain ⟨harrived, hnone⟩ := hp.fresh c hc
      rw [he, harrived, hnone]
      rfl
  case front =>
    intro c
    dsimp only
    rw [hpackets]
    exact hp.front c
  case clean =>
    intro x hfree hx
    dsimp only at hfree hx ⊢
    by_cases hheld : ∃ c d, p.server.net.conns c = some d ∧ d.Live ∧ d.ctx = x
    · -- the step has given the context back
      obtain ⟨c, d, hd, hlive, rfl⟩ := hheld
      obtain ⟨ph, hd'⟩ := move_conn hwf h hd
      have hcl : ph = .closed := by
        by_contra hne
        exact hfree c _ hd' hne rfl
      obtain ⟨hr, rfl⟩ := release_of_closed h hd hlive hd' hcl
      refine cleared_release hwf hd hr (hx.resolve_right fun hle => ?_)
      have := hwf.ctx_lt c d hd
      omega
    · push Not at hheld
      have hempty := hp.clean x hheld (hx.imp_right hctx.trans)
      rcases cleared_cases l p x with he | he
      · exact he.trans hempty
      · exact he
  case fresh =>
    intro c hc
    obtain ⟨harrived, hnone⟩ := hp.fresh c (hconn.trans hc)
    exact ⟨harrived, (hpackets c).trans hnone⟩

theorem wait_nil : handleReadNext [] = .wait := if_pos (by decide)

theorem waits_server (hwf : p.server.net.WF P) (hp : Poured P p) (ht : Turning p)
    (h : Move P p.server l s') {c : ℕ} {d : Conn} (hd : s'.net.conns c = some d)
    (ho : d.phase = .opened) (hc : p.parsing d.worker ≠ some c) :
    handleReadNext (p.cleared l d.ctx) = .wait := by
  rcases opened_buffer hwf hp h hd ho with ⟨hd, he⟩ | ⟨-, he⟩
  · rw [he]
    exact ht.waits c d hd ho hc
  · rw [he]
    exact wait_nil

theorem parsing_server (hwf : p.server.net.WF P) (ht : Turning p) (h : Move P p.server l s') {w c : ℕ}
    (hc : p.parsing w = some c) (hr : p.server.runner l ≠ some (.worker w)) :
    ∃ d, s'.net.conns c = some d ∧ d.worker = w ∧ s'.atEvents d := by
  obtain ⟨d, hd, rfl, ho, hbusy, hbatch⟩ := ht.parsing w c hc
  obtain ⟨hbusy', hbatch', hconns⟩ := turn_kept hwf h hr
  exact ⟨d, hconns c d hd rfl ho, rfl, ho, hbusy'.trans hbusy, hbatch'.trans hbatch⟩

theorem turning_server (hwf : p.server.net.WF P) (hp : Poured P p) (ht : Turning p)
    (h : Move P p.server l s') (hfree : p.engaged l = false) :
    Turning { p with server := s', recvBuf := p.cleared l } where
  waits c d hd ho hc := waits_server hwf hp ht h hd ho hc
  parsing w c hc := by
    refine parsing_server hwf ht h hc fun hr => ?_
    simp only [Intake.engaged, hr] at hfree
    change p.parsing w = some c at hc
    rw [hc] at hfree
    cases hfree

theorem turning_leave (hwf : p.server.net.WF P) (hp : Poured P p) (ht : Turning p) {c : ℕ} {d : Conn}
    (hd : p.server.net.conns c = some d) (hc : p.parsing d.worker = some c)
    (h : Move P p.server (.drop c) s') :
    Turning { p with server := s', parsing := Function.update p.parsing d.worker none } := by
  have hrunner : p.server.runner (.drop c) = some (.worker d.worker) := by
    rw [State.runner, hd]
    rfl
  constructor
  case waits =>
    intro c' d' hd' ho' hc'
    refine waits_server hwf hp ht h hd' ho' fun he => ?_
    by_cases hw : d'.worker = d.worker
    · -- the worker was parsing the connection that is open no longer
      obtain rfl := Option.some.inj (hc.symm.trans (hw ▸ he))
      cases h with
      | drop c d hd₁ hev =>
          change Function.update p.server.net.conns c (some { d with phase := .check }) c = some d' at hd'
          rw [Function.update_self] at hd'
          obtain rfl := Option.some.inj hd'
          cases ho'
    · exact hc' ((Function.update_of_ne hw ..).trans he)
  case parsing =>
    intro w c' hc'
    dsimp only at hc'
    rw [Function.update_apply] at hc'
    split_ifs at hc' with hw
    refine parsing_server hwf ht h hc' fun hr => ?_
    rw [hrunner] at hr
    exact hw (by injection Option.some.inj hr with e; exact e.symm)

/-- A packet is taken off the buffer and handed on. -/
theorem poured_emit (hwf : p.server.net.WF P) (hp : Poured P p) {c : ℕ} {d : Conn} {hdr : PacketHeader}
    {body rest : Bytes} (hd : p.server.net.conns c = some d)
    (hnext : handleReadNext (p.recvBuf d.ctx) = .emit (hdr, body) rest)
    (h : Move P p.server (.read c hdr body) s') :
    Poured P { p with server := s', recvBuf := Function.update p.recvBuf d.ctx rest } := by
  cases h with
  | read _ d₁ _ _ ts hd₁ hev hfr hts =>
      obtain rfl := Option.some.inj (hd.symm.trans hd₁)
      have hlive := (Conn.holds_of_opened hev.1).live
      have hflow : handleReadDecoder.drain (p.arrived c) = (handleReadDecoder.drain rest).after
          (packetsOn c p.server.log ++ [(hdr, body)]) := by
        rw [hp.flow c d hd hev.1, Decoder.drain_emit hnext, Decoder.after_after]
      have hown : ∀ o : Origin, o.conn = c → packetsOn c (.received o hdr body :: p.server.log) =
          packetsOn c p.server.log ++ [(hdr, body)] := fun o ho => by
        rw [packetsOn_received, if_pos ho]
      have hother : ∀ (o : Origin) (c' : ℕ), o.conn ≠ c' →
          packetsOn c' (.received o hdr body :: p.server.log) = packetsOn c' p.server.log :=
        fun o c' ho => by rw [packetsOn_received, if_neg ho, List.append_nil]
      constructor
      case flow =>
        intro c' d' hd' ho'
        dsimp only at hd' ⊢
        by_cases he : c' = c
        · subst he
          obtain rfl := Option.some.inj (hd.symm.trans hd')
          rw [Function.update_self, hown _ rfl]
          exact hflow
        · have hctx : d'.ctx ≠ d.ctx := fun e =>
            he (hwf.ctx_inj c' d' c d hd' hd (Conn.holds_of_opened ho').live hlive e)
          rw [Function.update_of_ne hctx, hother _ _ (Ne.symm he)]
          exact hp.flow c' d' hd' ho'
      case front =>
        intro c'
        dsimp only
        by_cases he : c' = c
        · subst he
          rw [hown _ rfl, hflow]
          exact List.prefix_append _ _
        · rw [hother _ _ (Ne.symm he)]
          exact hp.front c'
      case clean =>
        intro x hfree hx
        dsimp only at hfree hx ⊢
        rw [Function.update_of_ne (hfree c d hd hlive).symm]
        exact hp.clean x hfree hx
      case fresh =>
        intro c' hc'
        dsimp only at hc' ⊢
        have hne : c ≠ c' := Nat.ne_of_lt (Nat.lt_of_lt_of_le (hwf.conn_lt c d hd) hc')
        rw [hother _ _ hne]
        exact hp.fresh c' hc'

theorem turning_emit (hwf : p.server.net.WF P) (ht : Turning p) {c : ℕ} {d : Conn} {hdr : PacketHeader}
    {body rest : Bytes} (hd : p.server.net.conns c = some d) (hc : p.parsing d.worker = some c)
    (h : Move P p.server (.read c hdr body) s') :
    Turning { p with server := s', recvBuf := Function.update p.recvBuf d.ctx rest } := by
  cases h with
  | read _ d₁ _ _ ts hd₁ hev hfr hts =>
      obtain rfl := Option.some.inj (hd.symm.trans hd₁)
      have hlive := (Conn.holds_of_opened hev.1).live
      refine ⟨fun c' d' hd' ho' hc' => ?_, ht.parsing⟩
      dsimp only at hd' hc' ⊢
      have he : c' ≠ c := by
        rintro rfl
        obtain rfl := Option.some.inj (hd.symm.trans hd')
        exact hc' hc
      have hctx : d'.ctx ≠ d.ctx := fun e =>
        he (hwf.ctx_inj c' d' c d hd' hd (Conn.holds_of_opened ho').live hlive e)
      rw [Function.update_of_ne hctx]
      exact ht.waits c' d' hd' ho' hc'

/-- Data comes in, and the parsing loop begins. -/
theorem poured_append (hwf : p.server.net.WF P) (hp : Poured P p) (ht : Turning p) {c : ℕ} {d : Conn}
    (hd : p.server.net.conns c = some d) (ho : d.phase = .opened) (hnone : p.parsing d.worker = none)
    (data : Bytes) : Poured P (p.append c d data) := by
  have hlive := (Conn.holds_of_opened ho).live
  -- the buffer waits for more, so that what follows is parsed after what is there
  have hwait : handleReadNext (p.recvBuf d.ctx) = .wait :=
    ht.waits c d hd ho (by rw [hnone]; exact fun e => by cases e)
  have hflow : handleReadDecoder.drain (p.arrived c ++ data) =
      (handleReadDecoder.drain (p.recvBuf d.ctx ++ data)).after (packetsOn c p.server.log) := by
    have hbuf : handleReadDecoder.drain (p.recvBuf d.ctx) = ⟨[], p.recvBuf d.ctx, false⟩ :=
      Decoder.drain_wait hwait
    have hbefore := hp.flow c d hd ho
    rw [hbuf] at hbefore
    rw [Decoder.drain_append _ _ (by rw [hbefore]; rfl), hbefore]
    change (handleReadDecoder.drain (p.recvBuf d.ctx ++ data)).after (_ ++ []) = _
    rw [List.append_nil]
  constructor
  case flow =>
    intro c' d' hd' ho'
    change p.server.net.conns c' = some d' at hd'
    simp only [Intake.append]
    by_cases he : c' = c
    · subst he
      obtain rfl := Option.some.inj (hd.symm.trans hd')
      rw [Function.update_self, Function.update_self]
      exact hflow
    · have hctx : d'.ctx ≠ d.ctx := fun e =>
        he (hwf.ctx_inj c' d' c d hd' hd (Conn.holds_of_opened ho').live hlive e)
      rw [Function.update_of_ne he, Function.update_of_ne hctx]
      exact hp.flow c' d' hd' ho'
  case front =>
    intro c'
    simp only [Intake.append]
    by_cases he : c' = c
    · subst he
      rw [Function.update_self, hflow]
      exact List.prefix_append _ _
    · rw [Function.update_of_ne he]
      exact hp.front c'
  case clean =>
    intro x hfree hx
    simp only [Intake.append]
    rw [Function.update_of_ne (hfree c d hd hlive).symm]
    exact hp.clean x hfree hx
  case fresh =>
    intro c' hc'
    have hne : c' ≠ c := Nat.ne_of_gt (Nat.lt_of_lt_of_le (hwf.conn_lt c d hd) hc')
    simp only [Intake.append]
    rw [Function.update_of_ne hne]
    exact hp.fresh c' hc'

theorem turning_append (hwf : p.server.net.WF P) (ht : Turning p) {c : ℕ} {d : Conn}
    (hd : p.server.net.conns c = some d) (hev : p.server.atEvents d) (hnone : p.parsing d.worker = none)
    (data : Bytes) : Turning (p.append c d data) := by
  have hlive := (Conn.holds_of_opened hev.1).live
  constructor
  case waits =>
    intro c' d' hd' ho' hc'
    change p.server.net.conns c' = some d' at hd'
    simp only [Intake.append] at hc' ⊢
    have he : c' ≠ c := by
      rintro rfl
      obtain rfl := Option.some.inj (hd.symm.trans hd')
      exact hc' (Function.update_self ..)
    have hctx : d'.ctx ≠ d.ctx := fun e =>
      he (hwf.ctx_inj c' d' c d hd' hd (Conn.holds_of_opened ho').live hlive e)
    rw [Function.update_of_ne hctx]
    refine ht.waits c' d' hd' ho' fun hc => ?_
    by_cases hw : d'.worker = d.worker
    · rw [hw, hnone] at hc
      cases hc
    · exact hc' ((Function.update_of_ne hw ..).trans hc)
  case parsing =>
    intro w c' hc'
    simp only [Intake.append] at hc'
    rw [Function.update_apply] at hc'
    split_ifs at hc' with hw
    · obtain rfl := Option.some.inj hc'
      exact ⟨d, hd, hw.symm, hev⟩
    · exact ht.parsing w c' hc'

/-- The parsing loop ends where the buffer holds no whole packet. -/
theorem turning_wait (ht : Turning p) {c : ℕ} {d : Conn} (hd : p.server.net.conns c = some d)
    (hc : p.parsing d.worker = some c) (hnext : handleReadNext (p.recvBuf d.ctx) = .wait) :
    Turning { p with parsing := Function.update p.parsing d.worker none } := by
  constructor
  case waits =>
    intro c' d' hd' ho' hc'
    by_cases he : c' = c
    · subst he
      obtain rfl := Option.some.inj (hd.symm.trans hd')
      exact hnext
    · refine ht.waits c' d' hd' ho' fun hw => ?_
      by_cases hworker : d'.worker = d.worker
      · rw [hworker, hc] at hw
        exact he (Option.some.inj hw).symm
      · exact hc' ((Function.update_of_ne hworker ..).trans hw)
  case parsing =>
    intro w c' hc'
    dsimp only at hc'
    rw [Function.update_apply] at hc'
    split_ifs at hc'
    exact ht.parsing w c' hc'

end Steps

/-! ## Runs -/

/-- What a step does: a step of the server that is not part of a `handle_read`, a reading loop, or a turn
of the parsing loop. -/
theorem intake_cases {p p' : Intake} {l : IntakeLabel} (hs : Intake.step P l p = some p') :
    (∃ sl s', (∀ c hdr body, sl ≠ .read c hdr body) ∧ p.engaged sl = false ∧
      step P sl p.server = some s' ∧ p' = { p with server := s', recvBuf := p.cleared sl }) ∨
    (∃ c d results, p.server.net.conns c = some d ∧ p.server.atEvents d ∧ p.parsing d.worker = none ∧
      ((readBroken results = true ∧ (p.append c d (readData results)).leave P c d = some p') ∨
        (readBroken results = false ∧ p' = p.append c d (readData results)))) ∨
    ∃ c d, p.server.net.conns c = some d ∧ p.parsing d.worker = some c ∧ p.turn P c d = some p' := by
  cases l with
  | server sl =>
      have hmap : (if p.engaged sl then none else (step P sl p.server).map fun s =>
          ({ p with server := s, recvBuf := p.cleared sl } : Intake)) = some p' ∧
          ∀ c hdr body, sl ≠ .read c hdr body := by
        cases sl with
        | read c hdr body => cases hs
        | _ => exact ⟨hs, fun _ _ _ e => by cases e⟩
      obtain ⟨hmap, hl⟩ := hmap
      split_ifs at hmap with he
      obtain ⟨s', hs', rfl⟩ := Option.map_eq_some_iff.mp hmap
      exact .inl ⟨sl, s', hl, Bool.eq_false_iff.mpr he, hs', rfl⟩
  | receive c results =>
      simp only [Intake.step] at hs
      split at hs
      · cases hs
      rename_i d hd
      split_ifs at hs with hev hbroken
      · exact .inr (.inl ⟨c, d, results, hd, hev.1, hev.2, .inl ⟨hbroken, hs⟩⟩)
      · exact .inr (.inl ⟨c, d, results, hd, hev.1, hev.2,
          .inr ⟨Bool.eq_false_iff.mpr hbroken, (Option.some.inj hs).symm⟩⟩)
  | parse c =>
      simp only [Intake.step] at hs
      split at hs
      · cases hs
      rename_i d hd
      split_ifs at hs with hc
      exact .inr (.inr ⟨c, d, hd, hc, hs⟩)

theorem turn_cases {p p' : Intake} {c : ℕ} {d : Conn} (hs : p.turn P c d = some p') :
    (handleReadNext (p.recvBuf d.ctx) = .wait ∧
      p' = { p with parsing := Function.update p.parsing d.worker none }) ∨
    p.leave P c d = some p' ∨
    ∃ hdr body rest s', handleReadNext (p.recvBuf d.ctx) = .emit (hdr, body) rest ∧
      step P (.read c hdr body) p.server = some s' ∧
      p' = { p with server := s', recvBuf := Function.update p.recvBuf d.ctx rest } := by
  unfold Intake.turn at hs
  split at hs
  · rename_i hnext
    exact .inl ⟨hnext, (Option.some.inj hs).symm⟩
  · exact .inr (.inl hs)
  · cases hs
  · rename_i hdr body rest hnext
    obtain ⟨s', hs', rfl⟩ := Option.map_eq_some_iff.mp hs
    exact .inr (.inr ⟨hdr, body, rest, s', hnext, hs', rfl⟩)

theorem leave_cases {p p' : Intake} {c : ℕ} {d : Conn} (hs : p.leave P c d = some p') :
    ∃ s', step P (.drop c) p.server = some s' ∧
      p' = { p with server := s', parsing := Function.update p.parsing d.worker none } := by
  obtain ⟨s', hs', rfl⟩ := Option.map_eq_some_iff.mp hs
  exact ⟨s', hs', rfl⟩

/-- **The server next to the receive side is the server.** -/
theorem run_of_intakeRun {p : Intake} (h : Intake.RunTo P db p) :
    RunTo P db (fun _ _ => True) p.server := by
  refine h.map Intake.server fun l p p' _ hs => ?_
  rcases intake_cases hs with ⟨sl, s', -, -, hs', rfl⟩ |
    ⟨c, d, results, -, -, -, ⟨-, hleave⟩ | ⟨-, rfl⟩⟩ | ⟨c, d, -, -, hturn⟩
  · exact .tail .refl trivial hs'
  · obtain ⟨s', hs', rfl⟩ := leave_cases hleave
    exact .tail .refl trivial hs'
  · exact .refl
  · rcases turn_cases hturn with ⟨-, rfl⟩ | hleave | ⟨hdr, body, rest, s', -, hs', rfl⟩
    · exact .refl
    · obtain ⟨s', hs', rfl⟩ := leave_cases hleave
      exact .tail .refl trivial hs'
    · exact .tail .refl trivial hs'

theorem taken_leave {p p' : Intake} {c : ℕ} {d : Conn} (hwf : p.server.net.WF P)
    (hp : Poured P p ∧ Turning p) (hd : p.server.net.conns c = some d)
    (hc : p.parsing d.worker = some c) (hs : p.leave P c d = some p') : Poured P p' ∧ Turning p' := by
  obtain ⟨s', hs', rfl⟩ := leave_cases hs
  have hm := move_of_step hwf hs'
  obtain ⟨hflow, hfront, hclean, hfresh⟩ := poured_server hwf hp.1 hm fun _ _ _ e => by cases e
  exact ⟨⟨hflow, hfront, hclean, hfresh⟩, turning_leave hwf hp.1 hp.2 hd hc hm⟩

theorem taken_step {p p' : Intake} {l : IntakeLabel} (hwf : p.server.net.WF P)
    (hp : Poured P p ∧ Turning p) (hs : Intake.step P l p = some p') : Poured P p' ∧ Turning p' := by
  rcases intake_cases hs with ⟨sl, s', hl, hfree, hs', rfl⟩ |
    ⟨c, d, results, hd, hev, hnone, hend⟩ | ⟨c, d, hd, hc, hturn⟩
  · have hm := move_of_step hwf hs'
    exact ⟨poured_server hwf hp.1 hm hl, turning_server hwf hp.1 hp.2 hm hfree⟩
  · have hnext : Poured P (p.append c d (readData results)) ∧ Turning (p.append c d (readData results)) :=
      ⟨poured_append hwf hp.1 hp.2 hd hev.1 hnone _, turning_append hwf hp.2 hd hev hnone _⟩
    rcases hend with ⟨-, hleave⟩ | ⟨-, rfl⟩
    · exact taken_leave (p := p.append c d (readData results)) hwf hnext hd (Function.update_self ..) hleave
    · exact hnext
  · rcases turn_cases hturn with ⟨hnext, rfl⟩ | hleave | ⟨hdr, body, rest, s', hnext, hs', rfl⟩
    · obtain ⟨hflow, hfront, hclean, hfresh⟩ := hp.1
      exact ⟨⟨hflow, hfront, hclean, hfresh⟩, turning_wait hp.2 hd hc hnext⟩
    · exact taken_leave hwf hp hd hc hleave
    · have hm := move_of_step hwf hs'
      exact ⟨poured_emit hwf hp.1 hd hnext hm, turning_emit hwf hp.2 hd hc hm⟩

theorem taken_of_run {p : Intake} (h : Intake.RunTo P db p) : Poured P p ∧ Turning p :=
  h.invariant_reach (fun p => Poured P p ∧ Turning p) ⟨poured_init, turning_init⟩
    fun _ _ _ hr _ hp hs => taken_step (wf_of_run (run_of_intakeRun hr)) hp hs

theorem packets_front {p : Intake} (h : Intake.RunTo P db p) (c : ℕ) :
    packetsOn c p.server.log <+: (parseStream (p.arrived c)).1 := by
  rw [parseStream_eq]
  exact (taken_of_run h).1.front c

theorem turn_enabled {p : Intake} {c : ℕ} {d : Conn} (hd : p.server.net.conns c = some d)
    (hev : p.server.atEvents d) : ∃ p', p.turn P c d = some p' := by
  unfold Intake.turn
  rcases handleReadNext_cases (p.recvBuf d.ctx) with hw | ⟨h16, hbad⟩ | ⟨hdr, hh, hm, hb, hlen⟩
  · rw [hw]
    exact ⟨_, rfl⟩
  · rw [handleReadNext_fail h16 rfl hbad]
    simp only [Intake.leave, step, hd, if_pos hev, Option.map_some]
    exact ⟨_, rfl⟩
  · have hnext := handleReadNext_emit hh hm hb hlen
    have hfr := handleReadNext_framed hnext
    rw [hnext]
    simp only [step, hd, if_pos (And.intro hev hfr), Option.map_some]
    exact ⟨_, rfl⟩

/-- **The receive path is an exact byte pipe, and its parser is that of a whole stream.** In every run,
however the bytes of the clients are cut into reads, whatever the other threads do between two packets and
whoever had the context before: the packets taken off for a connection are the first of those that a parser
of all bytes read from it finds. While it is open, these packets and the buffer are all bytes read; a worker
that is parsing it can go on; and where none is, all whole packets have been taken off, no bad header has
been read, and the buffer is shorter than the longest packet. -/
theorem intake_exact {p : Intake} (h : Intake.RunTo P db p) (c : ℕ) :
    packetsOn c p.server.log <+: (parseStream (p.arrived c)).1 ∧
      ∀ d, p.server.net.conns c = some d → d.phase = .opened →
        p.arrived c = Decoder.encodeAll packetText (packetsOn c p.server.log) ++ p.recvBuf d.ctx ∧
        (p.parsing d.worker = some c → ∃ p', Intake.step P (.parse c) p = some p') ∧
        (p.parsing d.worker ≠ some c → parseStream (p.arrived c) = (packetsOn c p.server.log, false) ∧
          (p.recvBuf d.ctx).length < headerSize + maxBodyLen.toNat) := by
  obtain ⟨hp, ht⟩ := taken_of_run h
  refine ⟨packets_front h c, fun d hd ho => ⟨?_, fun hc => ?_, fun hc => ?_⟩⟩
  · have hbuf := packets_append_buf (p.recvBuf d.ctx)
    have hall := packets_append_buf (p.arrived c)
    rw [hp.flow c d hd ho] at hall
    change Decoder.encodeAll packetText (packetsOn c p.server.log ++ _) ++ _ = _ at hall
    rw [Decoder.encodeAll, List.flatMap_append, List.append_assoc] at hall
    calc p.arrived c
      _ = _ := hall.symm
      _ = _ := congrArg _ hbuf
  · obtain ⟨d', hd', -, hev⟩ := ht.parsing _ _ hc
    obtain rfl := Option.some.inj (hd.symm.trans hd')
    obtain ⟨p', hp'⟩ := turn_enabled (P := P) hd hev
    refine ⟨p', ?_⟩
    simp only [Intake.step, hd, if_pos hc]
    exact hp'
  · have hwait := ht.waits c d hd ho hc
    have hbuf : handleReadDecoder.drain (p.recvBuf d.ctx) = ⟨[], p.recvBuf d.ctx, false⟩ :=
      Decoder.drain_wait hwait
    refine ⟨?_, length_lt_of_wait hwait⟩
    rw [parseStream_eq, hp.flow c d hd ho, hbuf]
    exact congrArg (·, false) (List.append_nil _)

theorem Sample.exists_intakeRun (ls : List IntakeLabel) (q : Intake → Prop)
    (h : ∃ p ∈ runAll (Intake.step params) (fun _ _ => True) ls (Intake.init params Sample.db), q p) :
    ∃ p, Intake.RunTo params Sample.db p ∧ q p :=
  exists_reach ls h

/-- A client hangs up in the middle of a packet. The next one gets the context, and its heartbeat comes
in two pieces. -/
theorem intake_exact_sample : ∃ p, Intake.RunTo Sample.params Sample.db p ∧
    (∃ d d', p.server.net.conns 0 = some d ∧ p.server.net.conns 1 = some d' ∧ d.ctx = d'.ctx) ∧
    (p.arrived 0).length = 5 ∧ packetsOn 1 p.server.log = [(Sample.header .heartbeat [] 1, [])] ∧
    parseStream (p.arrived 1) = (packetsOn 1 p.server.log, false) := by
  let ping : Bytes := (Sample.header .heartbeat [] 1).toBytes
  obtain ⟨p, hr, ⟨d, hd, d', hd', ho, hx, hc⟩, hlen, hpackets⟩ := Sample.exists_intakeRun
    ((Sample.connect 5).map .server ++ [.receive 0 [.bytes (ping.take 5), .again], .parse 0] ++
      (Sample.disconnect 0 false).map .server ++ (Sample.connect 6).map .server ++
      [.receive 1 [.bytes (ping.take 9), .again], .parse 1, .receive 1 [.bytes (ping.drop 9), .again],
        .parse 1, .parse 1])
    (fun p => (∃ d ∈ p.server.net.conns 0, ∃ d' ∈ p.server.net.conns 1, d'.phase = .opened ∧
        d.ctx = d'.ctx ∧ p.parsing d'.worker ≠ some 1) ∧ (p.arrived 0).length = 5 ∧
      packetsOn 1 p.server.log = [(Sample.header .heartbeat [] 1, [])]) (by decide)
  refine ⟨p, hr, ⟨d, d', hd, hd', hx⟩, hlen, hpackets, ?_⟩
  exact (((intake_exact hr 1).2 d' hd' ho).2.2 hc).1

end AuraChat
