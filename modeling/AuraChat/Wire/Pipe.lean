import AuraChat.Model.Sample
import AuraChat.Server.Identity
import AuraChat.Wire.Events

set_option autoImplicit false

/-!
# The send path

`Pipes` is the server with what goes out of it: for each connection, whether epoll watches it for output
and the bytes that went to its socket. `handle_write` runs as a whole, with the results of its calls of
`write`.

* `Pipes.step`, `send_agrees`, `run_of_pipesRun`: the send side next to the server, and that both agree;
* `SendStep`, **`sendStep_of_move`**: what a step of the server does to the send sides;
* `Piped`, `piped_step`;
* **`pipe_exact`**: bytes written and bytes waiting are the packets accepted, and what waits is watched.
-/

namespace AuraChat

open Interleave

variable {P : Params} {db : Store} {s s' : State} {l : Label}

/-! ## The send side of the server -/

/-- What `send` and `handle_write` work on. -/
def ClientContext.sendSide (c : ClientContext) : Bytes × Bool := (c.sendBuf, c.writing)

/-- The connection whose `send` a step calls, with the packet. -/
def State.delivers (s : State) : Label → Option (ℕ × Conn × Frame)
  | .functor w => match (s.net.workers w).busy, (s.net.workers w).batch with
      | none, ⟨_, .send f⟩ :: _ => (s.net.route w f).map fun cd => (cd.1, cd.2, f)
      | _, _ => none
  | _ => none

/-- The server and what goes out of it. -/
structure Pipes where
  server : State
  epollOut : ℕ → Bool
  written : ℕ → Bytes

inductive PipesLabel
  /-- A step of the server that is not part of a `handle_write`. -/
  | server (l : Label)
  /-- A worker runs `handle_write` of a connection. -/
  | handleWrite (c : ℕ) (results : List WriteResult)

namespace Pipes

/-- The send side of a connection. -/
def endpoint (c : ℕ) (d : Conn) (p : Pipes) : Endpoint where
  sendBuf := (p.server.net.ctxs d.ctx).sendBuf
  writing := (p.server.net.ctxs d.ctx).writing
  epollOut := p.epollOut c
  closed := d.phase ≠ .opened

/-- What epoll watches after a step: `start` registers without output, and `send` may add it. -/
def watch (P : Params) (l : Label) (p : Pipes) : ℕ → Bool :=
  match p.server.adds l, p.server.delivers l with
  | some _, _ => Function.update p.epollOut p.server.net.nextConn false
  | none, some (c, d, f) => Function.update p.epollOut c
      ((p.endpoint c d).send P.cfg.maxSendBuf (Net.packetBytes f)).epollOut
  | none, none => p.epollOut

/-- `handle_write` of the connection `c`. -/
def write (c : ℕ) (d : Conn) (results : List WriteResult) (p : Pipes) : Pipes :=
  let r := Endpoint.handleWrite results (p.endpoint c d)
  let s := { p.server with net := p.server.net.updCtx d.ctx fun x =>
    { x with sendBuf := r.2.sendBuf, writing := r.2.writing } }
  { server := if r.2.closed then s.forceClose d.worker d.fd none else s
    epollOut := Function.update p.epollOut c r.2.epollOut
    written := Function.update p.written c (p.written c ++ writtenBytes r.1) }

def step (P : Params) : PipesLabel → Pipes → Option Pipes
  | .server (.write _ _), _ => none
  | .server l, p => (AuraChat.step P l p.server).map fun s => ⟨s, p.watch P l, p.written⟩
  | .handleWrite c results, p =>
      match p.server.net.conns c with
      | none => none
      | some d => if p.server.atEvents d then some (p.write c d results) else none

/-- The states that a run reaches, from a start on the store `db`. -/
abbrev RunTo (P : Params) (db : Store) (p : Pipes) : Prop :=
  Reach (step P) (fun _ _ => True) ⟨State.init P db, fun _ => false, fun _ => []⟩ p

end Pipes

/-- The packets that `send` has accepted on a connection, in order. -/
def acceptedFrames (c : ℕ) (log : List Entry) : List Frame :=
  ((appends log).filter fun a => a.1 = c).reverse.map fun a => a.2.1

/-! ## What a step does to the send sides -/

/-- The send sides, and what they hang on, are as they were. -/
structure SendKept (s s' : State) : Prop where
  side : ∀ x, (s'.net.ctxs x).sendSide = (s.net.ctxs x).sendSide
  opened : ∀ c d, s'.net.conns c = some d → d.phase = .opened → s.net.conns c = some d
  held : ∀ c d, s.net.conns c = some d → d.Live →
    ∃ d', s'.net.conns c = some d' ∧ d'.Live ∧ d'.ctx = d.ctx
  nextCtx : s'.net.nextCtx = s.net.nextCtx
  nextConn : s'.net.nextConn = s.net.nextConn
  log : appends s'.log = appends s.log

/-- The frame does not go into the buffer that it is delivered to. -/
def Refused (P : Params) (s : State) (l : Label) : Prop :=
  ∀ c d f, s.delivers l = some (c, d, f) → d.phase ≠ .opened ∨ ¬ s.net.fits P f d

/-- **What a step does to the send sides.** -/
inductive SendStep (P : Params) (s : State) (l : Label) (s' : State) : Prop
  | kept (hk : SendKept s s') (ha : s.adds l = none) (hr : Refused P s l)
  | sent (c : ℕ) (d : Conn) (f : Frame) (ha : s.adds l = none) (hv : s.delivers l = some (c, d, f))
      (hd : s.net.conns c = some d) (hp : d.phase = .opened) (hf : s.net.fits P f d)
      (hnet : s'.net.conns = s.net.conns ∧ s'.net.nextCtx = s.net.nextCtx ∧
        s'.net.nextConn = s.net.nextConn)
      (hs : ∀ x, (s'.net.ctxs x).sendSide = if x = d.ctx then
        ((s.net.ctxs d.ctx).sendBuf ++ Net.packetBytes f, true) else (s.net.ctxs x).sendSide)
      (hlog : ∃ uid, appends s'.log = (c, f, uid) :: appends s.log)
  | opens (w : ℕ) (fd : Int) (x : ℕ) (ha : s.adds l = some w)
      (hc : s'.net.conns = Function.update s.net.conns s.net.nextConn (some ⟨w, fd, x, .opened⟩))
      (hx : ∀ c d, s.net.conns c = some d → d.Live → d.ctx ≠ x)
      (hnew : (P.pooled x ∧ s'.net.nextCtx = s.net.nextCtx) ∨
        (x = s.net.nextCtx ∧ s'.net.nextCtx = s.net.nextCtx + 1))
      (hn : s'.net.nextConn = s.net.nextConn + 1)
      (hs : ∀ y, (y ≠ x ∨ P.pooled x) → (s'.net.ctxs y).sendSide = (s.net.ctxs y).sendSide)
      (hsx : ¬ P.pooled x → (s'.net.ctxs x).sendSide = ([], false))
      (hlog : appends s'.log = appends s.log)
  | released (c : ℕ) (d : Conn) (ha : s.adds l = none) (hv : s.delivers l = none)
      (hd : s.net.conns c = some d) (hp : d.phase = .release)
      (hc : s'.net.conns = Function.update s.net.conns c (some { d with phase := .closed }))
      (hnet : s'.net.nextCtx = s.net.nextCtx ∧ s'.net.nextConn = s.net.nextConn)
      (hs : ∀ x, x ≠ d.ctx → (s'.net.ctxs x).sendSide = (s.net.ctxs x).sendSide)
      (hsx : P.pooled d.ctx → (s'.net.ctxs d.ctx).sendSide = ([], false))
      (hlog : appends s'.log = appends s.log)

theorem SendKept.of_conns (hside : ∀ x, (s'.net.ctxs x).sendSide = (s.net.ctxs x).sendSide)
    (hc : s'.net.conns = s.net.conns)
    (hn : s'.net.nextCtx = s.net.nextCtx ∧ s'.net.nextConn = s.net.nextConn)
    (hlog : appends s'.log = appends s.log) : SendKept s s' where
  side := hside
  opened c d hd _ := hc ▸ hd
  held c d hd hl := ⟨d, by rw [hc]; exact hd, hl, rfl⟩
  nextCtx := hn.1
  nextConn := hn.2
  log := hlog

theorem SendKept.of_phase {c : ℕ} {d : Conn} {ph : Phase} (hd : s.net.conns c = some d)
    (ho : ph ≠ .opened) (hl : ph ≠ .closed)
    (hc : s'.net.conns = Function.update s.net.conns c (some { d with phase := ph }))
    (hside : ∀ x, (s'.net.ctxs x).sendSide = (s.net.ctxs x).sendSide)
    (hn : s'.net.nextCtx = s.net.nextCtx ∧ s'.net.nextConn = s.net.nextConn)
    (hlog : appends s'.log = appends s.log) : SendKept s s' where
  side := hside
  opened c' d' hd' hp := by
    rw [hc, Function.update_apply] at hd'
    split_ifs at hd'
    · obtain rfl := Option.some.inj hd'
      exact absurd hp ho
    · exact hd'
  held c' d' hd' hl' := by
    by_cases he : c' = c
    · subst he
      obtain rfl := Option.some.inj (hd.symm.trans hd')
      exact ⟨{ d with phase := ph }, by rw [hc, Function.update_self], hl, rfl⟩
    · exact ⟨d', by rw [hc, Function.update_of_ne he]; exact hd', hl', rfl⟩
  nextCtx := hn.1
  nextConn := hn.2
  log := hlog

theorem updCtx_sendSide (n : Net) (x : ℕ) (f : ClientContext → ClientContext)
    (hf : (f (n.ctxs x)).sendSide = (n.ctxs x).sendSide) (y : ℕ) :
    ((n.updCtx x f).ctxs y).sendSide = (n.ctxs y).sendSide := by
  rw [Net.updCtx_apply]
  split_ifs with h
  · rw [hf, h]
  · rfl

theorem effect_sendKept {o : Origin} {a : Call} (h : Effect P o s a s') : SendKept s s' := by
  cases h with
  | rate x now =>
      refine .of_conns (updCtx_sendSide s.net x (fun c => (c.rateTick P.cfg now).1) ?_) rfl ⟨rfl, rfl⟩ rfl
      simp only [ClientContext.rateTick, ClientContext.sendSide]
      split_ifs <;> rfl
  | enter uid x h =>
      exact .of_conns (updCtx_sendSide s.net x (fun c => { c with uid := uid, loggedIn := true }) rfl) rfl
        ⟨rfl, rfl⟩ rfl
  | store uid x =>
      exact .of_conns (updCtx_sendSide s.net x (fun c => { c with uid := uid, loggedIn := true }) rfl) rfl
        ⟨rfl, rfl⟩ rfl
  | _ => exact .of_conns (fun _ => rfl) rfl ⟨rfl, rfl⟩ rfl

theorem addConnection_sendSide (n : Net) (w : ℕ) (fd : Int) :
    (∀ y, (y ≠ (n.acquire P w).1 ∨ (n.workers w).freeList ≠ []) →
      ((n.addConnection P w fd).ctxs y).sendSide = (n.ctxs y).sendSide) ∧
    ((n.workers w).freeList = [] →
      ((n.addConnection P w fd).ctxs (n.acquire P w).1).sendSide = ([], false)) ∧
    (n.addConnection P w fd).nextConn = n.nextConn + 1 ∧
    (((n.workers w).freeList ≠ [] ∧ (n.addConnection P w fd).nextCtx = n.nextCtx) ∨
      ((n.workers w).freeList = [] ∧ (n.acquire P w).1 = n.nextCtx ∧
        (n.addConnection P w fd).nextCtx = n.nextCtx + 1)) := by
  have hctx : ∀ y, ((n.addConnection P w fd).ctxs y).sendSide =
      ((n.acquire P w).2.ctxs y).sendSide := by
    intro y
    rw [Net.addConnection_eq, Net.attach_ctxs]
    split_ifs with h
    · rw [h]
      rfl
    · rfl
  cases hl : (n.workers w).freeList with
  | nil =>
      have hacq : n.acquire P w = (n.nextCtx, { n with
          ctxs := Function.update n.ctxs n.nextCtx {}
          nextCtx := n.nextCtx + 1 }) := by
        simp only [Net.acquire, hl]
      refine ⟨fun y hy => ?_, fun _ => ?_, ?_, .inr ⟨rfl, ?_, ?_⟩⟩
      · have hne : y ≠ n.nextCtx := by
          rw [hacq] at hy
          exact hy.resolve_right (not_not.mpr rfl)
        rw [hctx, hacq]
        exact congrArg ClientContext.sendSide (Function.update_of_ne hne _ _)
      · rw [hctx, hacq]
        simp only [Function.update_self]
        rfl
      · rw [Net.addConnection_eq, hacq]
        rfl
      · rw [hacq]
      · rw [Net.addConnection_eq, hacq]
        rfl
  | cons idx rest =>
      have hacq : n.acquire P w = (P.storage w idx, n.takeFree w rest) := by
        simp only [Net.acquire, hl]
        rfl
      refine ⟨fun y _ => ?_, fun hnil => absurd hnil (List.cons_ne_nil _ _), ?_,
        .inl ⟨List.cons_ne_nil _ _, ?_⟩⟩
      · rw [hctx, hacq]
        rfl
      · rw [Net.addConnection_eq, hacq]
        rfl
      · rw [Net.addConnection_eq, hacq]
        rfl

theorem sendStep_of_add (hwf : s.net.WF P) {w num : ℕ} {fd : Int} {rest : List Functor}
    (hb : (s.net.workers w).busy = none) (hq : (s.net.workers w).batch = ⟨num, .add fd⟩ :: rest) :
    SendStep P s (.functor w) { s with net := (s.net.popBatch w rest).addConnection P w fd } := by
  obtain ⟨hs, hsx, hn, hnew⟩ := addConnection_sendSide (P := P) (s.net.popBatch w rest) w fd
  have hwf' := wf_popBatch hwf hq
  obtain ⟨-, -, -, hx, -⟩ := hwf'.acquire w
  have hpool := hwf'.acquire_pooled w
  refine .opens w fd ((s.net.popBatch w rest).acquire P w).1 (by simp [State.adds, hb, hq])
    (addConnection_conns ..) hx ?_ hn (fun y hy => hs y (hy.imp_right hpool.mp)) (fun hp => hsx ?_) rfl
  · rcases hnew with ⟨hfree, hnext⟩ | ⟨-, hfresh, hnext⟩
    · exact .inl ⟨hpool.mpr hfree, hnext⟩
    · exact .inr ⟨hfresh, hnext⟩
  · by_contra hne
    exact hp (hpool.mpr hne)

theorem refused_of_none (h : s.delivers l = none) : Refused P s l := by
  intro c d f hv
  rw [h] at hv
  cases hv

theorem sendStep_of_release (hwf : s.net.WF P) {c : ℕ} {d : Conn} (hd : s.net.conns c = some d)
    (hp : d.phase = .release) : SendStep P s (.close d.worker) { s with
      net := s.net.releaseContext c d } := by
  obtain ⟨h1, h2, -, -⟩ := Net.releaseContext_static (n := s.net) c d
  refine .released c d rfl rfl hd hp ?_ ⟨h2, h1⟩ (fun x hx => ?_) (fun hpool => ?_) rfl
  · funext c'
    dsimp only
    rw [Net.releaseContext_conns, Function.update_apply]
  · simp only [Net.releaseContext]
    split_ifs <;> simp [Net.updWorker, Net.updCtx, Net.setConn, hx]
  · have hpos : (s.net.ctxs d.ctx).poolIdx ≠ -1 := by
      rw [(hwf.owner _ hpool).2]
      omega
    simp only [Net.releaseContext]
    rw [if_neg]
    · simp only [Net.updWorker, Net.updCtx, Function.update_self]
      rfl
    · exact hpos

theorem delivers_of_adds {w : ℕ} (h : s.adds l = some w) : s.delivers l = none := by
  cases l with
  | functor v =>
      simp only [State.adds] at h
      split at h
      · rename_i hb hq
        simp only [State.delivers, hb, hq]
      · cases h
  | _ => rfl

theorem delivers_eq (hwf : s.net.WF P) {c : ℕ} {d : Conn} {f : Frame}
    (hv : s.delivers l = some (c, d, f)) : s.net.conns c = some d ∧ d.phase = .opened := by
  cases l with
  | functor w =>
      simp only [State.delivers] at hv
      split at hv
      · rename_i num f' rest hb hq
        obtain ⟨⟨c', d'⟩, hr, heq⟩ := Option.map_eq_some_iff.mp hv
        obtain ⟨rfl, rfl, rfl⟩ : c' = c ∧ d' = d ∧ f' = f := by simpa using heq
        have hmem : (⟨num, .send f'⟩ : Functor) ∈ (s.net.workers w).queue := by simp [Worker.queue, hq]
        obtain ⟨hd, -, hp, -⟩ := hwf.route_eq hb (hwf.send_owner w _ hmem f' rfl) hr
        exact ⟨hd, hp⟩
      · cases hv
  | _ => cases hv

theorem refused_of_accepts {w num : ℕ} {f : Frame} {rest : List Functor}
    (hb : (s.net.workers w).busy = none) (hq : (s.net.workers w).batch = ⟨num, .send f⟩ :: rest)
    (ha : s.net.accepts P w f = none) : Refused P s (.functor w) := by
  intro c d f' hv
  simp only [State.delivers, hb, hq, Option.map_eq_some_iff, Prod.mk.injEq] at hv
  obtain ⟨⟨c', d'⟩, hr, rfl, rfl, rfl⟩ := hv
  have hno := Option.filter_eq_none_iff.mp ha _ hr
  by_contra hin
  obtain ⟨hp, hf⟩ := not_or.mp hin
  exact hno (decide_eq_true ⟨not_not.mp hp, not_not.mp hf⟩)

theorem sendStep_of_sent (hwf : s.net.WF P) {w num : ℕ} {f : Frame} {rest : List Functor} {c : ℕ}
    {d : Conn} (hb : (s.net.workers w).busy = none)
    (hq : (s.net.workers w).batch = ⟨num, .send f⟩ :: rest) (ha : s.net.accepts P w f = some (c, d)) :
    SendStep P s (.functor w) { s with
      net := (s.net.popBatch w rest).append f d
      log := .appended c f (s.net.ctxs d.ctx).uid :: s.log } := by
  obtain ⟨hd, hp, -⟩ := accepts_eq hwf hb hq ha
  obtain ⟨hr, hin⟩ := Option.filter_eq_some_iff.mp ha
  refine .sent c d f (by simp [State.adds, hb, hq]) (by simp [State.delivers, hb, hq, hr]) hd hp
    (of_decide_eq_true hin).2 ⟨rfl, rfl, rfl⟩ (fun x => ?_) ⟨_, rfl⟩
  simp only [Net.append, Net.updCtx_apply]
  split_ifs <;> rfl

/-- **Every step that is not part of a `handle_write` does one of these to the send sides.** -/
theorem sendStep_of_move (hwf : s.net.WF P) (h : Move P s l s') (hl : ∀ c n, l ≠ .write c n) :
    SendStep P s l s' := by
  cases h with
  | add w num fd rest hb hq => exact sendStep_of_add hwf hb hq
  | sent w num f rest c d hb hq ha => exact sendStep_of_sent hwf hb hq ha
  | lost w num f rest hb hq ha =>
      exact .kept (.of_conns (fun _ => rfl) rfl ⟨rfl, rfl⟩ rfl) (by simp [State.adds, hb, hq])
        (refused_of_accepts hb hq ha)
  | overflow w num f rest c d hb hq ha hr =>
      exact .kept (.of_conns (fun _ => rfl) rfl ⟨rfl, rfl⟩ rfl) (by simp [State.adds, hb, hq])
        (refused_of_accepts hb hq ha)
  | missed w num fd kick rest hb hq hc =>
      exact .kept (.of_conns (fun _ => rfl) rfl ⟨rfl, rfl⟩ rfl) (by simp [State.adds, hb, hq])
        (refused_of_none (by simp [State.delivers, hb, hq]))
  | closed num kick rest c d hb hq hd hp =>
      exact .kept (.of_phase hd (by simp) (by simp) rfl (fun _ => rfl) ⟨rfl, rfl⟩ rfl)
        (by simp [State.adds, hb, hq]) (refused_of_none (by simp [State.delivers, hb, hq]))
  | drop c d hd hev =>
      exact .kept (.of_phase hd (by simp) (by simp) rfl (fun _ => rfl) ⟨rfl, rfl⟩ rfl) rfl
        (refused_of_none rfl)
  | check c d hd hp =>
      exact .kept (.of_phase hd (by split_ifs <;> simp) (by split_ifs <;> simp) rfl (fun _ => rfl)
        ⟨rfl, rfl⟩ rfl) rfl (refused_of_none rfl)
  | loadCancel c d hd hp | cancel c d _ hd hp | loadUnbind c d hd hp | unbind c d _ hd hp
  | closeFd c d hd hp =>
      exact .kept (.of_phase hd (by simp) (by simp) rfl (fun _ => rfl) ⟨rfl, rfl⟩ rfl) rfl
        (refused_of_none rfl)
  | release c d hd hp => exact sendStep_of_release hwf hd hp
  | write c d count hd hev => exact absurd rfl (hl c count)
  | call i e t a k r s₁ hi hp ha =>
      obtain ⟨h1, h2, h3, h4, h5, h6⟩ := effect_sendKept (act_effect ha)
      exact .kept ⟨h1, h2, h3, h4, h5, h6⟩ rfl (refused_of_none rfl)
  | _ => exact .kept (.of_conns (fun _ => rfl) rfl ⟨rfl, rfl⟩ rfl) rfl (refused_of_none rfl)

/-! ## The pipe -/

theorem acceptedFrames_congr {log log' : List Entry} (h : appends log' = appends log) (c : ℕ) :
    acceptedFrames c log' = acceptedFrames c log := by
  rw [acceptedFrames, acceptedFrames, h]

theorem acceptedFrames_cons {log log' : List Entry} {c : ℕ} {f : Frame} {uid : Int}
    (h : appends log' = (c, f, uid) :: appends log) (c' : ℕ) : acceptedFrames c' log' =
      if c' = c then acceptedFrames c' log ++ [f] else acceptedFrames c' log := by
  rw [acceptedFrames, acceptedFrames, h, List.filter_cons]
  by_cases hc : c = c'
  · simp [hc]
  · simp [hc, Ne.symm hc]

/-- The bytes of an open connection: what was written and what waits are the accepted packets, the buffer
is within its limit, and what waits is watched. -/
structure Flow (P : Params) (p : Pipes) (c : ℕ) (d : Conn) : Prop where
  bytes : p.written c ++ (p.server.net.ctxs d.ctx).sendBuf =
    (acceptedFrames c p.server.log).flatMap Net.packetBytes
  bound : (p.server.net.ctxs d.ctx).sendBuf.length ≤ P.cfg.maxSendBuf
  armed : (p.server.net.ctxs d.ctx).sendBuf ≠ [] → (p.server.net.ctxs d.ctx).writing = true
  watched : (p.server.net.ctxs d.ctx).writing = true → p.epollOut c = true

theorem Flow.congr {p p' : Pipes} {c : ℕ} {d d' : Conn} (h : Flow P p c d)
    (hside : (p'.server.net.ctxs d'.ctx).sendSide = (p.server.net.ctxs d.ctx).sendSide)
    (hw : p'.written c = p.written c) (he : p'.epollOut c = p.epollOut c)
    (hlog : acceptedFrames c p'.server.log = acceptedFrames c p.server.log) : Flow P p' c d' := by
  obtain ⟨hbuf, hflag⟩ := Prod.mk.inj hside
  exact ⟨by rw [hw, hbuf, hlog]; exact h.bytes, by rw [hbuf]; exact h.bound,
    by rw [hbuf, hflag]; exact h.armed, by rw [hflag, he]; exact h.watched⟩

/-- **The send sides in order**: open connections flow, the contexts that may be handed out are clean, and
nothing has happened on connections to come. -/
structure Piped (P : Params) (p : Pipes) : Prop where
  flow : ∀ c d, p.server.net.conns c = some d → d.phase = .opened → Flow P p c d
  clean : ∀ x, (∀ c d, p.server.net.conns c = some d → d.Live → d.ctx ≠ x) →
    (P.pooled x ∨ p.server.net.nextCtx ≤ x) → (p.server.net.ctxs x).sendSide = ([], false)
  fresh : ∀ c, p.server.net.nextConn ≤ c → p.written c = [] ∧ acceptedFrames c p.server.log = []

theorem piped_init : Piped P ⟨State.init P db, fun _ => false, fun _ => []⟩ where
  flow _ _ h := by cases h
  clean x _ _ := by
    simp only [State.init, Net.init]
    split_ifs <;> rfl
  fresh _ _ := ⟨rfl, rfl⟩

theorem piped_kept {p : Pipes} (hp : Piped P p) (hk : SendKept p.server s') :
    Piped P ⟨s', p.epollOut, p.written⟩ where
  flow c d hd ho := (hp.flow c d (hk.opened c d hd ho) ho).congr (hk.side _) rfl rfl
    (acceptedFrames_congr hk.log c)
  clean x hx hfree := by
    refine (hk.side x).trans (hp.clean x (fun c d hd hl he => ?_) (hk.nextCtx ▸ hfree))
    obtain ⟨d', hd', hl', hctx⟩ := hk.held c d hd hl
    exact hx c d' hd' hl' (hctx.trans he)
  fresh c hc := by
    obtain ⟨hw, hlog⟩ := hp.fresh c (hk.nextConn ▸ hc)
    exact ⟨hw, (acceptedFrames_congr hk.log c).trans hlog⟩

theorem Refused.send_eq {p : Pipes} (hr : Refused P p.server l) {c : ℕ} {d : Conn} {f : Frame}
    (hv : p.server.delivers l = some (c, d, f)) :
    (p.endpoint c d).send P.cfg.maxSendBuf (Net.packetBytes f) = p.endpoint c d := by
  rw [Endpoint.send]
  split_ifs with hcl hfull hwr
  · rfl
  · rfl
  all_goals
    -- an open connection with room accepts the packet
    rcases hr c d f hv with hph | hfit
    · exact absurd (decide_eq_true hph) hcl
    · exact absurd (Nat.le_of_not_lt hfull) hfit

theorem send_accepted {p : Pipes} {c : ℕ} {d : Conn} {f : Frame} (ho : d.phase = .opened)
    (hf : p.server.net.fits P f d) :
    (p.endpoint c d).send P.cfg.maxSendBuf (Net.packetBytes f) = { p.endpoint c d with
      sendBuf := (p.server.net.ctxs d.ctx).sendBuf ++ Net.packetBytes f
      writing := true
      epollOut := if (p.server.net.ctxs d.ctx).writing then p.epollOut c else true } := by
  rw [Endpoint.send, if_neg, if_neg]
  · change (if (p.server.net.ctxs d.ctx).writing = true then _ else _) = _
    split_ifs with hwr
    · simp only [Pipes.endpoint, hwr]
    · rfl
  · exact Nat.not_lt.mpr hf
  · exact fun hcl => of_decide_eq_true hcl ho

theorem watch_refused {p : Pipes} (ha : p.server.adds l = none) (hr : Refused P p.server l) :
    p.watch P l = p.epollOut := by
  rw [Pipes.watch, ha]
  cases hv : p.server.delivers l with
  | none => rfl
  | some v =>
      obtain ⟨c, d, f⟩ := v
      simp only [hr.send_eq hv]
      exact Function.update_eq_self c p.epollOut

theorem watch_sent {p : Pipes} {c : ℕ} {d : Conn} {f : Frame} (ha : p.server.adds l = none)
    (hv : p.server.delivers l = some (c, d, f)) (ho : d.phase = .opened) (hf : p.server.net.fits P f d)
    (hw : (p.server.net.ctxs d.ctx).writing = true → p.epollOut c = true) :
    p.watch P l = Function.update p.epollOut c true := by
  rw [Pipes.watch, ha, hv]
  simp only [send_accepted ho hf]
  split_ifs with hwr
  · rw [hw hwr]
  · rfl

/-- A packet goes into the buffer of its connection, which is watched from then on. -/
theorem piped_sent {p : Pipes} {c : ℕ} {d : Conn} {f : Frame} (hwf : p.server.net.WF P) (hp : Piped P p)
    (hd : p.server.net.conns c = some d) (ho : d.phase = .opened) (hf : p.server.net.fits P f d)
    (hnet : s'.net.conns = p.server.net.conns ∧ s'.net.nextCtx = p.server.net.nextCtx ∧
      s'.net.nextConn = p.server.net.nextConn)
    (hs : ∀ x, (s'.net.ctxs x).sendSide = if x = d.ctx then
      ((p.server.net.ctxs d.ctx).sendBuf ++ Net.packetBytes f, true) else (p.server.net.ctxs x).sendSide)
    {uid : Int} (hlog : appends s'.log = (c, f, uid) :: appends p.server.log) :
    Piped P ⟨s', Function.update p.epollOut c true, p.written⟩ := by
  obtain ⟨hc, hx, hn⟩ := hnet
  have hflow := hp.flow c d hd ho
  have hlive : d.Live := (Conn.holds_of_opened ho).live
  constructor
  case flow =>
    intro c' d' hd' ho'
    change s'.net.conns c' = some d' at hd'
    rw [hc] at hd'
    by_cases he : c' = c
    · -- the connection that takes the packet
      subst he
      obtain rfl := Option.some.inj (hd.symm.trans hd')
      obtain ⟨hbuf, hflag⟩ := Prod.mk.inj ((hs d.ctx).trans (if_pos rfl))
      refine ⟨?_, ?_, fun _ => hflag, fun _ => Function.update_self _ _ _⟩
      · rw [hbuf, acceptedFrames_cons hlog, if_pos rfl, List.flatMap_append, ← hflow.bytes]
        simp
      · rw [hbuf, List.length_append]
        exact hf
    · have hne : d'.ctx ≠ d.ctx := fun hctx =>
        he (hwf.ctx_inj c' d' c d hd' hd (Conn.holds_of_opened ho').live hlive hctx)
      refine (hp.flow c' d' hd' ho').congr ((hs _).trans (if_neg hne)) rfl
        (Function.update_of_ne he _ _) ?_
      rw [acceptedFrames_cons hlog, if_neg he]
  case clean =>
    intro x hfree hx'
    have hne : x ≠ d.ctx := fun hctx => hfree c d (by rw [hc]; exact hd) hlive hctx.symm
    rw [hs, if_neg hne]
    rw [hc] at hfree
    rw [hx] at hx'
    exact hp.clean x hfree hx'
  case fresh =>
    intro c' hc'
    rw [hn] at hc'
    have hne : c' ≠ c := by
      rintro rfl
      have hlt := hwf.conn_lt c' d hd
      omega
    obtain ⟨hw, hnone⟩ := hp.fresh c' hc'
    refine ⟨hw, ?_⟩
    rw [acceptedFrames_cons hlog, if_neg hne]
    exact hnone

/-- A new connection has a clean context and no watch. -/
theorem piped_opens {p : Pipes} {w x : ℕ} {fd : Int} (hwf : p.server.net.WF P) (hp : Piped P p)
    (hc : s'.net.conns =
      Function.update p.server.net.conns p.server.net.nextConn (some ⟨w, fd, x, .opened⟩))
    (hx : ∀ c d, p.server.net.conns c = some d → d.Live → d.ctx ≠ x)
    (hnew : (P.pooled x ∧ s'.net.nextCtx = p.server.net.nextCtx) ∨
      (x = p.server.net.nextCtx ∧ s'.net.nextCtx = p.server.net.nextCtx + 1))
    (hn : s'.net.nextConn = p.server.net.nextConn + 1)
    (hs : ∀ y, (y ≠ x ∨ P.pooled x) → (s'.net.ctxs y).sendSide = (p.server.net.ctxs y).sendSide)
    (hsx : ¬ P.pooled x → (s'.net.ctxs x).sendSide = ([], false))
    (hlog : appends s'.log = appends p.server.log) :
    Piped P ⟨s', Function.update p.epollOut p.server.net.nextConn false, p.written⟩ := by
  -- the context that is handed out is clean
  have hclean : (s'.net.ctxs x).sendSide = ([], false) := by
    by_cases hpool : P.pooled x
    · rw [hs x (.inr hpool)]
      exact hp.clean x hx (.inl hpool)
    · exact hsx hpool
  have hold : ∀ y, y ≠ x → (s'.net.ctxs y).sendSide = (p.server.net.ctxs y).sendSide :=
    fun y hy => hs y (.inl hy)
  constructor
  case flow =>
    intro c' d' hd' ho'
    change s'.net.conns c' = some d' at hd'
    rw [hc, Function.update_apply] at hd'
    split_ifs at hd' with he
    · obtain rfl := Option.some.inj hd'
      obtain ⟨hbuf, hflag⟩ := Prod.mk.inj hclean
      obtain ⟨hw, hnone⟩ := hp.fresh c' (Nat.le_of_eq he.symm)
      refine ⟨?_, ?_, fun hne => absurd hbuf hne, fun hf => ?_⟩
      · rw [hbuf, acceptedFrames_congr hlog, hnone]
        exact congrArg (· ++ []) hw
      · rw [hbuf]
        exact Nat.zero_le _
      · rw [hflag] at hf
        cases hf
    · have hne : d'.ctx ≠ x := hx c' d' hd' (Conn.holds_of_opened ho').live
      exact (hp.flow c' d' hd' ho').congr (hold _ hne) rfl (Function.update_of_ne he _ _)
        (acceptedFrames_congr hlog c')
  case clean =>
    intro y hfree hy
    have hne : y ≠ x := fun e =>
      hfree p.server.net.nextConn _ (by rw [hc, Function.update_self]) (by simp [Conn.Live]) e.symm
    refine (hold y hne).trans (hp.clean y (fun c d hd hl => hfree c d ?_ hl) ?_)
    · rw [hc, Function.update_of_ne (Nat.ne_of_lt (hwf.conn_lt c d hd))]
      exact hd
    · refine hy.imp_right fun hle => ?_
      rcases hnew with ⟨-, e⟩ | ⟨-, e⟩
      · exact e ▸ hle
      · change s'.net.nextCtx ≤ y at hle
        omega
  case fresh =>
    intro c' hc'
    change s'.net.nextConn ≤ c' at hc'
    obtain ⟨hw, hnone⟩ := hp.fresh c' (by omega)
    exact ⟨hw, (acceptedFrames_congr hlog c').trans hnone⟩

/-- A context that is given back is reset, or it is never handed out again. -/
theorem piped_released {p : Pipes} {c : ℕ} {d : Conn} (hwf : p.server.net.WF P) (hp : Piped P p)
    (hd : p.server.net.conns c = some d) (hlive : d.Live)
    (hc : s'.net.conns = Function.update p.server.net.conns c (some { d with phase := .closed }))
    (hnet : s'.net.nextCtx = p.server.net.nextCtx ∧ s'.net.nextConn = p.server.net.nextConn)
    (hs : ∀ x, x ≠ d.ctx → (s'.net.ctxs x).sendSide = (p.server.net.ctxs x).sendSide)
    (hsx : P.pooled d.ctx → (s'.net.ctxs d.ctx).sendSide = ([], false))
    (hlog : appends s'.log = appends p.server.log) : Piped P ⟨s', p.epollOut, p.written⟩ := by
  constructor
  case flow =>
    intro c' d' hd' ho'
    change s'.net.conns c' = some d' at hd'
    rw [hc, Function.update_apply] at hd'
    split_ifs at hd' with he
    · obtain rfl := Option.some.inj hd'
      cases ho'
    · have hne : d'.ctx ≠ d.ctx := fun hctx =>
        he (hwf.ctx_inj c' d' c d hd' hd (Conn.holds_of_opened ho').live hlive hctx)
      exact (hp.flow c' d' hd' ho').congr (hs _ hne) rfl rfl (acceptedFrames_congr hlog c')
  case clean =>
    intro x hfree hx
    by_cases hctx : x = d.ctx
    · subst hctx
      refine hsx (hx.resolve_right fun hle => ?_)
      have hlt := hwf.ctx_lt c d hd
      change s'.net.nextCtx ≤ d.ctx at hle
      omega
    · refine (hs x hctx).trans (hp.clean x (fun c' d' hd' hl' => ?_) (hnet.1 ▸ hx))
      by_cases he : c' = c
      · subst he
        obtain rfl := Option.some.inj (hd.symm.trans hd')
        exact Ne.symm hctx
      · exact hfree c' d' (by rw [hc, Function.update_of_ne he]; exact hd') hl'
  case fresh =>
    intro c' hc'
    obtain ⟨hw, hnone⟩ := hp.fresh c' (hnet.2 ▸ hc')
    exact ⟨hw, (acceptedFrames_congr hlog c').trans hnone⟩

theorem piped_server {p : Pipes} (hwf : p.server.net.WF P) (hp : Piped P p)
    (h : SendStep P p.server l s') : Piped P ⟨s', p.watch P l, p.written⟩ := by
  cases h with
  | kept hk ha hr =>
      rw [watch_refused ha hr]
      exact piped_kept hp hk
  | sent c d f ha hv hd ho hf hnet hs hlog =>
      obtain ⟨uid, hlog⟩ := hlog
      rw [watch_sent ha hv ho hf (hp.flow c d hd ho).watched]
      exact piped_sent hwf hp hd ho hf hnet hs hlog
  | opens w fd x ha hc hx hnew hn hs hsx hlog =>
      have hwatch : p.watch P l = Function.update p.epollOut p.server.net.nextConn false := by
        rw [Pipes.watch, ha]
      rw [hwatch]
      exact piped_opens hwf hp hc hx hnew hn hs hsx hlog
  | released c d ha hv hd ho hc hnet hs hsx hlog =>
      rw [watch_refused ha (refused_of_none hv)]
      have hlive : d.Live := by simp [Conn.Live, ho]
      exact piped_released hwf hp hd hlive hc hnet hs hsx hlog

/-- **`send` of the server is `send` of the connection**: the step that calls it leaves in the context
what it computes. -/
theorem send_agrees {p : Pipes} (hwf : p.server.net.WF P) (h : Move P p.server l s') {c : ℕ} {d : Conn}
    {f : Frame} (hv : p.server.delivers l = some (c, d, f)) : (s'.net.ctxs d.ctx).sendSide =
      (((p.endpoint c d).send P.cfg.maxSendBuf (Net.packetBytes f)).sendBuf,
        ((p.endpoint c d).send P.cfg.maxSendBuf (Net.packetBytes f)).writing) := by
  have hwrite : ∀ c n, l ≠ .write c n := by
    rintro c n rfl
    cases hv
  cases sendStep_of_move hwf h hwrite with
  | kept hk ha hr =>
      rw [hk.side, hr.send_eq hv]
      rfl
  | sent c' d' f' ha hv' hd ho hf hnet hs hlog =>
      obtain ⟨rfl, rfl, rfl⟩ : c' = c ∧ d' = d ∧ f' = f := by simpa using hv'.symm.trans hv
      rw [hs, if_pos rfl, send_accepted ho hf]
  | opens w fd x ha => rw [delivers_of_adds ha] at hv; cases hv
  | released c' d' ha hv' => rw [hv'] at hv; cases hv

/-! ## `handle_write` -/

/-- The server after the writes of a `handle_write`, before a close. -/
def Pipes.afterWrites (c : ℕ) (d : Conn) (results : List WriteResult) (p : Pipes) : State :=
  { p.server with net := p.server.net.updCtx d.ctx fun x => { x with
    sendBuf := (Endpoint.handleWrite results (p.endpoint c d)).2.sendBuf
    writing := (Endpoint.handleWrite results (p.endpoint c d)).2.writing } }

theorem afterWrites_step {c : ℕ} {d : Conn} {p : Pipes} (hd : p.server.net.conns c = some d)
    (hev : p.server.atEvents d) (results : List WriteResult) :
    step P (.write c (writtenBytes (Endpoint.handleWrite results (p.endpoint c d)).1).length) p.server =
      some (p.afterWrites c d results) := by
  obtain ⟨hbytes, hends⟩ := (p.endpoint c d).handleWrite_buffer results
  have hdrop : (p.server.net.ctxs d.ctx).sendBuf.drop
      (writtenBytes (Endpoint.handleWrite results (p.endpoint c d)).1).length =
        (Endpoint.handleWrite results (p.endpoint c d)).2.sendBuf := by
    change (p.endpoint c d).sendBuf.drop _ = _
    rw [← hbytes]
    exact List.drop_left
  have hflag : (if (Endpoint.handleWrite results (p.endpoint c d)).2.sendBuf = [] then false
      else (p.server.net.ctxs d.ctx).writing) =
        (Endpoint.handleWrite results (p.endpoint c d)).2.writing := by
    rcases hends with ⟨he, hw, -⟩ | ⟨hne, hw, -⟩
    · rw [if_pos he, hw]
    · rw [if_neg hne, hw]
      rfl
  simp only [step, hd, if_pos hev, Net.updCtx, hdrop, hflag]
  rfl

theorem piped_afterWrites {c : ℕ} {d : Conn} {p : Pipes} (hwf : p.server.net.WF P) (hp : Piped P p)
    (hd : p.server.net.conns c = some d) (ho : d.phase = .opened) (results : List WriteResult) :
    Piped P ⟨p.afterWrites c d results,
      Function.update p.epollOut c (Endpoint.handleWrite results (p.endpoint c d)).2.epollOut,
      Function.update p.written c
        (p.written c ++ writtenBytes (Endpoint.handleWrite results (p.endpoint c d)).1)⟩ := by
  obtain ⟨hbytes, hends⟩ := (p.endpoint c d).handleWrite_buffer results
  change _ = (p.server.net.ctxs d.ctx).sendBuf at hbytes
  have hlive : d.Live := (Conn.holds_of_opened ho).live
  have hflow := hp.flow c d hd ho
  -- the send sides after the writes
  have hself : ((p.afterWrites c d results).net.ctxs d.ctx).sendSide =
      ((Endpoint.handleWrite results (p.endpoint c d)).2.sendBuf,
        (Endpoint.handleWrite results (p.endpoint c d)).2.writing) := by
    simp only [Pipes.afterWrites, Net.updCtx, Function.update_self]
    rfl
  have hother : ∀ x, x ≠ d.ctx →
      ((p.afterWrites c d results).net.ctxs x).sendSide = (p.server.net.ctxs x).sendSide := by
    intro x hx
    simp only [Pipes.afterWrites, Net.updCtx, Function.update_of_ne hx]
  refine ⟨fun c' d' hd' ho' => ?_, fun x hfree hx => ?_, fun c' hc' => ?_⟩
  · by_cases he : c' = c
    · subst he
      obtain rfl := Option.some.inj (hd.symm.trans hd')
      obtain ⟨hbuf, hflag⟩ := Prod.mk.inj hself
      refine ⟨?_, ?_, fun hne => ?_, fun hf => ?_⟩
      · rw [hbuf]
        change Function.update p.written c' _ c' ++ _ = _
        rw [Function.update_self, List.append_assoc, hbytes]
        exact hflow.bytes
      · have hlen := congrArg List.length hbytes
        rw [List.length_append] at hlen
        rw [hbuf]
        have := hflow.bound
        omega
      · rw [hbuf] at hne
        rw [hflag]
        rcases hends with ⟨hnil, -, -⟩ | ⟨-, hw, -⟩
        · exact absurd hnil hne
        · -- bytes were left, so there were some before
          refine hw.trans (hflow.armed fun hnil => ?_)
          rw [hnil] at hbytes
          exact hne (List.append_eq_nil_iff.mp hbytes).2
      · rw [hflag] at hf
        change Function.update p.epollOut c' _ c' = true
        rw [Function.update_self]
        rcases hends with ⟨-, hw, -⟩ | ⟨-, hw, hwatch⟩
        · rw [hw] at hf
          cases hf
        · rw [hwatch]
          exact hflow.watched (hw.symm.trans hf)
    · have hne : d'.ctx ≠ d.ctx := fun hctx =>
        he (hwf.ctx_inj c' d' c d hd' hd (Conn.holds_of_opened ho').live hlive hctx)
      exact (hp.flow c' d' hd' ho').congr (hother _ hne) (Function.update_of_ne he _ _)
        (Function.update_of_ne he _ _) rfl
  · have hne : x ≠ d.ctx := fun hctx => hfree c d hd hlive hctx.symm
    exact (hother x hne).trans (hp.clean x hfree hx)
  · have hne : c' ≠ c := fun e => Nat.not_le.mpr (hwf.conn_lt c d hd) (e ▸ hc')
    obtain ⟨hw, hnone⟩ := hp.fresh c' hc'
    exact ⟨(Function.update_of_ne hne _ _).trans hw, hnone⟩

theorem afterWrites_close {c : ℕ} {d : Conn} {p : Pipes} (hd : p.server.net.conns c = some d)
    (hev : p.server.atEvents d) (results : List WriteResult) :
    step P (.drop c) (p.afterWrites c d results) =
      some ((p.afterWrites c d results).forceClose d.worker d.fd none) := by
  have hd' : (p.afterWrites c d results).net.conns c = some d := hd
  have hev' : (p.afterWrites c d results).atEvents d := hev
  simp only [step, hd', if_pos hev']

theorem pipes_server {p p' : Pipes} (hs : Pipes.step P (.server l) p = some p') :
    (∀ c n, l ≠ .write c n) ∧ ∃ s', step P l p.server = some s' ∧ p' = ⟨s', p.watch P l, p.written⟩ := by
  have hmap : (step P l p.server).map (fun s => (⟨s, p.watch P l, p.written⟩ : Pipes)) = some p' ∧
      ∀ c n, l ≠ .write c n := by
    cases l with
    | write c n => cases hs
    | _ => exact ⟨hs, fun _ _ e => by cases e⟩
  obtain ⟨hmap, hl⟩ := hmap
  obtain ⟨s', hs', rfl⟩ := Option.map_eq_some_iff.mp hmap
  exact ⟨hl, s', hs', rfl⟩

theorem pipes_handleWrite {p p' : Pipes} {c : ℕ} {results : List WriteResult}
    (hs : Pipes.step P (.handleWrite c results) p = some p') :
    ∃ d, p.server.net.conns c = some d ∧ p.server.atEvents d ∧ p' = p.write c d results := by
  simp only [Pipes.step] at hs
  split at hs
  · cases hs
  · rename_i d hd
    split_ifs at hs with hev
    exact ⟨d, hd, hev, (Option.some.inj hs).symm⟩

theorem pipes_cases {p p' : Pipes} {l : PipesLabel} (hs : Pipes.step P l p = some p') :
    (∃ sl s', (∀ c n, sl ≠ .write c n) ∧ step P sl p.server = some s' ∧
      p' = ⟨s', p.watch P sl, p.written⟩) ∨
    ∃ c results d, p.server.net.conns c = some d ∧ p.server.atEvents d ∧ p' = p.write c d results := by
  cases l with
  | server sl =>
      obtain ⟨hsl, s', hs', rfl⟩ := pipes_server hs
      exact .inl ⟨sl, s', hsl, hs', rfl⟩
  | handleWrite c results =>
      obtain ⟨d, hd, hev, rfl⟩ := pipes_handleWrite hs
      exact .inr ⟨c, results, d, hd, hev, rfl⟩

/-- **The server next to the send side is the server.** -/
theorem run_of_pipesRun {p : Pipes} (h : Pipes.RunTo P db p) :
    RunTo P db (fun _ _ => True) p.server := by
  refine h.map Pipes.server fun l p p' _ hs => ?_
  rcases pipes_cases hs with ⟨sl, s', -, hs', rfl⟩ | ⟨c, results, d, hd, hev, rfl⟩
  · exact .tail .refl trivial hs'
  · have hwrites : Reach (step P) (fun _ _ => True) p.server (p.afterWrites c d results) :=
      .tail .refl trivial (afterWrites_step hd hev results)
    change Reach _ _ p.server (if _ then _ else _)
    split_ifs
    · exact hwrites.tail trivial (afterWrites_close hd hev results)
    · exact hwrites

theorem piped_step {p p' : Pipes} {l : PipesLabel} (hwf : p.server.net.WF P) (hp : Piped P p)
    (hs : Pipes.step P l p = some p') : Piped P p' := by
  rcases pipes_cases hs with ⟨sl, s', hsl, hs', rfl⟩ | ⟨c, results, d, hd, hev, rfl⟩
  · exact piped_server hwf hp (sendStep_of_move hwf (move_of_step hwf hs') hsl)
  · have hwrites := piped_afterWrites hwf hp hd hev.1 results
    have hwf' : (p.afterWrites c d results).net.WF P :=
      wf_move hwf (move_of_step hwf (afterWrites_step hd hev results))
    rw [Pipes.write]
    split_ifs
    · have hdrop := move_of_step hwf' (afterWrites_close hd hev results)
      exact piped_server hwf' hwrites (sendStep_of_move hwf' hdrop fun _ _ e => by cases e)
    · exact hwrites

theorem piped_of_run {p : Pipes} (h : Pipes.RunTo P db p) : Piped P p :=
  h.invariant_reach (Piped P) piped_init
    fun _ _ _ hr _ hp hs => piped_step (wf_of_run (run_of_pipesRun hr)) hp hs

/-- **The send path is an exact byte pipe.** In every state that a run reaches, for every open connection:
the bytes written to the socket followed by the send buffer are the packets that `send` has accepted, in
order; the buffer is within its limit; while it is not empty the flag is set and epoll watches for output;
and it is empty while the flag is clear. -/
theorem pipe_exact {p : Pipes} (h : Pipes.RunTo P db p) (c : ℕ) (d : Conn)
    (hd : p.server.net.conns c = some d) (ho : d.phase = .opened) :
    let x := p.server.net.ctxs d.ctx
    p.written c ++ x.sendBuf = (acceptedFrames c p.server.log).flatMap Net.packetBytes ∧
      x.sendBuf.length ≤ P.cfg.maxSendBuf ∧
      (x.sendBuf ≠ [] → x.writing = true ∧ p.epollOut c = true) ∧
      (x.writing = false → x.sendBuf = []) := by
  intro x
  obtain ⟨hbytes, hbound, harmed, hwatched⟩ := (piped_of_run h).flow c d hd ho
  refine ⟨hbytes, hbound, fun hne => ⟨harmed hne, hwatched (harmed hne)⟩, fun hf => ?_⟩
  by_contra hne
  rw [harmed hne] at hf
  cases hf

theorem Sample.exists_pipesRun (ls : List PipesLabel) (p : Pipes → Prop)
    (h : ∃ q ∈ runAll (Pipes.step params) (fun _ _ => True) ls
      ⟨State.init params Sample.db, fun _ => false, fun _ => []⟩, p q) :
    ∃ q, Pipes.RunTo params Sample.db q ∧ p q :=
  exists_reach ls h

/-- The reply to a heartbeat, of which the socket takes five bytes. -/
theorem pipe_exact_sample : ∃ p, Pipes.RunTo Sample.params Sample.db p ∧ (p.written 0).length = 5 ∧
    ∃ d, p.server.net.conns 0 = some d ∧ (p.server.net.ctxs d.ctx).writing = true ∧
      p.epollOut 0 = true := by
  let reply : List Label := Sample.connect 5 ++ [Sample.packet 0 .heartbeat []] ++ Sample.work 0 2 ++
    [.swap 0, .functor 0]
  obtain ⟨p, hr, hw, d, hd, ho, hne⟩ := Sample.exists_pipesRun
    (reply.map .server ++ [.handleWrite 0 [.taken 3, .taken 2, .again]])
    (fun p => (p.written 0).length = 5 ∧ ∃ d ∈ p.server.net.conns 0, d.phase = .opened ∧
      (p.server.net.ctxs d.ctx).sendBuf ≠ []) (by decide)
  exact ⟨p, hr, hw, d, hd, (pipe_exact hr 0 d hd ho).2.2.1 hne⟩

end AuraChat
