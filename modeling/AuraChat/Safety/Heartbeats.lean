import AuraChat.Server.Timers

set_option autoImplicit false

/-!
# Connections and their heartbeat timers

A worker keeps four things about its connections: `connections_`, `heartbeat_timers_`, the timers
themselves and its share of `g_conn_count`. They stay in step, whatever is queued, read, sent, closed
or due.

* `WorkerLoop.Sound`: the invariant of a worker;
* `Sound.rearm`, `Sound.close`, `Sound.fire`, `Sound.add`: what happens to a connection keeps it;
* **`WorkerLoop.connections_sound`**: it holds in every state of every run.
-/

namespace AuraChat.WorkerLoop

variable {w : WorkerLoop}

/-! ## The invariant -/

/-- The descriptor that a functor is to add. -/
def addedFd : LoopJob → Option Int
  | .add fd => some fd
  | _ => none

/-- The descriptors of the connections that are still to be added. -/
def adds (w : WorkerLoop) : List Int := w.pendingFunctors.filterMap addedFd

/-- The connection was added, or bytes were read from it, at the time `t`. -/
def Active (log : List LoopEvent) (num : ℕ) (t : Int) : Prop :=
  .read num t ∈ log ∨ ∃ fd, .opened num fd t ∈ log

/-- The event is the firing of a timer. -/
def isFired : LoopEvent → Bool
  | .fired _ _ _ => true
  | _ => false

/-- The timer that fired closed the connection that had armed it, which had been silent for the whole
heartbeat interval. -/
def Timely (heartbeatSec : Int) (log : List LoopEvent) : Prop :=
  ∀ a victim t older, .fired a victim t :: older <:+ log →
    victim = some a ∧ (∃ fd, .closed a fd :: .fired a victim t :: older <:+ log) ∧
    ∀ t', Active older a t' → t' + heartbeatSec * 1000 ≤ t

/-- The object that `connections_` holds for a descriptor. -/
def holder (w : WorkerLoop) (fd : Int) : Option ℕ := (w.connections.lookup fd).map TcpConnection.num

/-- The invariant of a worker. -/
structure Sound (heartbeatSec : Int) (w : WorkerLoop) : Prop where
  timers : TimersOk w
  keys : ∀ fd, fd ∈ w.connections ↔ fd ∈ w.heartbeatTimers
  conn : ∀ fd c, w.connections.lookup fd = some c → c.fd = fd ∧ c.closed = false ∧ 0 ≤ fd ∧
    w.openFds fd = true ∧ ∃ t, .opened c.num fd t ∈ w.log
  /-- A timer belongs to the connection that armed it. -/
  armed : ∀ n ∈ w.timer.timermap, w.holder n.func.fd = some n.func.armedBy
  silent : ∀ n ∈ w.timer.timermap, ∀ t, Active w.log n.func.armedBy t →
    t + heartbeatSec * 1000 ≤ n.expire
  past : ∀ num t, Active w.log num t → t ≤ w.now
  pending : ∀ fd ∈ w.adds, fd ∉ w.connections ∧ 0 ≤ fd ∧ w.openFds fd = true
  distinct : w.adds.Nodup
  count : w.connCount = w.connections.keys.length
  timely : Timely heartbeatSec w.log
  /-- The descriptor of a connection is closed once, when the connection leaves `connections_`. -/
  once : ∀ num fd t, .opened num fd t ∈ w.log →
    w.log.count (.closed num fd) = if w.holder fd = some num then 0 else 1
  fresh : ∀ num t, Active w.log num t → num < w.nextNum
  unique : ∀ num fd t fd' t', .opened num fd t ∈ w.log → .opened num fd' t' ∈ w.log → fd = fd'
  origin : ∀ num fd, .closed num fd ∈ w.log → ∃ t, .opened num fd t ∈ w.log

variable {H : Int}

theorem mem_of_lookup {fd : Int} {c : TcpConnection} (hc : w.connections.lookup fd = some c) :
    fd ∈ w.connections :=
  AList.lookup_isSome.mp (by rw [hc]; rfl)

theorem holder_of_lookup {fd : Int} {c : TcpConnection} (hc : w.connections.lookup fd = some c) :
    w.holder fd = some c.num := by
  rw [holder, hc, Option.map_some]

theorem Sound.mem_of_holder (h : Sound H w) {fd : Int} {num : ℕ} (hh : w.holder fd = some num) :
    fd ∈ w.connections ∧ ∃ t, .opened num fd t ∈ w.log := by
  obtain ⟨c, hc, rfl⟩ := Option.map_eq_some_iff.mp hh
  exact ⟨mem_of_lookup hc, (h.conn fd c hc).2.2.2.2⟩

theorem Sound.not_opened (h : Sound H w) {fd t : Int} : .opened w.nextNum fd t ∉ w.log := fun ho =>
  lt_irrefl _ (h.fresh _ t (.inr ⟨fd, ho⟩))

theorem Sound.holder_inj (h : Sound H w) {fd fd' : Int} {num : ℕ} (hh : w.holder fd = some num)
    (hh' : w.holder fd' = some num) : fd = fd' := by
  obtain ⟨-, t, ht⟩ := h.mem_of_holder hh
  obtain ⟨-, t', ht'⟩ := h.mem_of_holder hh'
  exact h.unique num fd t fd' t' ht ht'

/-! ## Steps that touch no connection -/

theorem Sound.tick (h : Sound H w) (ms : ℕ) : Sound H { w with now := w.now + ms } :=
  { h with
    timers := h.timers.congr rfl rfl
    past := fun num t ha => Int.le_trans (h.past num t ha) (Int.le_add_of_nonneg_right (by omega)) }

theorem Sound.queue (h : Sound H w) (js : List LoopJob)
    (hp : ∀ fd ∈ js.filterMap addedFd, fd ∉ w.connections ∧ 0 ≤ fd ∧ w.openFds fd = true)
    (hd : (js.filterMap addedFd).Nodup) : Sound H { w with pendingFunctors := js } :=
  { h with
    timers := h.timers.congr rfl rfl
    pending := hp
    distinct := hd }

theorem Sound.enqueue (h : Sound H w) {j : LoopJob} (hj : addedFd j = none) :
    Sound H { w with pendingFunctors := w.pendingFunctors ++ [j] } := by
  have hsame : (w.pendingFunctors ++ [j]).filterMap addedFd = w.adds := by
    rw [List.filterMap_append, List.filterMap_cons_none hj, List.filterMap_nil, List.append_nil, adds]
  refine h.queue _ ?_ ?_ <;> rw [hsame]
  · exact h.pending
  · exact h.distinct

theorem Sound.accept (h : Sound H w) {fd : Int} (hpos : 0 ≤ fd) (hopen : w.openFds fd = false) :
    Sound H
      { w with
        openFds := Function.update w.openFds fd true
        pendingFunctors := w.pendingFunctors ++ [.add fd] } := by
  have hadds : (w.pendingFunctors ++ [LoopJob.add fd]).filterMap addedFd = w.adds ++ [fd] := by
    rw [List.filterMap_append]
    rfl
  have hkeep : ∀ fd', w.openFds fd' = true → Function.update w.openFds fd true fd' = true := by
    intro fd' h'
    by_cases hne : fd' = fd
    · rw [hne, Function.update_self]
    · rw [Function.update_of_ne hne, h']
  have hshut : fd ∉ w.connections := by
    intro hin
    obtain ⟨c, hc⟩ := Option.isSome_iff_exists.mp (AList.lookup_isSome.mpr hin)
    rw [(h.conn fd c hc).2.2.2.1] at hopen
    cases hopen
  have hnew : fd ∉ w.adds := by
    intro hin
    rw [(h.pending fd hin).2.2] at hopen
    cases hopen
  refine
    { h with
      timers := h.timers.congr rfl rfl
      conn := fun fd' c hc => ?_
      pending := fun fd' hfd' => ?_
      distinct := ?_ }
  · obtain ⟨h1, h2, h3, h4, h5⟩ := h.conn fd' c hc
    exact ⟨h1, h2, h3, hkeep fd' h4, h5⟩
  · change fd' ∈ (w.pendingFunctors ++ [LoopJob.add fd]).filterMap addedFd at hfd'
    rw [hadds] at hfd'
    rcases List.mem_append.mp hfd' with hfd' | hfd'
    · obtain ⟨h1, h2, h3⟩ := h.pending fd' hfd'
      exact ⟨h1, h2, hkeep fd' h3⟩
    · obtain rfl := List.mem_singleton.mp hfd'
      exact ⟨hshut, hpos, Function.update_self ..⟩
  · change ((w.pendingFunctors ++ [LoopJob.add fd]).filterMap addedFd).Nodup
    rw [hadds]
    exact h.distinct.append (List.nodup_singleton fd) (List.disjoint_singleton.mpr hnew)

/-! ## Reads -/

theorem Timely.cons {log : List LoopEvent} (h : Timely H log) {e : LoopEvent}
    (he : isFired e = false) : Timely H (e :: log) := by
  intro a victim t older hs
  rcases List.suffix_cons_iff.mp hs with heq | hs
  · rw [← (List.cons.inj heq).1] at he
    cases he
  · obtain ⟨hv, ⟨fd, hclosed⟩, hsilent⟩ := h a victim t older hs
    exact ⟨hv, ⟨fd, hclosed.trans (List.suffix_cons _ _)⟩, hsilent⟩

theorem active_read {log : List LoopEvent} {num num' : ℕ} {t t' : Int} :
    Active (.read num t :: log) num' t' ↔ (num' = num ∧ t' = t) ∨ Active log num' t' := by
  simp [Active, or_assoc]

/-- Bytes are read, and the timer is started again. -/
theorem Sound.rearm (h : Sound H w) {c : TcpConnection} (hc : w.connections.lookup c.fd = some c)
    (ms : ℕ) : Sound H (startHeartbeatTimer H
      { w with log := .read c.num w.now :: w.log, now := w.now + ms } c.fd c.num) := by
  let w₁ : WorkerLoop := { w with log := .read c.num w.now :: w.log, now := w.now + ms }
  have hok : TimersOk w₁ := h.timers.congr rfl rfl
  have hmem := hok.mem_start H c.fd c.num
  have hkeys := mem_keys_start H c.fd c.num w₁
  have htimers := hok.start H c.fd c.num
  have hin : c.fd ∈ w.connections := mem_of_lookup hc
  have hholder : w.holder c.fd = some c.num := holder_of_lookup hc
  have hpast : ∀ num t, Active w₁.log num t → t ≤ w.now := by
    intro num t ha
    rcases active_read.mp ha with ⟨-, rfl⟩ | ha
    · exact Int.le_refl _
    · exact h.past num t ha
  change Sound H (w₁.startHeartbeatTimer H c.fd c.num)
  obtain ⟨timer, hb, heq⟩ := start_frame H c.fd c.num w₁
  rw [heq] at hmem hkeys htimers ⊢
  refine
    { timers := htimers
      keys := fun fd => ?keys
      conn := fun fd d hd => ?conn
      armed := fun n hn => ?armed
      silent := fun n hn t ha => ?silent
      past := fun num t ha => Int.le_trans (hpast num t ha) (Int.le_add_of_nonneg_right (by omega))
      pending := h.pending
      distinct := h.distinct
      count := h.count
      timely := h.timely.cons rfl
      once := fun num fd t ho => ?once
      fresh := fun num t ha => ?fresh
      unique := fun num fd t fd' t' ho ho' => ?unique
      origin := fun num fd ho => ?origin }
  case keys =>
    rw [hkeys fd]
    refine ⟨fun hfd => .inr ((h.keys fd).mp hfd), ?_⟩
    rintro (rfl | hfd)
    · exact hin
    · exact (h.keys fd).mpr hfd
  case conn =>
    obtain ⟨h1, h2, h3, h4, t, ht⟩ := h.conn fd d hd
    exact ⟨h1, h2, h3, h4, t, List.mem_cons_of_mem _ ht⟩
  case armed =>
    rcases (hmem n).mp hn with rfl | ⟨hn, -⟩
    · exact hholder
    · exact h.armed n hn
  case silent =>
    rcases (hmem n).mp hn with rfl | ⟨hn, hfd⟩
    · have hle := hpast _ t ha
      change t + H * 1000 ≤ w.now + ms + H * 1000
      omega
    · rcases active_read.mp ha with ⟨hnum, -⟩ | ha
      · -- the timer of another descriptor belongs to another connection
        have harmed := h.armed n hn
        rw [hnum] at harmed
        exact absurd (h.holder_inj harmed hholder) hfd
      · exact h.silent n hn t ha
  case once =>
    rw [List.count_cons_of_ne (by simp)]
    exact h.once num fd t (List.mem_of_ne_of_mem (by simp) ho)
  case fresh =>
    rcases active_read.mp ha with ⟨rfl, -⟩ | ha
    · obtain ⟨-, t', ht'⟩ := h.mem_of_holder hholder
      exact h.fresh _ t' (.inr ⟨_, ht'⟩)
    · exact h.fresh num t ha
  case unique =>
    exact h.unique num fd t fd' t' (List.mem_of_ne_of_mem (by simp) ho)
      (List.mem_of_ne_of_mem (by simp) ho')
  case origin =>
    obtain ⟨t, ht⟩ := h.origin num fd (List.mem_of_ne_of_mem (by simp) ho)
    exact ⟨t, List.mem_cons_of_mem _ ht⟩

/-! ## Closes -/

theorem forceCloseInLoop_eq {fd : Int} {c : TcpConnection} (hc : w.connections.lookup fd = some c)
    (hfd : c.fd = fd) (hcl : c.closed = false) :
    w.forceCloseInLoop fd =
      { w.cancelHeartbeatTimer fd with
        connections := w.connections.erase fd
        connCount := w.connCount - 1
        openFds := Function.update w.openFds fd false
        log := .closed c.num fd :: w.log } := by
  subst hfd
  simp only [forceCloseInLoop, hc, doForceClose, hcl, Bool.false_eq_true, if_false, closeImpl, closeFd,
    destroy, if_true, show ¬ (0 : Int) ≤ -1 by decide]
  unfold cancelHeartbeatTimer
  dsimp only
  split <;> rfl

/-- Two logs differ at most in the timers that fired. -/
def SameButFired (log₁ log : List LoopEvent) : Prop :=
  ∀ e, isFired e = false → log₁.count e = log.count e

theorem SameButFired.mem {log₁ log : List LoopEvent} (h : SameButFired log₁ log) {e : LoopEvent}
    (he : isFired e = false) : e ∈ log₁ ↔ e ∈ log := by
  rw [← List.count_pos_iff, h e he, List.count_pos_iff]

theorem active_closed {log₁ log : List LoopEvent} (h : SameButFired log₁ log) {num num' : ℕ}
    {fd t : Int} :
    Active (.closed num fd :: log₁) num' t ↔ Active log num' t := by
  simp only [Active, List.mem_cons, reduceCtorEq, false_or]
  exact or_congr (h.mem rfl) (exists_congr fun fd => h.mem rfl)

/-- A connection is closed; `log₁` is the log in front of the close. -/
theorem Sound.close (h : Sound H w) {fd : Int} {c : TcpConnection}
    (hc : w.connections.lookup fd = some c) {log₁ : List LoopEvent} (hlog : SameButFired log₁ w.log)
    (htimely : Timely H (.closed c.num fd :: log₁)) : Sound H
      { w.cancelHeartbeatTimer fd with
        connections := w.connections.erase fd
        connCount := w.connCount - 1
        openFds := Function.update w.openFds fd false
        log := .closed c.num fd :: log₁ } := by
  have hmem := h.timers.mem_cancel fd
  have hlookup := lookup_cancel w fd
  have htimers := h.timers.cancel fd
  have hin : fd ∈ w.connections := mem_of_lookup hc
  have hholder : w.holder fd = some c.num := holder_of_lookup hc
  obtain ⟨timer, hb, heq⟩ := cancel_frame w fd
  rw [heq] at hmem hlookup htimers ⊢
  dsimp only
  have hopened : ∀ {num fd' t}, .opened num fd' t ∈ .closed c.num fd :: log₁ ↔
      .opened num fd' t ∈ w.log := by
    intro num fd' t
    rw [List.mem_cons]
    refine ⟨fun ho => (hlog.mem rfl).mp (ho.resolve_left nofun), fun ho => .inr ?_⟩
    exact (hlog.mem rfl).mpr ho
  have holder' : ∀ fd', fd' ≠ fd →
      ((w.connections.erase fd).lookup fd').map TcpConnection.num = w.holder fd' := by
    intro fd' hne
    rw [AList.lookup_erase_ne hne, holder]
  refine
    { timers := htimers.congr rfl rfl
      keys := fun fd' => ?keys
      conn := fun fd' d hd => ?conn
      armed := fun n hn => ?armed
      silent := fun n hn t ha => ?silent
      past := fun num t ha => h.past num t ((active_closed hlog).mp ha)
      pending := fun fd' hfd' => ?pending
      distinct := h.distinct
      count := ?count
      timely := htimely
      once := fun num fd' t ho => ?once
      fresh := fun num t ha => h.fresh num t ((active_closed hlog).mp ha)
      unique := fun num fd t fd' t' ho ho' => h.unique num fd t fd' t' (hopened.mp ho) (hopened.mp ho')
      origin := fun num fd' ho => ?origin }
  case keys =>
    rw [AList.mem_erase, h.keys fd', ← AList.lookup_isSome, ← AList.lookup_isSome]
    rw [hlookup fd']
    split_ifs with hfd
    · simp [hfd]
    · simp [hfd]
  case conn =>
    have hne : fd' ≠ fd := by
      rintro rfl
      rw [AList.lookup_erase] at hd
      cases hd
    rw [AList.lookup_erase_ne hne] at hd
    obtain ⟨h1, h2, h3, h4, t, ht⟩ := h.conn fd' d hd
    exact ⟨h1, h2, h3, (Function.update_of_ne hne _ _).trans h4, t, hopened.mpr ht⟩
  case armed =>
    obtain ⟨hn, hne⟩ := (hmem n).mp hn
    exact (holder' _ hne).trans (h.armed n hn)
  case silent =>
    exact h.silent n ((hmem n).mp hn).1 t ((active_closed hlog).mp ha)
  case pending =>
    obtain ⟨h1, h2, h3⟩ := h.pending fd' hfd'
    have hne : fd' ≠ fd := fun he => h1 (he ▸ hin)
    exact ⟨fun hm => h1 (AList.mem_erase.mp hm).2, h2, (Function.update_of_ne hne _ _).trans h3⟩
  case count =>
    change w.connCount - 1 = _
    rw [AList.keys_erase, List.length_erase_of_mem hin, h.count]
    have hpos := List.length_pos_of_mem (AList.mem_keys.mp hin)
    omega
  case once =>
    have hold := h.once num fd' t (hopened.mp ho)
    rw [List.count_cons, hlog _ rfl, hold]
    by_cases hfd : fd' = fd
    · -- the descriptor has no holder any more: its last one is the connection that is closed
      subst hfd
      rw [hholder]
      simp only [holder, AList.lookup_erase, Option.map_none, reduceCtorEq, if_false,
        Option.some.injEq, beq_iff_eq, LoopEvent.closed.injEq, and_true]
      split_ifs <;> rfl
    · have hne : ¬ (LoopEvent.closed c.num fd == .closed num fd') = true := by
        simp only [beq_iff_eq, LoopEvent.closed.injEq, not_and]
        exact fun _ he => hfd he.symm
      rw [if_neg hne, Nat.add_zero, ← holder' fd' hfd]
      rfl
  case origin =>
    rcases List.mem_cons.mp ho with he | ho
    · obtain ⟨rfl, rfl⟩ := LoopEvent.closed.inj he
      obtain ⟨-, -, -, -, t, ht⟩ := h.conn _ c hc
      exact ⟨t, hopened.mpr ht⟩
    · obtain ⟨t, ht⟩ := h.origin num fd' ((hlog.mem rfl).mp ho)
      exact ⟨t, hopened.mpr ht⟩

/-- `force_close_in_loop` keeps the invariant, whether the descriptor is known or not. -/
theorem Sound.forceClose (h : Sound H w) (fd : Int) : Sound H (w.forceCloseInLoop fd) := by
  cases hc : w.connections.lookup fd with
  | none =>
      rw [forceCloseInLoop, hc]
      exact h
  | some c =>
      obtain ⟨hfd, hcl, -⟩ := h.conn fd c hc
      rw [forceCloseInLoop_eq hc hfd hcl]
      exact h.close hc (fun _ _ => rfl) (h.timely.cons rfl)

/-! ## Timers that fire -/

/-- The due timer is the one recorded for its descriptor, so cancelling that is the same whether the
timer has been taken out before or not. -/
theorem cancel_after_check (h : Sound H w) {n : TimerNode Heartbeat}
    {rest : List (TimerNode Heartbeat)}
    (ht : w.timer.timermap = n :: rest) (log : List LoopEvent) :
    ({ w with timer := { w.timer with timermap := rest }, log := log } :
      WorkerLoop).cancelHeartbeatTimer n.func.fd =
    { w.cancelHeartbeatTimer n.func.fd with log := log } := by
  have hrec := h.timers.recorded n (by rw [ht]; exact List.mem_cons_self)
  simp only [cancelHeartbeatTimer, hrec, Timer.delTimer, ht]
  rw [List.filter_cons_of_neg (by simp)]

/-- A timer that is due closes the connection that has armed it. -/
theorem Sound.fire (h : Sound H w) {n : TimerNode Heartbeat} {rest : List (TimerNode Heartbeat)}
    (ht : w.timer.timermap = n :: rest) (hdue : n.expire ≤ w.now) :
    Sound H (({ w with timer := { w.timer with timermap := rest } } : WorkerLoop).fire n.func) := by
  have hn : n ∈ w.timer.timermap := by rw [ht]; exact List.mem_cons_self
  have harmed := h.armed n hn
  obtain ⟨c, hc, hnum⟩ := Option.map_eq_some_iff.mp harmed
  obtain ⟨hfd, hcl, -⟩ := h.conn _ c hc
  have hlog : SameButFired (.fired n.func.armedBy (some n.func.armedBy) w.now :: w.log) w.log := by
    intro e he
    rw [List.count_cons_of_ne]
    rintro rfl
    cases he
  have htimely : Timely H (.closed c.num n.func.fd ::
      .fired n.func.armedBy (some n.func.armedBy) w.now :: w.log) := by
    intro a victim t older hs
    rcases List.suffix_cons_iff.mp hs with heq | hs
    · cases heq
    rcases List.suffix_cons_iff.mp hs with heq | hs
    · cases heq
      refine ⟨rfl, ⟨n.func.fd, hnum ▸ List.suffix_refl _⟩, fun t' ha => ?_⟩
      exact Int.le_trans (h.silent n hn t' ha) hdue
    · obtain ⟨hv, ⟨fd, hclosed⟩, hsilent⟩ := h.timely a victim t older hs
      refine ⟨hv, ⟨fd, hclosed.trans ?_⟩, hsilent⟩
      exact (List.suffix_cons _ _).trans (List.suffix_cons _ _)
  let w₁ : WorkerLoop :=
    { w with
      timer := { w.timer with timermap := rest }
      log := .fired n.func.armedBy (some n.func.armedBy) w.now :: w.log }
  have hfire : ({ w with timer := { w.timer with timermap := rest } } : WorkerLoop).fire n.func =
      w₁.forceCloseInLoop n.func.fd := by
    simp only [WorkerLoop.fire, hc, Option.map_some, hnum]
    rfl
  rw [hfire, forceCloseInLoop_eq (w := w₁) hc hfd hcl, cancel_after_check h ht]
  exact h.close hc hlog htimely

/-! ## New connections -/

theorem active_opened {log : List LoopEvent} {num num' : ℕ} {fd t t' : Int} :
    Active (.opened num fd t :: log) num' t' ↔ (num' = num ∧ t' = t) ∨ Active log num' t' := by
  simp only [Active, List.mem_cons, reduceCtorEq, false_or, LoopEvent.opened.injEq]
  constructor
  · rintro (hr | ⟨fd', ⟨h1, -, h3⟩ | ho⟩)
    · exact .inr (.inl hr)
    · exact .inl ⟨h1, h3⟩
    · exact .inr (.inr ⟨fd', ho⟩)
  · rintro (⟨h1, h2⟩ | hr | ⟨fd', ho⟩)
    · exact .inr ⟨fd, .inl ⟨h1, rfl, h2⟩⟩
    · exact .inl hr
    · exact .inr ⟨fd', .inr ho⟩

/-- A connection is added on a descriptor that no connection has. -/
theorem Sound.add (h : Sound H w) {fd : Int} (hfd : fd ∉ w.connections) (hpos : 0 ≤ fd)
    (hopen : w.openFds fd = true) (hadds : fd ∉ w.adds) : Sound H (w.addConnectionInLoop H fd) := by
  let c : TcpConnection := ⟨w.nextNum, fd, false⟩
  let w₁ : WorkerLoop :=
    { w with
      nextNum := w.nextNum + 1
      connCount := w.connCount + 1
      connections := w.connections.insert fd c
      log := .opened w.nextNum fd w.now :: w.log }
  have hadd : w.addConnectionInLoop H fd = w₁.startHeartbeatTimer H fd w.nextNum := by
    simp only [addConnectionInLoop, AList.lookup_eq_none.mpr hfd]
    rfl
  have hok : TimersOk w₁ := h.timers.congr rfl rfl
  have hmem := hok.mem_start H fd w.nextNum
  have hkeys := mem_keys_start H fd w.nextNum w₁
  have htimers := hok.start H fd w.nextNum
  obtain ⟨timer, hb, heq⟩ := start_frame H fd w.nextNum w₁
  rw [heq] at hmem hkeys htimers
  rw [hadd, heq]
  have hnone : w.holder fd = none := by
    rw [holder, AList.lookup_eq_none.mpr hfd, Option.map_none]
  have hsame : ∀ fd', fd' ≠ fd → w₁.holder fd' = w.holder fd' := by
    intro fd' hne
    rw [holder, holder, AList.lookup_insert_ne hne]
  have hnew : w₁.holder fd = some w.nextNum := by
    rw [holder, AList.lookup_insert]
    rfl
  refine
    { timers := htimers
      keys := fun fd' => ?keys
      conn := fun fd' d hd => ?conn
      armed := fun n hn => ?armed
      silent := fun n hn t ha => ?silent
      past := fun num t ha => ?past
      pending := fun fd' hfd' => ?pending
      distinct := h.distinct
      count := ?count
      timely := h.timely.cons rfl
      once := fun num fd' t ho => ?once
      fresh := fun num t ha => ?fresh
      unique := fun num fd₁ t₁ fd₂ t₂ ho ho' => ?unique
      origin := fun num fd' ho => ?origin }
  case keys =>
    rw [hkeys fd']
    exact (AList.mem_insert _).trans (or_congr Iff.rfl (h.keys fd'))
  case conn =>
    by_cases hne : fd' = fd
    · subst hne
      change (w.connections.insert fd' c).lookup fd' = some d at hd
      rw [AList.lookup_insert] at hd
      rw [← Option.some.inj hd]
      exact ⟨rfl, rfl, hpos, hopen, w.now, List.mem_cons_self⟩
    · change (w.connections.insert fd c).lookup fd' = some d at hd
      rw [AList.lookup_insert_ne hne] at hd
      obtain ⟨h1, h2, h3, h4, t, ht⟩ := h.conn fd' d hd
      exact ⟨h1, h2, h3, h4, t, List.mem_cons_of_mem _ ht⟩
  case armed =>
    rcases (hmem n).mp hn with rfl | ⟨hn, hne⟩
    · exact hnew
    · exact (hsame _ hne).trans (h.armed n hn)
  case silent =>
    rcases (hmem n).mp hn with rfl | ⟨hn, hne⟩
    · rcases active_opened.mp ha with ⟨-, rfl⟩ | ha
      · exact Int.le_refl _
      · exact absurd (h.fresh _ t ha) (lt_irrefl _)
    · rcases active_opened.mp ha with ⟨hnum, -⟩ | ha
      · -- the timer of another descriptor belongs to an older connection
        obtain ⟨-, t', ht'⟩ := h.mem_of_holder (h.armed n hn)
        rw [hnum] at ht'
        exact absurd ht' h.not_opened
      · exact h.silent n hn t ha
  case past =>
    rcases active_opened.mp ha with ⟨-, rfl⟩ | ha
    · exact Int.le_refl _
    · exact h.past num t ha
  case pending =>
    obtain ⟨h1, h2, h3⟩ := h.pending fd' hfd'
    refine ⟨fun hm => ?_, h2, h3⟩
    rcases (AList.mem_insert _).mp hm with rfl | hm
    · exact hadds hfd'
    · exact h1 hm
  case count =>
    change w.connCount + 1 = ((w.connections.insert fd c).keys.length : Int)
    rw [AList.keys_insert, List.erase_of_not_mem hfd, List.length_cons, h.count]
    rfl
  case once =>
    rw [List.count_cons_of_ne (by simp)]
    change _ = if w₁.holder fd' = some num then 0 else 1
    rcases List.mem_cons.mp ho with he | ho
    · obtain ⟨rfl, rfl, rfl⟩ := LoopEvent.opened.inj he
      rw [hnew, if_pos rfl, List.count_eq_zero]
      intro hmem
      obtain ⟨t, ht⟩ := h.origin _ _ hmem
      exact absurd ht h.not_opened
    · rw [h.once num fd' t ho]
      by_cases hne : fd' = fd
      · -- the connections that had the descriptor before are closed
        have hlt := h.fresh num t (.inr ⟨fd', ho⟩)
        rw [hne, hnone, hnew, if_neg nofun, if_neg]
        exact fun he => absurd (Option.some.inj he) (Nat.ne_of_gt hlt)
      · rw [hsame fd' hne]
  case fresh =>
    rcases active_opened.mp ha with ⟨rfl, -⟩ | ha
    · exact Nat.lt_succ_self _
    · exact Nat.lt_succ_of_lt (h.fresh num t ha)
  case unique =>
    rcases List.mem_cons.mp ho with he | ho <;> rcases List.mem_cons.mp ho' with he' | ho'
    · exact (LoopEvent.opened.inj he).2.1.trans (LoopEvent.opened.inj he').2.1.symm
    · rw [(LoopEvent.opened.inj he).1] at ho'
      exact absurd ho' h.not_opened
    · rw [(LoopEvent.opened.inj he').1] at ho
      exact absurd ho h.not_opened
    · exact h.unique num fd₁ t₁ fd₂ t₂ ho ho'
  case origin =>
    obtain ⟨t, ht⟩ := h.origin num fd' (List.mem_of_ne_of_mem (by simp) ho)
    exact ⟨t, List.mem_cons_of_mem _ ht⟩

/-! ## Runs -/

theorem Sound.handleRead (c : TcpConnection) (refused : Bool) (rs : List (ℕ × ReadResult))
    (h : Sound H w) (hc : w.connections.lookup c.fd = some c) :
    Sound H (handleRead H c refused rs w) := by
  induction rs generalizing w with
  | nil =>
      rw [WorkerLoop.handleRead]
      split_ifs
      · exact h.forceClose _
      · exact h
  | cons r rs ih =>
      obtain ⟨ms, r⟩ := r
      have ht := h.tick ms
      cases r with
      | bytes ms' =>
          refine ih (ht.rearm hc ms') ?_
          obtain ⟨timer, hb, heq⟩ := start_frame H c.fd c.num
            { w with log := .read c.num (w.now + ms) :: w.log, now := w.now + ms + ms' }
          rw [heq]
          exact hc
      | again =>
          simp only [WorkerLoop.handleRead]
          split_ifs
          · exact ht.forceClose _
          · exact ht
      | broken => exact ht.forceClose _

theorem Sound.handleEvents (h : Sound H w) {c : TcpConnection}
    (hc : w.connections.lookup c.fd = some c) (e : Event) : Sound H (w.handleEvents H c e) := by
  have hread : Sound H (if e.input then WorkerLoop.handleRead H c e.refused e.reads w else w) := by
    split_ifs
    · exact Sound.handleRead c e.refused e.reads h hc
    · exact h
  unfold WorkerLoop.handleEvents
  by_cases hhup : e.hup = true
  · rw [if_pos hhup]
    exact h.forceClose _
  · rw [if_neg hhup]
    dsimp only
    generalize (if e.input then WorkerLoop.handleRead H c e.refused e.reads w else w) = w₁ at hread
    split_ifs
    · exact hread.forceClose _
    · exact hread

theorem Sound.runJob (h : Sound H w) {j : LoopJob} {js : List LoopJob}
    (hj : w.pendingFunctors = j :: js) :
    Sound H (({ w with pendingFunctors := js } : WorkerLoop).runJob H j) := by
  have hadds : w.adds = (addedFd j).toList ++ js.filterMap addedFd := by
    rw [adds, hj, List.filterMap_cons]
    cases addedFd j <;> rfl
  have hrest : Sound H { w with pendingFunctors := js } := by
    refine h.queue js (fun fd hfd => h.pending fd ?_) ?_
    · rw [hadds]
      exact List.mem_append_right _ hfd
    · have hd := h.distinct
      rw [hadds] at hd
      exact (List.nodup_append.mp hd).2.1
  cases j with
  | add fd =>
      have hmem : fd ∈ w.adds := by rw [hadds]; exact List.mem_cons_self
      obtain ⟨h1, h2, h3⟩ := h.pending fd hmem
      refine hrest.add h1 h2 h3 ?_
      have hd := h.distinct
      rw [hadds] at hd
      exact (List.nodup_cons.mp hd).1
  | send fd overflow =>
      simp only [WorkerLoop.runJob, send]
      split
      · exact hrest
      · split_ifs
        · exact hrest.enqueue rfl
        · exact hrest
  | close fd => exact hrest.forceClose fd

/-- **Every step keeps the invariant.** -/
theorem Sound.step {l : Label} {w' : WorkerLoop} (h : Sound H w) (hs : step H l w = some w') :
    Sound H w' := by
  cases l with
  | tick ms =>
      cases hs
      exact h.tick ms
  | accept fd =>
      simp only [WorkerLoop.step] at hs
      split_ifs at hs with hfd
      cases hs
      exact h.accept hfd.1 hfd.2
  | queueSend fd overflow =>
      cases hs
      exact h.enqueue rfl
  | queueClose fd =>
      cases hs
      exact h.enqueue rfl
  | functor =>
      simp only [WorkerLoop.step] at hs
      split at hs
      · cases hs
      · rename_i j js hj
        cases hs
        exact h.runJob hj
  | event fd e =>
      obtain ⟨c, hc, rfl⟩ := Option.map_eq_some_iff.mp hs
      refine h.handleEvents ?_ e
      rw [(h.conn fd c hc).1]
      exact hc
  | checkTimer =>
      simp only [WorkerLoop.step, Timer.checkTimer] at hs
      cases ht : w.timer.timermap with
      | nil =>
          rw [ht] at hs
          cases hs
          exact h
      | cons n rest =>
          simp only [ht] at hs
          by_cases hdue : n.expire ≤ w.now
          · rw [if_pos hdue] at hs
            cases hs
            exact h.fire ht hdue
          · rw [if_neg hdue] at hs
            cases hs
            exact h

theorem sound_init : Sound H {} where
  timers := ⟨nofun, List.nodup_nil, nofun, nofun⟩
  keys _ := Iff.rfl
  conn _ _ := nofun
  armed := nofun
  silent := nofun
  past _ _ ha := by simp [Active] at ha
  pending := nofun
  distinct := List.nodup_nil
  count := rfl
  timely a victim t older hs := by simp at hs
  once := nofun
  fresh _ _ ha := by simp [Active] at ha
  unique := nofun
  origin := nofun

theorem Sound.timers_perm (h : Sound H w) :
    (w.timer.timermap.map fun n => n.func.fd).Perm w.connections.keys := by
  have hnd : (w.timer.timermap.map fun n => n.func.fd).Nodup := by
    refine List.Nodup.map_on (fun n hn n' hn' hfd => ?_) (List.Nodup.of_map _ h.timers.nodup)
    have hrec := h.timers.recorded n hn
    rw [hfd, h.timers.recorded n' hn'] at hrec
    exact List.inj_on_of_nodup_map h.timers.nodup hn hn' (Option.some.inj hrec).symm
  refine (List.perm_ext_iff_of_nodup hnd w.connections.keys_nodup).mpr fun fd => ?_
  rw [List.mem_map, ← AList.mem_keys, h.keys fd, ← AList.lookup_isSome, Option.isSome_iff_exists]
  constructor
  · rintro ⟨n, hn, rfl⟩
    exact ⟨_, h.timers.recorded n hn⟩
  · rintro ⟨node, hnode⟩
    obtain ⟨n, hn, -, hfd⟩ := h.timers.live fd node hnode
    exact ⟨n, hn, hfd⟩

/-- **The connections of a worker.** For every value of `HEARTBEAT_SEC`, in every state that the loop of
a worker reaches: `connections_` and `heartbeat_timers_` have the same keys; there is one timer for each
connection, the one recorded for it; a timer that fires closes the connection that armed it, which was
added and last read from at least `HEARTBEAT_SEC` seconds before; the descriptor of a connection is
closed once, when it leaves `connections_`, and no other is; and the worker's share of `g_conn_count`
is the number of its connections. -/
theorem connections_sound (heartbeatSec : Int) (w : WorkerLoop) (hr : RunTo heartbeatSec w) :
    (∀ fd, fd ∈ w.connections ↔ fd ∈ w.heartbeatTimers) ∧
    (w.timer.timermap.map fun n => n.func.fd).Perm w.connections.keys ∧
    (∀ n ∈ w.timer.timermap, w.heartbeatTimers.lookup n.func.fd = some n.toTimerNodeBase) ∧
    (∀ a victim t older, .fired a victim t :: older <:+ w.log →
      victim = some a ∧ (∃ fd, .closed a fd :: .fired a victim t :: older <:+ w.log) ∧
      ∀ t', (.read a t' ∈ older ∨ ∃ fd, .opened a fd t' ∈ older) → t' + heartbeatSec * 1000 ≤ t) ∧
    (∀ num fd t, .opened num fd t ∈ w.log → w.log.count (.closed num fd) =
      if (w.connections.lookup fd).map TcpConnection.num = some num then 0 else 1) ∧
    (∀ num fd, .closed num fd ∈ w.log → ∃ t, .opened num fd t ∈ w.log) ∧
    (∀ num fd t fd' t', .opened num fd t ∈ w.log → .opened num fd' t' ∈ w.log → fd = fd') ∧
    w.connCount = w.connections.keys.length := by
  have h : Sound heartbeatSec w := hr.invariant _ sound_init fun _ _ _ _ h hs => h.step hs
  exact ⟨h.keys, h.timers_perm, h.timers.recorded, h.timely, h.once, h.origin, h.unique,
    h.count⟩

/-- With a heartbeat of one second: a connection is added on descriptor 4 and read from, and a second
later its timer fires. -/
theorem connections_sound_sample : ∃ w, RunTo 1 w ∧
    w.log = [.closed 0 4, .fired 0 (some 0) 1005, .read 0 5, .opened 0 4 0] ∧
    w.log.count (.closed 0 4) = 1 ∧ w.connCount = 0 := by
  obtain ⟨w, hr, hlog, hnone, hkeys⟩ := exists_run 1
    [.accept 4, .functor, .event 4 { input := true, reads := [(5, .bytes 0)] }, .tick 1000,
      .checkTimer]
    (fun w => w.log = [.closed 0 4, .fired 0 (some 0) 1005, .read 0 5, .opened 0 4 0] ∧
      w.connections.lookup 4 = none ∧ w.connections.keys = []) (by decide)
  obtain ⟨-, -, -, -, honce, -, -, hcount⟩ := connections_sound 1 w hr
  refine ⟨w, hr, hlog, ?_, ?_⟩
  · rw [honce 0 4 0 (by rw [hlog]; simp), hnone]
    rfl
  · rw [hcount, hkeys]
    rfl

end AuraChat.WorkerLoop
