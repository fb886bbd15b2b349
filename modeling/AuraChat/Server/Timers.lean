import AuraChat.Model.Loop

set_option autoImplicit false

/-!
# Heartbeat timers

The timers of a worker are those that `heartbeat_timers_` records, one for each descriptor in it.
Cancelling takes out the timer of one descriptor, and starting a timer replaces it.

* `Timer.setInsert_perm`: a timer with a new id is added;
* `WorkerLoop.TimersOk`: the timers are the recorded ones;
* **`WorkerLoop.TimersOk.mem_cancel`**, **`WorkerLoop.TimersOk.mem_start`**: what cancelling and starting
  a timer change; `WorkerLoop.TimersOk.cancel`, `WorkerLoop.TimersOk.start`;
* `WorkerLoop.TimerInvariant`, **`WorkerLoop.TimerInvariant.run`**: what the loop does with its timers, and
  the rule for what that keeps.
-/

namespace AuraChat

open Interleave

/-! ## Timers -/

theorem TimerNodeBase.eq_of_not_before {a b : TimerNodeBase} (h : a.before b = false)
    (h' : b.before a = false) : a = b := by
  obtain ⟨ea, ia⟩ := a
  obtain ⟨eb, ib⟩ := b
  simp only [before] at h h'
  by_cases he : ea = eb
  · subst he
    simp only [ne_eq, not_true_eq_false, if_false, decide_eq_false_iff_not] at h h'
    rw [show ia = ib by omega]
  · rw [if_pos he, decide_eq_false_iff_not] at h
    rw [if_pos (Ne.symm he), decide_eq_false_iff_not] at h'
    omega

theorem Timer.setInsert_perm {φ : Type} {n : TimerNode φ} {l : List (TimerNode φ)}
    (h : ∀ m ∈ l, m.id ≠ n.id) : (setInsert n l).Perm (n :: l) := by
  induction l with
  | nil => exact .refl _
  | cons m ms ih =>
      rw [setInsert]
      split_ifs with h1 h2
      · exact .refl _
      · exact ((ih fun m' hm' => h m' (List.mem_cons_of_mem _ hm')).cons m).trans (.swap n m ms)
      · -- the node would be equivalent to one of the set
        have heq := TimerNodeBase.eq_of_not_before (Bool.eq_false_iff.mpr h1) (Bool.eq_false_iff.mpr h2)
        exact absurd (congrArg TimerNodeBase.id heq).symm (h m List.mem_cons_self)

namespace WorkerLoop

/-- The timers are those recorded in `heartbeat_timers_`. -/
structure TimersOk (w : WorkerLoop) : Prop where
  ids : ∀ n ∈ w.timer.timermap, n.id ≤ w.timer.gid
  nodup : (w.timer.timermap.map TimerNode.toTimerNodeBase).Nodup
  recorded : ∀ n ∈ w.timer.timermap, w.heartbeatTimers.lookup n.func.fd = some n.toTimerNodeBase
  live : ∀ fd node, w.heartbeatTimers.lookup fd = some node →
    ∃ n ∈ w.timer.timermap, n.toTimerNodeBase = node ∧ n.func.fd = fd

theorem TimersOk.congr {w w' : WorkerLoop} (h : TimersOk w) (ht : w'.timer = w.timer)
    (hb : w'.heartbeatTimers = w.heartbeatTimers) : TimersOk w' where
  ids := by rw [ht]; exact h.ids
  nodup := by rw [ht]; exact h.nodup
  recorded := by rw [ht, hb]; exact h.recorded
  live := by rw [ht, hb]; exact h.live

section Cancel

variable (w : WorkerLoop) (fd : Int)

@[simp] theorem now_cancel : (w.cancelHeartbeatTimer fd).now = w.now := by
  unfold cancelHeartbeatTimer; split <;> rfl

@[simp] theorem gid_cancel : (w.cancelHeartbeatTimer fd).timer.gid = w.timer.gid := by
  unfold cancelHeartbeatTimer; split <;> rfl

theorem cancel_frame : ∃ timer hb,
    w.cancelHeartbeatTimer fd = { w with timer := timer, heartbeatTimers := hb } := by
  unfold cancelHeartbeatTimer
  split
  · exact ⟨_, _, rfl⟩
  · exact ⟨_, _, rfl⟩

theorem lookup_cancel (fd' : Int) : (w.cancelHeartbeatTimer fd).heartbeatTimers.lookup fd' =
    if fd' = fd then none else w.heartbeatTimers.lookup fd' := by
  unfold cancelHeartbeatTimer
  split
  · split_ifs with h
    · rw [h, AList.lookup_erase]
    · exact AList.lookup_erase_ne h
  · rename_i hnone
    split_ifs with h
    · rw [h, hnone]
    · rfl

end Cancel

variable {w : WorkerLoop}

/-- Cancelling removes the timer of the descriptor and no other. -/
theorem TimersOk.mem_cancel (h : TimersOk w) (fd : Int) (n : TimerNode Heartbeat) :
    n ∈ (w.cancelHeartbeatTimer fd).timer.timermap ↔ n ∈ w.timer.timermap ∧ n.func.fd ≠ fd := by
  unfold cancelHeartbeatTimer
  split
  · rename_i node hnode
    rw [Timer.delTimer, List.mem_filter, decide_eq_true_eq]
    refine and_congr_right fun hn => not_congr ⟨fun he => ?_, fun he => ?_⟩
    · -- a node with this handle is the one that is recorded
      obtain ⟨n', hn', hbase, rfl⟩ := h.live fd node hnode
      rw [List.inj_on_of_nodup_map h.nodup hn hn' (he.trans hbase.symm)]
    · have hrec := h.recorded n hn
      rw [he, hnode] at hrec
      exact (Option.some.inj hrec).symm
  · rename_i hnone
    refine ⟨fun hn => ⟨hn, fun he => ?_⟩, And.left⟩
    have hrec := h.recorded n hn
    rw [he, hnone] at hrec
    cases hrec

theorem TimersOk.cancel (h : TimersOk w) (fd : Int) : TimersOk (w.cancelHeartbeatTimer fd) where
  ids n hn := by
    rw [gid_cancel]
    exact h.ids n ((h.mem_cancel fd n).mp hn).1
  nodup := by
    refine List.Nodup.sublist (List.Sublist.map _ ?_) h.nodup
    unfold cancelHeartbeatTimer
    split
    · exact List.filter_sublist
    · exact .refl _
  recorded n hn := by
    obtain ⟨hn, hfd⟩ := (h.mem_cancel fd n).mp hn
    rw [lookup_cancel, if_neg hfd]
    exact h.recorded n hn
  live fd' node hnode := by
    rw [lookup_cancel] at hnode
    split_ifs at hnode with hfd
    obtain ⟨n, hn, hbase, hnfd⟩ := h.live fd' node hnode
    exact ⟨n, (h.mem_cancel fd n).mpr ⟨hn, by rw [hnfd]; exact hfd⟩, hbase, hnfd⟩

/-- The timer that `start_heartbeat_timer` adds. -/
def newTimer (heartbeatSec : Int) (w : WorkerLoop) (fd : Int) (num : ℕ) : TimerNode Heartbeat :=
  ⟨⟨w.now + heartbeatSec * 1000, w.timer.gid + 1⟩, ⟨fd, num⟩⟩

theorem startHeartbeatTimer_eq (H : Int) (w : WorkerLoop) (fd : Int) (num : ℕ) :
    w.startHeartbeatTimer H fd num =
      { w.cancelHeartbeatTimer fd with
        timer := ⟨w.timer.gid + 1,
          Timer.setInsert (newTimer H w fd num) (w.cancelHeartbeatTimer fd).timer.timermap⟩
        heartbeatTimers := (w.cancelHeartbeatTimer fd).heartbeatTimers.insert fd
          (newTimer H w fd num).toTimerNodeBase } := by
  simp only [startHeartbeatTimer, Timer.addTimer, newTimer, now_cancel, gid_cancel]

section Start

variable (H : Int) (fd : Int) (num : ℕ)

theorem start_frame (w : WorkerLoop) : ∃ timer hb,
    w.startHeartbeatTimer H fd num = { w with timer := timer, heartbeatTimers := hb } := by
  obtain ⟨timer, hb, heq⟩ := cancel_frame w fd
  exact ⟨_, _, by rw [startHeartbeatTimer_eq, heq]⟩

theorem TimersOk.start_perm (h : TimersOk w) :
    (w.startHeartbeatTimer H fd num).timer.timermap.Perm
      (newTimer H w fd num :: (w.cancelHeartbeatTimer fd).timer.timermap) := by
  rw [startHeartbeatTimer_eq]
  refine Timer.setInsert_perm fun m hm he => ?_
  have hle := h.ids m ((h.mem_cancel fd m).mp hm).1
  have hid : (newTimer H w fd num).id = w.timer.gid + 1 := rfl
  omega

theorem TimersOk.mem_start (h : TimersOk w) (n : TimerNode Heartbeat) :
    n ∈ (w.startHeartbeatTimer H fd num).timer.timermap ↔
      n = newTimer H w fd num ∨ n ∈ w.timer.timermap ∧ n.func.fd ≠ fd := by
  rw [(h.start_perm H fd num).mem_iff, List.mem_cons, h.mem_cancel]

theorem lookup_start (fd' : Int) : (w.startHeartbeatTimer H fd num).heartbeatTimers.lookup fd' =
    if fd' = fd then some (newTimer H w fd num).toTimerNodeBase else w.heartbeatTimers.lookup fd' := by
  rw [startHeartbeatTimer_eq]
  split_ifs with h
  · rw [h]
    exact AList.lookup_insert _
  · exact (AList.lookup_insert_ne h).trans ((lookup_cancel w fd fd').trans (if_neg h))

theorem mem_keys_start (w : WorkerLoop) (fd' : Int) :
    fd' ∈ (w.startHeartbeatTimer H fd num).heartbeatTimers ↔ fd' = fd ∨ fd' ∈ w.heartbeatTimers := by
  rw [← AList.lookup_isSome, lookup_start, ← AList.lookup_isSome]
  split_ifs with h
  · simp [h]
  · simp [h]

theorem TimersOk.start (h : TimersOk w) : TimersOk (w.startHeartbeatTimer H fd num) where
  ids n hn := by
    have hgid : (w.startHeartbeatTimer H fd num).timer.gid = w.timer.gid + 1 := by
      rw [startHeartbeatTimer_eq]
    rw [hgid]
    rcases (h.mem_start H fd num n).mp hn with rfl | ⟨hn, -⟩
    · exact Int.le_refl _
    · exact Int.le_add_one (h.ids n hn)
  nodup := by
    refine ((h.start_perm H fd num).map _).nodup_iff.mpr (List.nodup_cons.mpr ⟨?_, (h.cancel fd).nodup⟩)
    intro hmem
    obtain ⟨m, hm, hbase⟩ := List.mem_map.mp hmem
    have hle := h.ids m ((h.mem_cancel fd m).mp hm).1
    have hid : m.id = w.timer.gid + 1 := congrArg TimerNodeBase.id hbase
    omega
  recorded n hn := by
    rw [lookup_start]
    rcases (h.mem_start H fd num n).mp hn with rfl | ⟨hn, hfd⟩
    · exact if_pos rfl
    · rw [if_neg hfd]
      exact h.recorded n hn
  live fd' node hnode := by
    rw [lookup_start] at hnode
    split_ifs at hnode with hfd
    · exact ⟨_, (h.mem_start H fd num _).mpr (.inl rfl), Option.some.inj hnode, hfd.symm⟩
    · obtain ⟨n, hn, hbase, hnfd⟩ := h.live fd' node hnode
      exact ⟨n, (h.mem_start H fd num n).mpr (.inr ⟨hn, by rw [hnfd]; exact hfd⟩), hbase, hnfd⟩

end Start

/-! ## The loop and its timers -/

/-- A predicate on the timers, the clock and the callbacks that have not returned, the innermost first, that
is kept by what the loop does with its timers: it lets time pass, adds and deletes heartbeat timers, and
calls the callback of a timer that is due. -/
structure TimerInvariant (H : Int) (I : Timer Heartbeat → Int → List (TimerNode Heartbeat) → Prop) :
    Prop where
  later : ∀ {t now now' cs}, I t now cs → now ≤ now' → I t now' cs
  add : ∀ {t now cs} (func : Heartbeat), I t now cs → I (t.addTimer now (H * 1000) func).1 now cs
  delete : ∀ {t now cs} (node : TimerNodeBase), I t now cs → I (t.delTimer node).1 now cs
  fire : ∀ {t t' now cs n}, I t now cs → t.checkTimer now = some (n, t') → I t' now (n :: cs)
  returns : ∀ {t now cs} (n : TimerNode Heartbeat), I t now (n :: cs) → I t now cs

namespace TimerInvariant

variable {H : Int} {I : Timer Heartbeat → Int → List (TimerNode Heartbeat) → Prop} {w : WorkerLoop}
  {cs : List (TimerNode Heartbeat)}

theorem wait (hI : TimerInvariant H I) (h : I w.timer w.now cs) (ms : ℕ) : I w.timer (w.now + ms) cs :=
  hI.later h (Int.le_add_of_nonneg_right (Int.natCast_nonneg ms))

theorem cancel (hI : TimerInvariant H I) (h : I w.timer w.now cs) (fd : Int) :
    I (w.cancelHeartbeatTimer fd).timer (w.cancelHeartbeatTimer fd).now cs := by
  unfold cancelHeartbeatTimer
  split
  · exact hI.delete _ h
  · exact h

theorem start (hI : TimerInvariant H I) (h : I w.timer w.now cs) (fd : Int) (num : ℕ) :
    I (w.startHeartbeatTimer H fd num).timer (w.startHeartbeatTimer H fd num).now cs :=
  hI.add ⟨fd, num⟩ (hI.cancel h fd)

theorem destroy (h : I w.timer w.now cs) (c : TcpConnection) :
    I (w.destroy c).timer (w.destroy c).now cs := by
  unfold WorkerLoop.destroy closeFd
  split_ifs <;> exact h

theorem doForceClose (hI : TimerInvariant H I) (h : I w.timer w.now cs) (c : TcpConnection) :
    I (w.doForceClose c).1.timer (w.doForceClose c).1.now cs := by
  unfold WorkerLoop.doForceClose
  split_ifs
  · exact h
  · exact hI.cancel h c.fd

theorem forceClose (hI : TimerInvariant H I) (h : I w.timer w.now cs) (fd : Int) :
    I (w.forceCloseInLoop fd).timer (w.forceCloseInLoop fd).now cs := by
  unfold forceCloseInLoop
  split
  · exact h
  · rename_i c hc
    have herase : I { w with connections := w.connections.erase fd }.timer w.now cs := h
    exact destroy (hI.doForceClose herase c) _

theorem addConnection (hI : TimerInvariant H I) (h : I w.timer w.now cs) (fd : Int) :
    I (w.addConnectionInLoop H fd).timer (w.addConnectionInLoop H fd).now cs := by
  unfold addConnectionInLoop
  refine hI.start ?_ fd w.nextNum
  cases w.connections.lookup fd with
  | none => exact h
  | some c =>
      refine destroy ?_ c
      exact h

theorem handleRead (hI : TimerInvariant H I) (c : TcpConnection) (refused : Bool)
    (rs : List (ℕ × ReadResult)) {w : WorkerLoop} (h : I w.timer w.now cs) :
    I (handleRead H c refused rs w).timer (handleRead H c refused rs w).now cs := by
  induction rs generalizing w with
  | nil =>
      rw [WorkerLoop.handleRead]
      split_ifs
      · exact hI.forceClose h c.fd
      · exact h
  | cons call rs ih =>
      obtain ⟨ms, result⟩ := call
      have hwait := hI.wait h ms
      cases result with
      | bytes ms' =>
          refine ih (hI.start ?_ c.fd c.num)
          exact hI.later hwait (Int.le_add_of_nonneg_right (Int.natCast_nonneg ms'))
      | broken => exact hI.forceClose (w := { w with now := w.now + ms }) hwait c.fd
      | again =>
          simp only [WorkerLoop.handleRead]
          split_ifs
          · exact hI.forceClose (w := { w with now := w.now + ms }) hwait c.fd
          · exact hwait

theorem handleEvents (hI : TimerInvariant H I) (h : I w.timer w.now cs) (c : TcpConnection) (e : Event) :
    I (w.handleEvents H c e).timer (w.handleEvents H c e).now cs := by
  have hread : I (if e.input then WorkerLoop.handleRead H c e.refused e.reads w else w).timer
      (if e.input then WorkerLoop.handleRead H c e.refused e.reads w else w).now cs := by
    split_ifs
    · exact hI.handleRead c e.refused e.reads h
    · exact h
  unfold WorkerLoop.handleEvents
  by_cases hhup : e.hup = true
  · rw [if_pos hhup]
    exact hI.forceClose h c.fd
  · rw [if_neg hhup]
    dsimp only
    generalize (if e.input then WorkerLoop.handleRead H c e.refused e.reads w else w) = w₁ at hread
    split_ifs
    · exact hI.forceClose hread c.fd
    · exact hread

theorem runJob (hI : TimerInvariant H I) (h : I w.timer w.now cs) (j : LoopJob) :
    I (w.runJob H j).timer (w.runJob H j).now cs := by
  cases j with
  | add fd => exact hI.addConnection h fd
  | send fd overflow =>
      simp only [WorkerLoop.runJob, send]
      split
      · exact h
      · split_ifs <;> exact h
  | close fd => exact hI.forceClose h fd

theorem checkTimer (hI : TimerInvariant H I) (h : I w.timer w.now cs) {n : TimerNode Heartbeat}
    {timer : Timer Heartbeat} (hcheck : w.timer.checkTimer w.now = some (n, timer)) :
    I ({ w with timer := timer }.fire n.func).timer ({ w with timer := timer }.fire n.func).now cs := by
  have hcall : I timer w.now (n :: cs) := hI.fire h hcheck
  refine hI.returns n ?_
  unfold WorkerLoop.fire
  refine hI.forceClose ?_ n.func.fd
  exact hcall

theorem step (hI : TimerInvariant H I) (h : I w.timer w.now cs) {l : Label} {w' : WorkerLoop}
    (hs : step H l w = some w') : I w'.timer w'.now cs := by
  cases l with
  | tick ms =>
      obtain rfl := Option.some.inj hs
      exact hI.wait h ms
  | accept fd =>
      simp only [WorkerLoop.step] at hs
      split_ifs at hs
      obtain rfl := Option.some.inj hs
      exact h
  | queueSend fd overflow =>
      obtain rfl := Option.some.inj hs
      exact h
  | queueClose fd =>
      obtain rfl := Option.some.inj hs
      exact h
  | functor =>
      simp only [WorkerLoop.step] at hs
      split at hs
      · cases hs
      · rename_i j js hjobs
        obtain rfl := Option.some.inj hs
        exact hI.runJob (w := { w with pendingFunctors := js }) h j
  | event fd e =>
      obtain ⟨c, hc, rfl⟩ := Option.map_eq_some_iff.mp hs
      exact hI.handleEvents h c e
  | checkTimer =>
      simp only [WorkerLoop.step] at hs
      split at hs
      · obtain rfl := Option.some.inj hs
        exact h
      · rename_i n timer hcheck
        obtain rfl := Option.some.inj hs
        exact hI.checkTimer h hcheck

/-- **In every state of the loop the predicate holds**, and no callback is under way. -/
theorem run (hI : TimerInvariant H I) (h₀ : I {} 0 []) (hr : RunTo H w) : I w.timer w.now [] :=
  hr.invariant (fun w => I w.timer w.now []) h₀ fun _ _ _ _ h hs => hI.step h hs

end TimerInvariant

end WorkerLoop

end AuraChat
