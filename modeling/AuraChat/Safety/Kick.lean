import AuraChat.Model.Sample
import AuraChat.Server.Trace

set_option autoImplicit false

/-!
# Kicks

The close that `bind` queues should hit the session that the bind replaces. It is addressed to a
descriptor number, so it can hit others: a second login on a connection closes that connection itself
(`kick_hits_itself`), so does a bind into a context that has been recycled for the old session, and a
number that the old session has given back may be another connection's by then. When the old session is
a connection with another context that still holds the descriptor as the close is queued, nothing else is
hit: a functor that adds a connection under the same number is queued later.

* `KicksHeld`: the condition on a step;
* `Aimed`, **`kick_closes_replaced`**.
-/

namespace AuraChat

open Interleave

variable {P : Params} {db : Store} {s s' : State} {l : Label}

instance (d : Conn) : Decidable d.Holds := by unfold Conn.Holds; infer_instance

/-- The close that a step queues for a bind: the packet, the session found, and the descriptor. -/
def State.kicks (s : State) (l : Label) : Option (Origin × Session × Int) :=
  match s.next l with
  | some (o, .queueCloseConnection old fd) => some (o, old, fd)
  | _ => none

/-- A step that queues the close of a session does so while the session is a connection that holds the
descriptor, with another context than the one that is bound, or for no descriptor at all. -/
def KicksHeld (l : Label) (s : State) : Prop :=
  ∀ k ∈ s.kicks l, k.2.2 < 0 ∨
    ∃ d ∈ s.net.conns k.2.1.conn, d.Holds ∧ d.fd = k.2.2 ∧ d.ctx ≠ k.1.ctx

instance (l : Label) (s : State) : Decidable (KicksHeld l s) := by
  unfold KicksHeld; infer_instance

/-- The bind that queued the kick has found its victim bound. -/
def Replaced (log : List Entry) (k : Kick) : Prop :=
  ∃ uid x, .did k.origin ⟨.bindEnter uid k.origin.ctx, some ⟨x, k.victim⟩⟩ ∈ log

/-- The victim of a kick is not the connection that has sent the packet, nor one that has its context. -/
def Spared (n : Net) (k : Kick) : Prop :=
  k.victim ≠ k.origin.conn ∧ ∃ d, n.conns k.victim = some d ∧ d.ctx ≠ k.origin.ctx

theorem spared_move (hwf : s.net.WF P) (h : Move P s l s') {k : Kick} (hk : Spared s.net k) :
    Spared s'.net k := by
  obtain ⟨hne, d, hd, hx⟩ := hk
  obtain ⟨ph, hd'⟩ := move_conn hwf h hd
  exact ⟨hne, _, hd', hx⟩

/-- **A queued kick is aimed at its victim**: no other connection has the descriptor on the worker,
and none will get it before the kick has run. -/
structure Aimed (s : State) (w : ℕ) (f : Functor) (fd : Int) (k : Kick) : Prop where
  found : ∀ c, (s.net.workers w).connections fd = some c → c = k.victim
  first : ∀ g ∈ (s.net.workers w).queue, g.job = .add fd → f.num < g.num
  spared : 0 ≤ fd → Spared s.net k
  replaced : Replaced s.log k

theorem aimed_kept (hwf : s.net.WF P) (h : Move P s l s') {w : ℕ} {f : Functor} {fd : Int} {k : Kick}
    (hf : f ∈ (s.net.workers w).queue) (hf' : f ∈ (s'.net.workers w).queue)
    (ha : Aimed s w f fd k) : Aimed s' w f fd k := by
  obtain ⟨uid, x, hrep⟩ := ha.replaced
  refine ⟨fun c hc => ?_, fun g hg hjob => ?_, fun h0 => spared_move hwf h (ha.spared h0), uid,
    x, move_log h hrep⟩
  · obtain ⟨d, hd, rfl, rfl, hp⟩ := (wf_move hwf h).conn_of_connections hc
    rcases opened_back h hd hp with hd | ⟨-, num, rest, hq, hq'⟩
    · exact ha.found c ((hwf.connections _ _ c).mpr ⟨d, hd, rfl, rfl, hp⟩)
    · -- the functor that adds the connection is ahead of the kick
      have hadd := ha.first ⟨num, .add d.fd⟩ (by simp [Worker.queue, hq]) rfl
      have hsorted := hwf.num_sorted d.worker
      rw [Worker.queue, hq, List.cons_append, List.pairwise_cons] at hsorted
      have hlt := hsorted.1 f (hq' ▸ hf')
      exact absurd hlt (Nat.lt_asymm hadd)
  · rcases move_queue h hg with hg | ⟨hnum, -⟩
    · exact ha.first g hg hjob
    · rw [hnum]
      exact hwf.num_lt w f hf

theorem thread_conns {i : ℕ} {e : Ext} (h : Move P s (.thread i e) s') :
    s'.net.conns = s.net.conns := by
  cases h with
  | finish => rfl
  | call i e t a k r s₁ hi hp ha => exact (effect_threads (act_effect ha)).2.2

theorem aimed_new (hwf : s.net.WF P) (ht : Traced P s) (hC : KicksHeld l s) (h : Move P s l s')
    {w : ℕ} {f : Functor} {o : Origin} {old : Session} {fd : Int}
    (hn : s.next l = some (o, .queueCloseConnection old fd)) :
    Aimed s' w f fd ⟨o, old.conn⟩ := by
  obtain ⟨i, e, t, rfl, hi, rfl, uid, hg⟩ := ht.next_guard hn
  have hwf' := wf_move hwf h
  have hrep : Replaced s'.log ⟨t.task.origin, old.conn⟩ :=
    ⟨uid, old.ctx, move_log h (ht.hist i t hi _ hg)⟩
  rcases hC (t.task.origin, old, fd) (by simp [State.kicks, hn]) with hneg | ⟨d, hd, hh, hfd, hx⟩
  · have hneg : fd < 0 := hneg
    refine ⟨fun c hc => ?_, fun g hg hjob => ?_, fun h0 => absurd hneg (by omega), hrep⟩
    · obtain ⟨d, hd, -, rfl, -⟩ := hwf'.conn_of_connections hc
      exact absurd (hwf'.fd_nonneg c d hd) (by omega)
    · exact absurd (hwf'.add_fresh w g hg fd hjob).1 (by omega)
  · -- the victim still holds the descriptor
    have hd' : s'.net.conns old.conn = some d := by rw [thread_conns h]; exact hd
    have hne : old.conn ≠ t.task.origin.conn := by
      intro e
      obtain ⟨d', hd', hx'⟩ := ht.conn_of_received (ht.thread i t hi).received
      obtain rfl : d = d' := Option.some.inj ((e ▸ hd).symm.trans hd')
      exact hx hx'
    refine ⟨fun c hc => ?_, fun g hg hjob => ?_, fun _ => ⟨hne, d, hd', hx⟩, hrep⟩
    · obtain ⟨d', hc', -, hfd', hp'⟩ := hwf'.conn_of_connections hc
      exact hwf'.fd_inj c d' old.conn d hc' hd' (Conn.holds_of_opened hp') hh (hfd'.trans hfd.symm)
    · exact absurd hfd ((hwf'.add_fresh w g hg fd hjob).2.2 old.conn d hd' hh)

/-- The kicks are aimed, and those that have run have hit their victims. -/
structure KicksAimed (s : State) : Prop where
  queued : ∀ w, ∀ f ∈ (s.net.workers w).queue, ∀ fd k, f.job = .close fd (some k) → Aimed s w f fd k
  done : ∀ c k, .left c (some k) ∈ s.log → c = k.victim ∧ Spared s.net k ∧ Replaced s.log k

theorem kicksAimed_init : KicksAimed (State.init P db) where
  queued w f hf := by simp [State.init] at hf
  done _ _ h := by cases h

theorem kicksAimed_move (hwf : s.net.WF P) (ht : Traced P s) (hk : KicksAimed s) (hC : KicksHeld l s)
    (h : Move P s l s') : KicksAimed s' := by
  refine ⟨fun w f hf fd k hjob => ?_, fun c k hl => ?_⟩
  · rcases move_queue h hf with hf₀ | ⟨-, hnew⟩
    · exact aimed_kept hwf h hf₀ hf (hk.queued w f hf₀ fd k hjob)
    · rw [hjob] at hnew
      cases hnew with
      | kick o old _ hn hw => exact aimed_new hwf ht hC h hn
  · rcases move_left h hl with hl | ⟨d, num, rest, hd, hp, hq⟩
    · obtain ⟨h1, h2, uid, x, h3⟩ := hk.done c k hl
      exact ⟨h1, spared_move hwf h h2, uid, x, move_log h h3⟩
    · have ha := hk.queued d.worker ⟨num, .close d.fd (some k)⟩ (by simp [Worker.queue, hq]) d.fd k rfl
      obtain rfl := ha.found c ((hwf.connections _ _ c).mpr ⟨d, hd, rfl, rfl, hp⟩)
      obtain ⟨uid, x, hrep⟩ := ha.replaced
      exact ⟨rfl, spared_move hwf h (ha.spared (hwf.fd_nonneg _ d hd)), uid, x, move_log h hrep⟩

/-- **A kick closes only the replaced session.** In a run in which each kick is queued while the
session it is meant for still holds the descriptor and has another context than the one that is bound, the
connection that a kick closes is the one that the bind has found under the uid. It is not the connection
that has sent the packet, nor the one that has the bound context. -/
theorem kick_closes_replaced (h : RunTo P db KicksHeld s) (c : ℕ) (k : Kick)
    (hl : .left c (some k) ∈ s.log) :
    c ≠ k.origin.conn ∧ (∀ d, s.net.conns c = some d → d.ctx ≠ k.origin.ctx) ∧
      ∃ uid x, .did k.origin ⟨.bindEnter uid k.origin.ctx, some ⟨x, c⟩⟩ ∈ s.log := by
  have hk : KicksAimed s := run_invariant h KicksAimed kicksAimed_init
    fun _ _ _ hr hwf hC hk hm => kicksAimed_move hwf (traced_of_run hr) hk hC hm
  obtain ⟨rfl, ⟨hne, d, hd, hx⟩, hrep⟩ := hk.done c k hl
  refine ⟨hne, fun d' hd' => ?_, hrep⟩
  obtain rfl := Option.some.inj (hd.symm.trans hd')
  exact hx

/-- The connections that kicks have closed. -/
def kicked (log : List Entry) : List (ℕ × Kick) :=
  log.filterMap fun e => match e with
    | .left c (some k) => some (c, k)
    | _ => none

theorem mem_of_kicked {log : List Entry} {c : ℕ} {k : Kick} (h : (c, k) ∈ kicked log) :
    .left c (some k) ∈ log := by
  obtain ⟨e, he, heq⟩ := List.mem_filterMap.mp h
  split at heq
  · simp only [Option.some.injEq, Prod.mk.injEq] at heq
    obtain ⟨rfl, rfl⟩ := heq
    exact he
  · cases heq

/-- User `a` logs in on a second connection, and the first one is closed. -/
theorem kick_closes_replaced_sample : ∃ s, RunTo Sample.params Sample.db KicksHeld s ∧
    ∃ k, .left 0 (some k) ∈ s.log ∧ 0 ≠ k.origin.conn ∧
      (∀ d, s.net.conns 0 = some d → d.ctx ≠ k.origin.ctx) ∧ ∃ uid x, .did k.origin ⟨.bindEnter uid k.origin.ctx, some ⟨x, 0⟩⟩ ∈ s.log := by
  obtain ⟨s, hr, ⟨c, k⟩, hm, hc⟩ := Sample.exists_run KicksHeld
    (Sample.connect 5 ++ Sample.connect 6 ++
      [Sample.packet 0 .login Sample.loginA, Sample.packet 1 .login Sample.loginA] ++
      Sample.work 0 3 ++ Sample.work 1 6 ++ [.swap 0, .functor 0])
    (fun s => ∃ a ∈ kicked s.log, a.1 = 0) (by decide)
  obtain rfl : c = 0 := hc
  exact ⟨s, hr, k, mem_of_kicked hm, kick_closes_replaced hr 0 k (mem_of_kicked hm)⟩

/-- User `a` logs in twice on one connection: the second bind closes the connection itself. -/
theorem kick_hits_itself : ∃ s, RunTo Sample.params Sample.db (fun _ _ => True) s ∧
    ∃ k, .left 0 (some k) ∈ s.log ∧ k.origin.conn = 0 := by
  obtain ⟨s, hr, ⟨c, k⟩, hm, hc, hk⟩ := Sample.exists_run (fun _ _ => True)
    (Sample.connect 5 ++
      [Sample.packet 0 .login Sample.loginA, Sample.packet 0 .login Sample.loginA] ++
      Sample.work 0 3 ++ Sample.work 1 6 ++ [.swap 0, .functor 0])
    (fun s => ∃ a ∈ kicked s.log, a.1 = 0 ∧ a.2.origin.conn = 0) (by decide)
  obtain rfl : c = 0 := hc
  exact ⟨s, hr, k, mem_of_kicked hm, hk⟩

end AuraChat
