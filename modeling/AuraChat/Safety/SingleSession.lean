import Mathlib.Data.Fintype.Basic
import AuraChat.Safety.Sessions

set_option autoImplicit false

/-!
# One session per user

Once the closes that binds have queued have run, a user should be logged in on at most one open
connection. `bind` queues the close of the session that it has found in the map, and stores its own
in a later critical section: two binds can find the same old entry, and then neither closes the
other's connection (`two_sessions`). When every other open connection of the user is already queued
for its close at the time of the store, there is one session.

* `Job.closes`, `OthersKicked`: the condition on a step;
* `Outgoing`, **`single_session`**.
-/

namespace AuraChat

open Interleave

variable {P : Params} {db : Store} {s s' : State} {l : Label}

/-- The functor closes the connection with this descriptor. -/
def Job.closes (fd : Int) : Job → Bool
  | .close fd' _ => fd' == fd
  | .add _ | .send _ => false

/-- The close of a connection is queued on its worker. -/
def Net.Kicked (n : Net) (d : Conn) : Prop :=
  ∃ f ∈ (n.workers d.worker).queue, f.job.closes d.fd = true

instance (n : Net) (d : Conn) : Decidable (n.Kicked d) := by unfold Net.Kicked; infer_instance

/-- A step that binds a user does not do so into a recycled context, and the close of every other
open connection with the user's uid is already queued. -/
def OthersKicked (P : Params) (l : Label) (s : State) : Prop :=
  BindsLive P l s ∧
  ∀ b ∈ s.binds l, 0 < b.2.1 → ∀ c < s.net.nextConn, ∀ d ∈ s.net.conns c, d.phase = .opened →
    d.ctx ≠ b.2.2 → (s.net.ctxs d.ctx).uid = b.2.1 → s.net.Kicked d

instance (P : Params) (l : Label) (s : State) : Decidable (OthersKicked P l s) := by
  unfold OthersKicked; infer_instance

/-- **Of two open connections of a user, one is about to be closed.** -/
def Outgoing (s : State) : Prop :=
  ∀ c₁ d₁ c₂ d₂, s.net.conns c₁ = some d₁ → s.net.conns c₂ = some d₂ → d₁.phase = .opened →
    d₂.phase = .opened → 0 < (s.net.ctxs d₁.ctx).uid →
    (s.net.ctxs d₁.ctx).uid = (s.net.ctxs d₂.ctx).uid → c₁ ≠ c₂ →
    s.net.Kicked d₁ ∨ s.net.Kicked d₂

theorem opened_uid_back (hwf : s.net.WF P) (ha : Authentic P s) (h : Move P s l s') {c : ℕ} {d : Conn}
    (hd : s'.net.conns c = some d) (hp : d.phase = .opened) (hu : 0 < (s'.net.ctxs d.ctx).uid) :
    s.net.conns c = some d ∧ ((s'.net.ctxs d.ctx).uid = (s.net.ctxs d.ctx).uid ∨
      ∃ o, s.binds l = some (o, (s'.net.ctxs d.ctx).uid, d.ctx)) := by
  have hr : d.phase.unbinds (s'.net.ctxs d.ctx).uid = some (s'.net.ctxs d.ctx).uid := by
    rw [hp, Phase.unbinds, if_pos hu]
  rcases remains_back remains_unbinds hwf ha h hd hr with ⟨d₀, hd₀, hx, hr₀⟩ | ⟨o, hb, hd₀, -⟩
  · rcases opened_back h hd hp with hd | ⟨rfl, -⟩
    · obtain rfl := Option.some.inj (hd₀.symm.trans hd)
      rw [hp, Phase.unbinds, Option.ite_none_right_eq_some, Option.some.injEq] at hr₀
      exact ⟨hd, .inl hr₀.2.symm⟩
    · exact absurd (hwf.conn_lt _ _ hd₀) (Nat.lt_irrefl _)
  · exact ⟨hd₀, .inr ⟨o, hb⟩⟩

/-- A connection that is queued for its close stays so while it is open. -/
theorem kicked_kept (hwf : s.net.WF P) (h : Move P s l s') {c : ℕ} {d : Conn}
    (hd : s.net.conns c = some d) (hp : d.phase = .opened) (hd' : s'.net.conns c = some d)
    (hk : s.net.Kicked d) : s'.net.Kicked d := by
  obtain ⟨f, hf, hcl⟩ := hk
  rcases move_queue_kept h hf with hf | ⟨rfl, hb, rest, hq⟩
  · exact ⟨f, hf, hcl⟩
  -- the functor runs, and finds the connection
  have hcon := (hwf.connections d.worker d.fd c).mpr ⟨d, hd, rfl, rfl, hp⟩
  rcases move_functor h rfl hq with ⟨fd, hj⟩ | ⟨fr, c', d', hj, -⟩ | ⟨fr, hj, -⟩ |
    ⟨fd, kick, hj, hnone⟩ | ⟨kick, c', d', hj, hc', hp', hw, hnew⟩
  all_goals
    rw [hj] at hcl
    simp only [Job.closes, Bool.false_eq_true, beq_iff_eq] at hcl
  · rw [hcl, hcon] at hnone
    cases hnone
  · have hcc := (hwf.connections d.worker d.fd c').mpr ⟨d', hc', hw, hcl, hp'⟩
    obtain rfl : c = c' := Option.some.inj (hcon.symm.trans hcc)
    rw [hd'] at hnew
    obtain rfl := Option.some.inj hnew
    cases hp

theorem outgoing_move (hwf : s.net.WF P) (ha : Authentic P s) (ho : Outgoing s)
    (hC : OthersKicked P l s) (h : Move P s l s') : Outgoing s' := by
  intro c₁ d₁ c₂ d₂ hd₁ hd₂ hp₁ hp₂ hu he hne
  obtain ⟨k₁, u₁⟩ := opened_uid_back hwf ha h hd₁ hp₁ hu
  obtain ⟨k₂, u₂⟩ := opened_uid_back hwf ha h hd₂ hp₂ (he ▸ hu)
  have hx : d₁.ctx ≠ d₂.ctx := fun hx => hne (hwf.ctx_inj c₁ d₁ c₂ d₂ k₁ k₂
    (Conn.holds_of_opened hp₁).live (Conn.holds_of_opened hp₂).live hx)
  rcases u₁ with u₁ | ⟨o₁, hb₁⟩ <;> rcases u₂ with u₂ | ⟨o₂, hb₂⟩
  · -- both had the uid before
    rcases ho c₁ d₁ c₂ d₂ k₁ k₂ hp₁ hp₂ (u₁ ▸ hu) (by rw [← u₁, ← u₂, he]) hne with hk | hk
    · exact .inl (kicked_kept hwf h k₁ hp₁ hd₁ hk)
    · exact .inr (kicked_kept hwf h k₂ hp₂ hd₂ hk)
  · refine .inl (kicked_kept hwf h k₁ hp₁ hd₁ ?_)
    exact hC.2 _ hb₂ (he ▸ hu) c₁ (hwf.conn_lt c₁ d₁ k₁) d₁ k₁ hp₁ hx (by rw [← u₁, he])
  · refine .inr (kicked_kept hwf h k₂ hp₂ hd₂ ?_)
    exact hC.2 _ hb₁ hu c₂ (hwf.conn_lt c₂ d₂ k₂) d₂ k₂ hp₂ hx.symm (by rw [← u₂, he])
  · -- a step binds one context only
    rw [hb₁, Option.some.injEq, Prod.mk.injEq, Prod.mk.injEq] at hb₂
    exact absurd hb₂.2.2 hx

/-- **One session per user.** In a run in which a user is bound only when the close of each other open
connection of the user is already queued, at most one open connection has the uid once no close is
queued. -/
theorem single_session (h : RunTo P db (OthersKicked P) s)
    (hq : ∀ w, ∀ f ∈ (s.net.workers w).queue, ∀ fd, f.job.closes fd = false) (uid : Int)
    (h0 : 0 < uid) (c₁ : ℕ) (d₁ : Conn) (c₂ : ℕ) (d₂ : Conn) (hd₁ : s.net.conns c₁ = some d₁)
    (hd₂ : s.net.conns c₂ = some d₂) (hp₁ : d₁.phase = .opened) (hp₂ : d₂.phase = .opened)
    (hu₁ : (s.net.ctxs d₁.ctx).uid = uid) (hu₂ : (s.net.ctxs d₂.ctx).uid = uid) : c₁ = c₂ := by
  have ho : Outgoing s := run_invariant h Outgoing (fun _ _ _ _ h => by cases h)
    fun _ _ _ hr hwf hC ho hm =>
      outgoing_move hwf (authentic_of_run hr fun _ _ hC => hC.1) ho hC hm
  by_contra hne
  rcases ho c₁ d₁ c₂ d₂ hd₁ hd₂ hp₁ hp₂ (hu₁ ▸ h0) (hu₁.trans hu₂.symm) hne with hk | hk
  · obtain ⟨f, hf, hcl⟩ := hk
    rw [hq _ f hf] at hcl
    cases hcl
  · obtain ⟨f, hf, hcl⟩ := hk
    rw [hq _ f hf] at hcl
    cases hcl

/-- User `a` logs in on two connections, one after the other, and the close of the first runs. -/
theorem single_session_sample : ∃ s, RunTo Sample.params Sample.db (OthersKicked Sample.params) s ∧
    ∃ d, s.net.conns 1 = some d ∧ d.phase = .opened ∧ (s.net.ctxs d.ctx).uid = 1000 ∧
      ∀ c₂ d₂, s.net.conns c₂ = some d₂ → d₂.phase = .opened → (s.net.ctxs d₂.ctx).uid = 1000 →
        1 = c₂ := by
  obtain ⟨s, hr, hq, d, hd, hp, hu⟩ := Sample.exists_run (OthersKicked Sample.params)
    (Sample.connect 5 ++ Sample.connect 6 ++
      [Sample.packet 0 .login Sample.loginA, Sample.packet 1 .login Sample.loginA] ++
      Sample.work 0 3 ++ Sample.work 1 7 ++
      [.swap 0, .functor 0] ++ List.replicate 7 (.close 0))
    (fun s => (∀ w, (s.net.workers w).queue = []) ∧
      ∃ d ∈ s.net.conns 1, d.phase = .opened ∧ (s.net.ctxs d.ctx).uid = 1000)
    ⟨_, rfl, fun w => (by cases w <;> rfl), by decide⟩
  refine ⟨s, hr, d, hd, hp, hu, fun c₂ d₂ hd₂ hp₂ hu₂ => ?_⟩
  refine single_session hr (fun w f hf => ?_) 1000 (by decide) 1 d c₂ d₂ hd hd₂ hp hp₂ hu hu₂
  rw [hq] at hf
  cases hf

/-- User `a` is logged in on one connection, and logs in on two more at the same time: both binds
find the first session and queue its close, and both connections stay. Every thread is done and every
functor has run. -/
theorem two_sessions : ∃ s, RunTo Sample.params Sample.db (fun _ _ => True) s ∧
    (∀ i, s.threads i = none) ∧ (∀ w, (s.net.workers w).queue = []) ∧
    (∃ d, s.net.conns 1 = some d ∧ d.phase = .opened ∧ (s.net.ctxs d.ctx).uid = 1000) ∧
    ∃ d, s.net.conns 2 = some d ∧ d.phase = .opened ∧ (s.net.ctxs d.ctx).uid = 1000 := by
  refine Sample.exists_run (fun _ _ => True)
    (Sample.connect 5 ++ Sample.connect 6 ++ Sample.connect 7 ++
      [Sample.packet 0 .login Sample.loginA] ++ Sample.work 0 7 ++
      [Sample.packet 1 .login Sample.loginA, Sample.packet 2 .login Sample.loginA] ++
      Sample.work 0 3 ++ Sample.work 1 3 ++
      List.replicate 8 (.thread 0 {}) ++ List.replicate 8 (.thread 1 {}) ++
      [.swap 0, .functor 0, .functor 0] ++ List.replicate 7 (.close 0) ++
      List.replicate 3 (.functor 0))
    _ ⟨_, rfl, fun i => ?_, fun w => ?_, ⟨_, rfl, by decide⟩, ⟨_, rfl, by decide⟩⟩
  · rcases i with _ | _ | i <;> rfl
  · cases w <;> rfl

end AuraChat
