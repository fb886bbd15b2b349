import AuraChat.Model.Sample
import AuraChat.Server.Identity

set_option autoImplicit false

/-!
# Authentication

A context with a uid should belong to a connection on which that user has logged in. It need not:
a pool task keeps its context across the close of its connection, `ContextPool::release` hands the
context to the next connection, and the `bind` of the old task then logs that one in
(`stranger_logged_in`). This is the only way: when the connection of every packet that binds has not
been closed and released, or its context is not one of a pool, the uids are authentic.

* `Authenticated`: a packet on the connection was verified, or registered, as the user;
* `BindsLive`: the condition on a step;
* `Authentic`, **`uid_authenticated`**.
-/

namespace AuraChat

open Interleave

variable {P : Params} {db : Store} {s s' : State} {l : Label}

/-- A `LOGIN` received on connection `c` was verified by the store as user `u`, or a `REGISTER` made
the user `u`. -/
def Authenticated (P : Params) (log : List Entry) (c : ℕ) (u : Int) : Prop :=
  ∃ o hdr body, o.conn = c ∧ .received o hdr body ∈ log ∧
    ((hdr.cmd = CmdType.login.code ∧ ∃ req, P.codec.parseLoginRequest body = some req ∧
        .did o ⟨.verifyLogin req.username req.password, .ok u⟩ ∈ log) ∨
      (hdr.cmd = CmdType.register.code ∧ ∃ req, P.codec.parseRegisterRequest body = some req ∧
        .did o ⟨.registerUser req.username req.password, .ok u⟩ ∈ log))

/-- A step that binds does so for a packet whose connection has not been closed to the end, or into
a context that no pool hands out again. -/
def BindsLive (P : Params) (l : Label) (s : State) : Prop :=
  ∀ b ∈ s.binds l, P.pooled b.2.2 → ∃ d ∈ s.net.conns b.1.conn, d.Live

instance (d : Conn) : Decidable d.Live := by unfold Conn.Live; infer_instance

instance (P : Params) (l : Label) (s : State) : Decidable (BindsLive P l s) := by
  unfold BindsLive; infer_instance

theorem Authenticated.mono {log log' : List Entry} {c : ℕ} {u : Int}
    (h : Authenticated P log c u) (hlog : log ⊆ log') : Authenticated P log' c u := by
  obtain ⟨o, hdr, body, hc, hr, h⟩ := h
  refine ⟨o, hdr, body, hc, hlog hr, ?_⟩
  rcases h with ⟨hcmd, req, hreq, hd⟩ | ⟨hcmd, req, hreq, hd⟩
  · exact .inl ⟨hcmd, req, hreq, hlog hd⟩
  · exact .inr ⟨hcmd, req, hreq, hlog hd⟩

theorem authenticated_of_binds (ht : Traced P s) {o : Origin} {uid : Int} {x : ℕ}
    (hb : s.binds l = some (o, uid, x)) : Authenticated P s.log o.conn uid := by
  obtain ⟨-, hdr, body, hr, h⟩ := ht.binds_received hb
  exact ⟨o, hdr, body, rfl, hr, h⟩

/-- **The uids are authentic**: those of the contexts in use, and the contexts in the pools have
none. A context outside the pools is never used again. -/
structure Authentic (P : Params) (s : State) : Prop where
  live : ∀ c d, s.net.conns c = some d → d.Live → 0 < (s.net.ctxs d.ctx).uid →
    Authenticated P s.log c (s.net.ctxs d.ctx).uid
  free : ∀ w, ∀ idx ∈ (s.net.workers w).freeList, (s.net.ctxs (P.storage w idx)).uid = 0
  once : ∀ c d c' d', s.net.conns c = some d → s.net.conns c' = some d' → ¬ P.pooled d.ctx →
    d.ctx = d'.ctx → c = c'

theorem authentic_init : Authentic P (State.init P db) where
  live _ _ h := by cases h
  free w idx _ := by
    simp only [State.init, Net.init]
    split_ifs <;> rfl
  once _ _ _ _ h := by cases h

theorem bound_conn (hwf : s.net.WF P) (ht : Traced P s) (ha : Authentic P s) (hl : BindsLive P l s)
    {o : Origin} {uid : Int} {x : ℕ} (hb : s.binds l = some (o, uid, x)) {c : ℕ} {d : Conn}
    (hd : s.net.conns c = some d) (hdl : d.Live) (hx : d.ctx = x) : c = o.conn := by
  obtain ⟨-, d₀, hd₀, hx₀⟩ := ht.binds_conn hb
  by_cases hp : P.pooled x
  · obtain ⟨d₁, hd₁, hl₁⟩ := hl _ hb hp
    obtain rfl : d₀ = d₁ := Option.some.inj (hd₀.symm.trans hd₁)
    exact hwf.ctx_inj c d o.conn d₀ hd hd₀ hdl hl₁ (hx.trans hx₀.symm)
  · exact ha.once c d o.conn d₀ hd hd₀ (hx ▸ hp) (hx.trans hx₀.symm)

theorem authentic_bind (hwf : s.net.WF P) (ht : Traced P s) (ha : Authentic P s)
    (hl : BindsLive P l s) (h : Move P s l s') {o : Origin} {uid : Int} {x : ℕ}
    (hb : s.binds l = some (o, uid, x)) (hc : s'.net.conns = s.net.conns)
    (hu : ∀ y, (s'.net.ctxs y).uid = if y = x then uid else (s.net.ctxs y).uid)
    (hf : ∀ w, (s'.net.workers w).freeList = (s.net.workers w).freeList) : Authentic P s' := by
  refine ⟨fun c d hd hdl hpos => ?_, fun w idx hi => ?_, ?_⟩
  · rw [hc] at hd
    rw [hu] at hpos ⊢
    split_ifs at hpos ⊢ with e
    · rw [bound_conn hwf ht ha hl hb hd hdl e]
      exact (authenticated_of_binds ht hb).mono (move_log h)
    · exact (ha.live c d hd hdl hpos).mono (move_log h)
  · rw [hf] at hi
    obtain ⟨hw, hidx, hno⟩ := hwf.free w idx hi
    -- a context in the free list is not that of a live connection
    have hne : P.storage w idx ≠ x := by
      rintro rfl
      obtain ⟨-, d₀, hd₀, hx₀⟩ := ht.binds_conn hb
      obtain ⟨d₁, hd₁, hl₁⟩ := hl _ hb (Net.WF.storage_pooled hw hidx)
      obtain rfl : d₀ = d₁ := Option.some.inj (hd₀.symm.trans hd₁)
      exact hno o.conn d₀ hd₀ hl₁ hx₀
    rw [hu, if_neg hne]
    exact ha.free w idx hi
  · rw [hc]
    exact ha.once

theorem authentic_phase (ha : Authentic P s) (hlog : s.log ⊆ s'.log) {c : ℕ} {d : Conn} {ph : Phase}
    (hd : s.net.conns c = some d) (hlive : d.Live)
    (hc : s'.net.conns = Function.update s.net.conns c (some { d with phase := ph }))
    (hu : ∀ c' d', s'.net.conns c' = some d' → d'.Live →
      (s'.net.ctxs d'.ctx).uid = (s.net.ctxs d'.ctx).uid)
    (hf : ∀ w, ∀ idx ∈ (s'.net.workers w).freeList, (s'.net.ctxs (P.storage w idx)).uid = 0) :
    Authentic P s' := by
  refine ⟨fun c' e he hel hpos => ?_, hf, fun c₁ e₁ c₂ e₂ he₁ he₂ hp hx => ?_⟩
  · rw [hu c' e he hel] at hpos ⊢
    rw [hc] at he
    obtain ⟨d', hd', he', h1, h2⟩ := update_phase_cases hd he
    have hl' : d'.Live := by
      by_cases hcc : c' = c
      · rw [(h1 hcc).1]; exact hlive
      · rw [← h2 hcc]; exact hel
    rw [he'] at hpos ⊢
    exact (ha.live c' d' hd' hl' hpos).mono hlog
  · rw [hc] at he₁ he₂
    obtain ⟨d₁, hd₁, k₁, -⟩ := update_phase_cases hd he₁
    obtain ⟨d₂, hd₂, k₂, -⟩ := update_phase_cases hd he₂
    rw [k₁] at hp hx
    rw [k₂] at hx
    exact ha.once c₁ d₁ c₂ d₂ hd₁ hd₂ hp hx

theorem authentic_move (hwf : s.net.WF P) (ht : Traced P s) (ha : Authentic P s)
    (hl : BindsLive P l s) (h : Move P s l s') : Authentic P s' := by
  have hlog := move_log h
  cases change_of_move hwf h with
  | same hc hu hs hf =>
      refine ⟨fun c d hd hdl hpos => ?_, fun w idx hi => ?_, ?_⟩
      · rw [hc] at hd
        rw [hu] at hpos ⊢
        exact (ha.live c d hd hdl hpos).mono hlog
      · rw [hf] at hi
        rw [hu]
        exact ha.free w idx hi
      · rw [hc]
        exact ha.once
  | bind o uid x hb hc hu hs hf => exact authentic_bind hwf ht ha hl h hb hc hu hf
  | opens w fd x hc hx hnew hu hux hs hf =>
      have back : ∀ {c d}, s'.net.conns c = some d →
          (c = s.net.nextConn ∧ d.ctx = x) ∨ (c ≠ s.net.nextConn ∧ s.net.conns c = some d) := by
        intro c d hd
        rw [hc, Function.update_apply] at hd
        split_ifs at hd with e
        · obtain rfl := Option.some.inj hd
          exact .inl ⟨e, rfl⟩
        · exact .inr ⟨e, hd⟩
      refine ⟨fun c d hd hdl hpos => ?_, fun w' idx hi => ?_, fun c₁ d₁ c₂ d₂ hd₁ hd₂ hp he => ?_⟩
      · rcases back hd with ⟨-, e⟩ | ⟨-, hd⟩
        · -- a context from the pool has no uid
          rcases hux with h0 | ⟨h1, idx, hi, rfl⟩
          · rw [e, h0] at hpos
            exact absurd hpos (by decide)
          · rw [e, h1, ha.free w idx hi] at hpos
            exact absurd hpos (by decide)
        · rw [hu _ (hx c d hd hdl)] at hpos ⊢
          exact (ha.live c d hd hdl hpos).mono hlog
      · rw [hu _ ((hf w').2 idx hi)]
        exact ha.free w' idx ((hf w').1 hi)
      · rcases back hd₁ with ⟨e₁, x₁⟩ | ⟨e₁, k₁⟩ <;> rcases back hd₂ with ⟨e₂, x₂⟩ | ⟨e₂, k₂⟩
        · rw [e₁, e₂]
        · rw [x₁] at hp he
          exact absurd (hnew c₂ d₂ k₂ he.symm) hp
        · rw [he, x₂] at hp
          exact absurd (hnew c₁ d₁ k₁ (he.trans x₂)) hp
        · exact ha.once c₁ d₁ c₂ d₂ k₁ k₂ hp he
  | goes c d ph hd he hc hu hs hf =>
      refine authentic_phase ha hlog hd he.live.1 hc (fun _ _ _ _ => hu _) fun w idx hi => ?_
      rw [hf] at hi
      rw [hu]
      exact ha.free w idx hi
  | unbind c d v hl hd hp hc hu hs hf =>
      refine authentic_phase ha hlog hd (by simp [Conn.Live, hp]) hc (fun _ _ _ _ => hu _)
        fun w idx hi => ?_
      rw [hf] at hi
      rw [hu]
      exact ha.free w idx hi
  | release c d hd hp hc hu hs hf =>
      refine authentic_phase ha hlog hd (by simp [Conn.Live, hp]) hc (fun c' e he hel => ?_)
        fun w idx hi => ?_
      · -- the context of another live connection is not the one released
        rw [hu, if_neg]
        rintro ⟨hx, -⟩
        rw [hc] at he
        obtain ⟨d', hd', -, h1, h2⟩ := update_phase_cases hd he
        by_cases hcc : c' = c
        · exact hel (h1 hcc).2
        · rw [h2 hcc] at hx hel
          exact hcc (hwf.ctx_inj c' d' c d hd' hd hel (by simp [Conn.Live, hp]) hx)
      · rw [hu]
        split_ifs with hx
        · rfl
        · rcases hf w idx hi with hi | hi
          · exact ha.free w idx hi
          · exact absurd hi hx

theorem authentic_of_run {C : Label → State → Prop} (h : RunTo P db C s)
    (hC : ∀ l s, C l s → BindsLive P l s) : Authentic P s :=
  run_invariant h (Authentic P) authentic_init
    fun _ _ _ hr hwf hc ha hm => authentic_move hwf (traced_of_run hr) ha (hC _ _ hc) hm

/-- **Authentication.** In a run in which no bind is made into a recycled context, the context of an
open connection has the uid of a user who was verified, or registered, on that connection. -/
theorem uid_authenticated (h : RunTo P db (BindsLive P) s) (c : ℕ) (d : Conn)
    (hd : s.net.conns c = some d) (ho : d.phase = .opened) (hu : 0 < (s.net.ctxs d.ctx).uid) :
    Authenticated P s.log c (s.net.ctxs d.ctx).uid :=
  (authentic_of_run h fun _ _ hl => hl).live c d hd (Conn.holds_of_opened ho).live hu

/-- User `a` logs in on a connection and stays. -/
theorem uid_authenticated_sample : ∃ s, RunTo Sample.params Sample.db (BindsLive Sample.params) s ∧
    ∃ d, s.net.conns 0 = some d ∧ d.phase = .opened ∧ (s.net.ctxs d.ctx).uid = 1000 ∧
      Authenticated Sample.params s.log 0 1000 := by
  obtain ⟨s, hr, d, hd, ho, hu⟩ := Sample.exists_run (BindsLive Sample.params)
    (Sample.connect 5 ++ [Sample.packet 0 .login Sample.loginA] ++ Sample.work 0 3)
    (fun s => ∃ d ∈ s.net.conns 0, d.phase = .opened ∧ (s.net.ctxs d.ctx).uid = 1000) (by decide)
  have ha := uid_authenticated hr 0 d hd ho (by rw [hu]; decide)
  rw [hu] at ha
  exact ⟨s, hr, d, hd, ho, hu, ha⟩

/-- The packets that a connection has received. -/
def receivedOn (c : ℕ) (log : List Entry) : List Origin :=
  log.filterMap fun e => match e with
    | .received o _ _ => if o.conn = c then some o else none
    | _ => none

theorem Authenticated.receivedOn {log : List Entry} {c : ℕ} {u : Int}
    (h : Authenticated P log c u) : receivedOn c log ≠ [] := by
  obtain ⟨o, hdr, body, rfl, hr, -⟩ := h
  exact List.ne_nil_of_mem (List.mem_filterMap.mpr ⟨_, hr, if_pos rfl⟩)

/-- User `a` sends a `LOGIN` and hangs up after the password has been verified. The next connection
gets the context, and is user `a` without having sent a packet. -/
theorem stranger_logged_in : ∃ s, RunTo Sample.params Sample.db (fun _ _ => True) s ∧
    ∃ d, s.net.conns 1 = some d ∧ d.phase = .opened ∧ (s.net.ctxs d.ctx).uid = 1000 ∧
      ¬ Authenticated Sample.params s.log 1 (s.net.ctxs d.ctx).uid := by
  obtain ⟨s, hr, ⟨d, hd, ho, hu⟩, hn⟩ := Sample.exists_run (fun _ _ => True)
    (Sample.connect 5 ++ [Sample.packet 0 .login Sample.loginA] ++ Sample.work 0 2 ++
      Sample.disconnect 0 false ++ Sample.connect 5 ++ [.thread 0 {}])
    (fun s => (∃ d ∈ s.net.conns 1, d.phase = .opened ∧ (s.net.ctxs d.ctx).uid = 1000) ∧
      receivedOn 1 s.log = []) (by decide)
  exact ⟨s, hr, d, hd, ho, hu, fun h => h.receivedOn hn⟩

end AuraChat
