import AuraChat.Safety.Authentication

set_option autoImplicit false

/-!
# The session map

An entry of the session map should name a context that has the uid and belongs to a connection. It
need not: a second login on a connection leaves the entry of the first user behind
(`relogin_leaves_entry`), and a bind that comes after the `unbind` of its connection is never undone.
And a closing connection should take only its own registrations away, but `unbind` and
`cancel_request` go by the uid, so it takes those of the user's next session too
(`close_unbinds_other`).

* `Phase.unbinds`, `Phase.cancels`: whose session, and whose streams, the close of a connection is still
  going to remove;
* `BindsSound`, `Sound`, **`session_sound`**: when every bind is made for a connection whose close is going
  to undo it, and not over the session of another user, the map is sound;
* `Alone`, `Separate`, **`close_removes_own`**: when nothing else is registered for a user who is
  bound or whose stream starts, closing removes only its own entries, and a session stays until its
  own connection is closed or the user is bound again.
-/

namespace AuraChat

open Interleave

variable {P : Params} {db : Store} {s s' : State} {l : Label}

/-- The user whose session the close of a connection in this phase is going to remove, when its context
keeps this uid. -/
def Phase.unbinds (uid : Int) : Phase → Option Int
  | .opened | .check => if 0 < uid then some uid else none
  | .loadCancel | .cancel _ | .loadUnbind => some uid
  | .unbind v => some v
  | .closeFd | .release | .closed => none

/-- The user whose streams it is going to cancel. -/
def Phase.cancels (uid : Int) : Phase → Option Int
  | .opened | .check => if 0 < uid then some uid else none
  | .loadCancel => some uid
  | .cancel v => some v
  | .loadUnbind | .unbind _ | .closeFd | .release | .closed => none

/-- What is left to do for a user in the close of a connection: it is done for the uid of the context, or
for one that has been loaded. -/
structure Remains (F : Int → Phase → Option Int) : Prop where
  edge : ∀ {uid v : Int} {ph ph' : Phase}, Edge uid ph ph' → F uid ph' = some v → F uid ph = some v
  own : ∀ {uid v : Int} {ph : Phase}, F uid ph = some v → v = uid ∨ ∀ uid', F uid' ph = some v
  fresh : F 0 .opened = none
  closeFd : ∀ uid, F uid .closeFd = none
  release : ∀ uid, F uid .release = none
  closed : ∀ uid, F uid .closed = none

theorem Remains.live {F : Int → Phase → Option Int} (hF : Remains F) {uid v : Int} {d : Conn}
    (h : F uid d.phase = some v) : d.Live := by
  intro hp
  rw [hp, hF.closed] at h
  cases h

theorem Edge.unbinds_eq {uid : Int} {ph ph' : Phase} (h : Edge uid ph ph') :
    ph'.unbinds uid = ph.unbinds uid := by
  cases h with
  | enter h => simp [Phase.unbinds, h]
  | skip h => simp [Phase.unbinds, h]
  | _ => rfl

theorem remains_unbinds : Remains Phase.unbinds where
  edge he h := he.unbinds_eq ▸ h
  own {uid v ph} h := by
    cases ph with
    | unbind w => exact .inr fun _ => h
    | opened | check =>
        simp only [Phase.unbinds, Option.ite_none_right_eq_some] at h
        exact .inl (Option.some.inj h.2).symm
    | loadCancel | cancel | loadUnbind => exact .inl (Option.some.inj h).symm
    | closeFd | release | closed => cases h
  fresh := rfl
  closeFd _ := rfl
  release _ := rfl
  closed _ := rfl

theorem remains_cancels : Remains Phase.cancels where
  edge he h := by
    cases he with
    | enter h0 => simpa [Phase.cancels, h0] using h
    | leave | loadCancel => exact h
    | skip | cancel | loadUnbind | closeFd => cases h
  own {uid v ph} h := by
    cases ph with
    | cancel w => exact .inr fun _ => h
    | opened | check =>
        simp only [Phase.cancels, Option.ite_none_right_eq_some] at h
        exact .inl (Option.some.inj h.2).symm
    | loadCancel => exact .inl (Option.some.inj h).symm
    | loadUnbind | unbind | closeFd | release | closed => cases h
  fresh := rfl
  closeFd _ := rfl
  release _ := rfl
  closed _ := rfl

/-! ## Soundness -/

/-- A step that binds does so for a connection whose close is still going to undo it, and the
context is not the session of another user. -/
def BindsSound (l : Label) (s : State) : Prop :=
  ∀ b ∈ s.binds l,
    (∃ d ∈ s.net.conns b.1.conn, d.phase.unbinds b.2.1 = some b.2.1) ∧
    ((s.net.ctxs b.2.2).uid ≠ b.2.1 → ∀ e ∈ s.sessions (s.net.ctxs b.2.2).uid, e.ctx ≠ b.2.2)

instance (l : Label) (s : State) : Decidable (BindsSound l s) := by
  unfold BindsSound; infer_instance

/-- **The session map is sound**: an entry names a context that has the uid, and a connection that
has the context and is going to unbind it. -/
def Sound (s : State) : Prop :=
  ∀ uid e, s.sessions uid = some e → (s.net.ctxs e.ctx).uid = uid ∧
    ∃ c d, s.net.conns c = some d ∧ d.ctx = e.ctx ∧ d.phase.unbinds uid = some uid

theorem sound_move (hwf : s.net.WF P) (ht : Traced P s) (hs : Sound s) (hC : BindsSound l s)
    (h : Move P s l s') : Sound s' := by
  intro v e he
  cases change_of_move hwf h with
  | same hc hu hse hf =>
      rw [hse] at he
      rw [hu, hc]
      exact hs v e he
  | bind o uid x hb hc hu hse hf =>
      obtain ⟨⟨d, hd, harm⟩, hother⟩ := hC _ hb
      obtain ⟨-, d', hd', hx⟩ := ht.binds_conn hb
      obtain rfl : d = d' := Option.some.inj (hd.symm.trans hd')
      rw [hse, Function.update_apply] at he
      rw [hc, hu]
      split_ifs at he with hv
      · subst hv
        obtain rfl := Option.some.inj he
        exact ⟨if_pos rfl, o.conn, d, hd, hx, harm⟩
      · obtain ⟨huid, c', d', hd', hx', harm'⟩ := hs v e he
        have hne : e.ctx ≠ x := by
          rintro rfl
          exact hother (by rw [huid]; exact hv) e (by rw [huid]; exact he) rfl
        exact ⟨by rw [if_neg hne, huid], c', d', hd', hx', harm'⟩
  | opens w fd x hc hx hnew hu hux hse hf =>
      rw [hse] at he
      obtain ⟨huid, c, d, hd, hxd, harm⟩ := hs v e he
      have hne : e.ctx ≠ x := hxd ▸ hx c d hd (remains_unbinds.live harm)
      refine ⟨by rw [hu _ hne, huid], c, d, ?_, hxd, harm⟩
      rw [hc, Function.update_of_ne (Nat.ne_of_lt (hwf.conn_lt c d hd)), hd]
  | goes c d ph hd hedge hc hu hse hf =>
      rw [hse] at he
      obtain ⟨huid, c', d', hd', hxd, harm⟩ := hs v e he
      rw [hu, hc]
      refine ⟨huid, c', ?_⟩
      by_cases hcc : c' = c
      · subst hcc
        obtain rfl : d = d' := Option.some.inj (hd.symm.trans hd')
        rw [hxd, huid] at hedge
        exact ⟨_, Function.update_self .., hxd, hedge.unbinds_eq.trans harm⟩
      · exact ⟨d', by rw [Function.update_of_ne hcc, hd'], hxd, harm⟩
  | unbind c d u hl hd hp hc hu hse hf =>
      rw [hse, Function.update_apply] at he
      split_ifs at he with hv
      obtain ⟨huid, c', d', hd', hxd, harm⟩ := hs v e he
      rw [hu, hc]
      -- the entry of another user belongs to another connection
      have hcc : c' ≠ c := by
        rintro rfl
        obtain rfl : d = d' := Option.some.inj (hd.symm.trans hd')
        rw [hp] at harm
        exact hv (Option.some.inj harm).symm
      exact ⟨huid, c', d', by rw [Function.update_of_ne hcc, hd'], hxd, harm⟩
  | release c d hd hp hc hu hse hf =>
      rw [hse] at he
      obtain ⟨huid, c', d', hd', hxd, harm⟩ := hs v e he
      have hcc : c' ≠ c := by
        rintro rfl
        obtain rfl : d = d' := Option.some.inj (hd.symm.trans hd')
        rw [hp] at harm
        cases harm
      have hne : e.ctx ≠ d.ctx := fun hx => hcc
        (hwf.ctx_inj c' d' c d hd' hd (remains_unbinds.live harm) (by simp [Conn.Live, hp]) (hxd.trans hx))
      rw [hu, hc, if_neg fun hx => hne hx.1]
      exact ⟨huid, c', d', by rw [Function.update_of_ne hcc, hd'], hxd, harm⟩

/-- Nothing else is registered for the user whom a step binds or whose stream it starts: the close of
another connection is not going to remove the session of the user, or the stream, and no stream of
another connection runs under the uid. -/
def Alone (P : Params) (l : Label) (s : State) : Prop :=
  BindsLive P l s ∧
  (∀ b ∈ s.binds l,
    (∀ c < s.net.nextConn, ∀ d ∈ s.net.conns c, d.ctx ≠ b.2.2 →
      d.phase.unbinds (s.net.ctxs d.ctx).uid ≠ some b.2.1) ∧
    ∀ p ∈ s.ai.active, p.2.uid = b.2.1 → p.2.origin.conn = b.1.conn) ∧
  ∀ req ∈ s.starts l, ∀ c < s.net.nextConn, ∀ d ∈ s.net.conns c,
    d.phase.cancels (s.net.ctxs d.ctx).uid = some req.uid → c = req.origin.conn

instance (P : Params) (l : Label) (s : State) : Decidable (Alone P l s) := by
  unfold Alone; infer_instance

/-- **What the close of a connection is going to remove is its own.** -/
structure Separate (s : State) : Prop where
  session : ∀ c d uid e, s.net.conns c = some d → d.phase.unbinds (s.net.ctxs d.ctx).uid = some uid →
    s.sessions uid = some e → e.ctx = d.ctx
  stream : ∀ c d uid p, s.net.conns c = some d → d.phase.cancels (s.net.ctxs d.ctx).uid = some uid →
    p ∈ s.ai.active → p.2.uid = uid → p.2.origin.conn = c

/-- Something is left to do for a user because it was before, or because this step has bound the user to
the context. -/
theorem remains_back {F : Int → Phase → Option Int} (hF : Remains F) (hwf : s.net.WF P)
    (ha : Authentic P s) (h : Move P s l s') {c : ℕ} {d : Conn} {uid : Int}
    (hd : s'.net.conns c = some d) (hr : F (s'.net.ctxs d.ctx).uid d.phase = some uid) :
    (∃ d₀, s.net.conns c = some d₀ ∧ d₀.ctx = d.ctx ∧ F (s.net.ctxs d.ctx).uid d₀.phase = some uid) ∨
    ∃ o, s.binds l = some (o, uid, d.ctx) ∧ s.net.conns c = some d ∧
      s'.sessions uid = some ⟨d.ctx, o.conn⟩ := by
  cases change_of_move hwf h with
  | same hc hu hse hf =>
      rw [hc] at hd
      rw [hu] at hr
      exact .inl ⟨d, hd, rfl, hr⟩
  | bind o v x hb hc hu hse hf =>
      rw [hc] at hd
      by_cases hx : d.ctx = x
      · rcases hF.own hr with huid | hall
        · obtain rfl : uid = v := by rw [huid, hu, if_pos hx]
          exact .inr ⟨o, by rw [hx]; exact hb, hd, by rw [hse, Function.update_self, hx]⟩
        · -- the uid has been loaded before
          exact .inl ⟨d, hd, rfl, hall _⟩
      · rw [hu, if_neg hx] at hr
        exact .inl ⟨d, hd, rfl, hr⟩
  | opens w fd x hc hx hnew hu hux hse hf =>
      rw [hc, Function.update_apply] at hd
      split_ifs at hd with e
      · -- a new connection has no uid
        obtain rfl := Option.some.inj hd
        have h0 : (s'.net.ctxs x).uid = 0 := by
          rcases hux with h0 | ⟨h1, idx, hi, rfl⟩
          · exact h0
          · rw [h1, ha.free w idx hi]
        rw [h0, hF.fresh] at hr
        cases hr
      · rw [hu _ (hx c d hd (hF.live hr))] at hr
        exact .inl ⟨d, hd, rfl, hr⟩
  | goes c₀ d₀ ph hd₀ hedge hc hu hse hf =>
      rw [hc] at hd
      obtain ⟨d', hd', he, h1, h2⟩ := update_phase_cases hd₀ hd
      refine .inl ⟨d', hd', by rw [he], ?_⟩
      rw [hu] at hr
      by_cases hcc : c = c₀
      · obtain ⟨rfl, hph⟩ := h1 hcc
        rw [hph] at hr
        rw [he] at hr ⊢
        exact hF.edge hedge hr
      · rw [← h2 hcc]
        exact hr
  | unbind c₀ d₀ v hl hd₀ hp hc hu hse hf =>
      rw [hc] at hd
      obtain ⟨d', hd', he, h1, h2⟩ := update_phase_cases hd₀ hd
      rw [hu] at hr
      by_cases hcc : c = c₀
      · rw [(h1 hcc).2, hF.closeFd] at hr
        cases hr
      · obtain rfl := h2 hcc
        exact .inl ⟨d, hd', rfl, hr⟩
  | release c₀ d₀ hd₀ hp hc hu hse hf =>
      rw [hc] at hd
      obtain ⟨d', hd', he, h1, h2⟩ := update_phase_cases hd₀ hd
      by_cases hcc : c = c₀
      · rw [(h1 hcc).2, hF.closed] at hr
        cases hr
      · obtain rfl := h2 hcc
        have hne : d.ctx ≠ d₀.ctx := fun hx => hcc
          (hwf.ctx_inj c d c₀ d₀ hd' hd₀ (hF.live hr) (by simp [Conn.Live, hp]) hx)
        rw [hu, if_neg fun hx => hne hx.1] at hr
        exact .inl ⟨d, hd', rfl, hr⟩

theorem move_sessions (hwf : s.net.WF P) (h : Move P s l s') :
    s'.sessions = s.sessions ∨
    (∃ o uid x, s.binds l = some (o, uid, x) ∧
      s'.sessions = Function.update s.sessions uid (some ⟨x, o.conn⟩)) ∨
    ∃ c d uid, l = .close d.worker ∧ s.net.conns c = some d ∧ d.phase = .unbind uid ∧
      s'.sessions = Function.update s.sessions uid none := by
  cases change_of_move hwf h with
  | bind o uid x hb hc hu hse hf => exact .inr (.inl ⟨o, uid, x, hb, hse⟩)
  | unbind c d uid hl hd hp hc hu hse hf => exact .inr (.inr ⟨c, d, uid, hl, hd, hp, hse⟩)
  | same hc hu hse hf => exact .inl hse
  | opens w fd x hc hx hnew hu hux hse hf => exact .inl hse
  | goes c d ph hd hedge hc hu hse hf => exact .inl hse
  | release c d hd hp hc hu hse hf => exact .inl hse

theorem separate_session (hwf : s.net.WF P) (ha : Authentic P s) (hsep : Separate s)
    (hC : Alone P l s) (h : Move P s l s') {c : ℕ} {d : Conn} {uid : Int} {e : Session}
    (hd : s'.net.conns c = some d) (hr : d.phase.unbinds (s'.net.ctxs d.ctx).uid = some uid)
    (he : s'.sessions uid = some e) : e.ctx = d.ctx := by
  rcases remains_back remains_unbinds hwf ha h hd hr with ⟨d₀, hd₀, hx, hr₀⟩ | ⟨o, -, -, hse⟩
  · rw [← hx] at hr₀ ⊢
    have old := hsep.session c d₀ uid e hd₀ hr₀
    rcases move_sessions hwf h with hs | ⟨o, uid', x, hb, hs⟩ | ⟨c', d', uid', -, hd', hp, hs⟩
    · rw [hs] at he
      exact old he
    · rw [hs, Function.update_apply] at he
      split_ifs at he with huid
      · -- the user is bound to another context only when this connection leaves the session alone
        obtain rfl := Option.some.inj he
        by_contra hne
        exact (hC.2.1 _ hb).1 c (hwf.conn_lt c d₀ hd₀) d₀ hd₀ (fun e => hne e.symm) (huid ▸ hr₀)
      · exact old he
    · rw [hs, Function.update_apply] at he
      split_ifs at he
      exact old he
  · rw [hse] at he
    obtain rfl := Option.some.inj he
    rfl

theorem separate_stream (hwf : s.net.WF P) (ht : Traced P s) (ha : Authentic P s) (hsep : Separate s)
    (hC : Alone P l s) (h : Move P s l s') {c : ℕ} {d : Conn} {uid : Int} {p : Int × StreamRequest}
    (hd : s'.net.conns c = some d) (hr : d.phase.cancels (s'.net.ctxs d.ctx).uid = some uid)
    (hp : p ∈ s'.ai.active) (hpu : p.2.uid = uid) : p.2.origin.conn = c := by
  rcases remains_back remains_cancels hwf ha h hd hr with ⟨d₀, hd₀, hx, hr₀⟩ | ⟨o, hb, hd₀, -⟩
  · rw [← hx] at hr₀
    rcases move_active h hp with hp | hst
    · exact hsep.stream c d₀ uid p hd₀ hr₀ hp hpu
    · exact (hC.2.2 _ hst c (hwf.conn_lt c d₀ hd₀) d₀ hd₀ (hpu ▸ hr₀)).symm
  · rcases move_active h hp with hp | hst
    · rw [bound_conn hwf ht ha hC.1 hb hd₀ (remains_cancels.live hr) rfl]
      exact (hC.2.1 _ hb).2 p hp hpu
    · -- a step that binds is not one of the scheduler
      obtain ⟨i, e, t, rfl, -⟩ := ht.binds_guard hb
      cases hst

theorem separate_of_run (h : RunTo P db (Alone P) s) : Separate s := by
  refine run_invariant h Separate ⟨fun _ _ _ _ h => (by cases h), fun _ _ _ _ h => (by cases h)⟩ ?_
  intro l s s' hr hwf hC hsep hm
  have ha := authentic_of_run hr fun _ _ hC => hC.1
  exact ⟨fun _ _ _ _ hd hr he => separate_session hwf ha hsep hC hm hd hr he,
    fun _ _ _ _ hd hrem hp hpu => separate_stream hwf (traced_of_run hr) ha hsep hC hm hd hrem hp hpu⟩

/-- The step binds the user. -/
def Rebinds (uid : Int) (l : Label) (s : State) : Prop := ∃ o x, s.binds l = some (o, uid, x)

/-- The step is the `unbind` of a connection that has the context. -/
def Unbinds (x : ℕ) (l : Label) (s : State) : Prop :=
  ∃ c d uid, l = .close d.worker ∧ s.net.conns c = some d ∧ d.ctx = x ∧ d.phase = .unbind uid

theorem session_kept (hwf : s.net.WF P) (hsep : Separate s) {uid : Int} {e : Session}
    (he : s.sessions uid = some e) (h : Move P s l s') (hb : ¬ Rebinds uid l s)
    (hu : ¬ Unbinds e.ctx l s) : s'.sessions uid = some e := by
  rcases move_sessions hwf h with hs | ⟨o, uid', x, hb', hs⟩ | ⟨c, d, uid', hl, hd, hp, hs⟩
  · rw [hs, he]
  · rw [hs, Function.update_of_ne, he]
    rintro rfl
    exact hb ⟨o, x, hb'⟩
  · rw [hs, Function.update_of_ne, he]
    rintro rfl
    have hx := hsep.session c d uid e hd (by rw [hp]; rfl) he
    exact hu ⟨c, d, uid, hl, hd, hx.symm, hp⟩

/-- **Closing.** In a run in which nothing else is registered for a user who is bound or whose stream
starts, a statement of `close_impl` removes from the session map only entries with the context of its
connection, and from the active streams only those that were submitted on it. A session then stays
until the connection with its context unbinds or the user is bound again. -/
theorem close_removes_own (h : RunTo P db (Alone P) s) :
    (∀ w s', step P (.close w) s = some s' →
      ∃ c d, (s.net.workers w).busy = some c ∧ s.net.conns c = some d ∧
        (∀ uid e, s.sessions uid = some e → s'.sessions uid ≠ some e → e.ctx = d.ctx) ∧
        ∀ p ∈ s.ai.active, p ∉ s'.ai.active → p.2.origin.conn = c) ∧
    ∀ uid e, s.sessions uid = some e → ∀ s',
      Reach (step P) (fun l t => Alone P l t ∧ ¬ Rebinds uid l t ∧ ¬ Unbinds e.ctx l t) s s' →
      s'.sessions uid = some e := by
  have hwf := wf_of_run h
  have hsep := separate_of_run h
  refine ⟨fun w s' hs => ?_, fun uid e he s' hr => ?_⟩
  · have hm := move_of_step hwf hs
    cases hm with
    | check c d hd hp | loadCancel c d hd hp | loadUnbind c d hd hp =>
        exact ⟨c, d, (hwf.busy _ c).mpr ⟨d, hd, rfl, by simp [Conn.Closing, hp]⟩, hd,
          fun uid e he hne => absurd he hne, fun p hp hne => absurd hp hne⟩
    | cancel c d u hd hp =>
        refine ⟨c, d, (hwf.busy _ c).mpr ⟨d, hd, rfl, by simp [Conn.Closing, hp]⟩, hd,
          fun uid e he hne => absurd he hne, fun p hpm hne => ?_⟩
        refine hsep.stream c d u p hd (by rw [hp]; rfl) hpm ?_
        by_contra hu
        exact hne (List.mem_filter.mpr ⟨hpm, by simpa using hu⟩)
    | unbind c d u hd hp =>
        refine ⟨c, d, (hwf.busy _ c).mpr ⟨d, hd, rfl, by simp [Conn.Closing, hp]⟩, hd,
          fun uid e he hne => ?_, fun p hp hne => absurd hp hne⟩
        dsimp only at hne
        rw [Function.update_apply] at hne
        split_ifs at hne with hu
        · exact hsep.session c d u e hd (by rw [hp]; rfl) (hu ▸ he)
        · exact absurd he hne
    | closeFd c d hd hp | release c d hd hp =>
        exact ⟨c, d, (hwf.busy _ c).mpr ⟨d, hd, rfl, by simp [Conn.Closing, hp]⟩, hd,
          fun uid e he hne => absurd he hne, fun p hp hne => absurd hp hne⟩
  · induction hr with
    | refl => exact he
    | tail hr hc hs ih =>
        have ht := h.trans (hr.mono fun _ _ hc => hc.1)
        exact session_kept (wf_of_run ht) (separate_of_run ht) ih (move_of_step (wf_of_run ht) hs)
          hc.2.1 hc.2.2

/-- User `a` logs in on one connection and user `b` on another, and the first hangs up: only the
entry of `a` goes. -/
theorem close_removes_own_sample : ∃ s, RunTo Sample.params Sample.db (Alone Sample.params) s ∧
    s.sessions 1000 = some ⟨2, 0⟩ ∧ s.sessions 1001 = some ⟨1, 1⟩ ∧
    ∃ s', step Sample.params (.close 0) s = some s' ∧ s'.sessions 1000 = none ∧
      s'.sessions 1001 = some ⟨1, 1⟩ ∧
      ∃ c d, (s.net.workers 0).busy = some c ∧ s.net.conns c = some d ∧
        ∀ uid e, s.sessions uid = some e → s'.sessions uid ≠ some e → e.ctx = d.ctx := by
  obtain ⟨s, hr, ⟨s', hs, h0, h1⟩, h2, h3⟩ := Sample.exists_run (Alone Sample.params)
    (Sample.connect 5 ++ Sample.connect 6 ++
      [Sample.packet 0 .login Sample.loginA, Sample.packet 1 .login Sample.loginB] ++
      Sample.work 0 3 ++ Sample.work 1 3 ++ [.drop 0] ++ List.replicate 4 (.close 0))
    (fun s => (∃ s' ∈ step Sample.params (.close 0) s,
        s'.sessions 1000 = none ∧ s'.sessions 1001 = some ⟨1, 1⟩) ∧
      s.sessions 1000 = some ⟨2, 0⟩ ∧ s.sessions 1001 = some ⟨1, 1⟩) (by decide)
  obtain ⟨c, d, hb, hd, hse, -⟩ := (close_removes_own hr).1 0 s' hs
  exact ⟨s, hr, h2, h3, s', hs, h0, h1, c, d, hb, hd, hse⟩

/-- User `a` logs in on a second connection. The close of the first one, which the second login has
queued, removes the entry of the second. -/
theorem close_unbinds_other : ∃ s s', RunTo Sample.params Sample.db (fun _ _ => True) s ∧
    step Sample.params (.close 0) s = some s' ∧
    (∃ d, (s.net.workers 0).busy = some 0 ∧ s.net.conns 0 = some d ∧ d.ctx = 2) ∧
    s.sessions 1000 = some ⟨1, 1⟩ ∧ s'.sessions 1000 = none ∧
    ∃ d, s'.net.conns 1 = some d ∧ d.ctx = 1 ∧ d.phase = .opened := by
  obtain ⟨s, hr, ⟨s', hs, h1, h2⟩, h3, h4, h5⟩ := Sample.exists_run (fun _ _ => True)
    (Sample.connect 5 ++ Sample.connect 6 ++
      [Sample.packet 0 .login Sample.loginA, Sample.packet 1 .login Sample.loginA] ++
      Sample.work 0 3 ++ Sample.work 1 7 ++
      [.swap 0, .functor 0] ++ List.replicate 4 (.close 0))
    (fun s => (∃ s' ∈ step Sample.params (.close 0) s, s'.sessions 1000 = none ∧
        ∃ d ∈ s'.net.conns 1, d.ctx = 1 ∧ d.phase = .opened) ∧
      (s.net.workers 0).busy = some 0 ∧ (∃ d ∈ s.net.conns 0, d.ctx = 2) ∧
      s.sessions 1000 = some ⟨1, 1⟩) (by decide)
  obtain ⟨d, hd, hx⟩ := h4
  exact ⟨s, s', hr, hs, ⟨d, h3, hd, hx⟩, h5, h1, h2⟩

end AuraChat
