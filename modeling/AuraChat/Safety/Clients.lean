import AuraChat.Safety.Slots

set_option autoImplicit false

/-!
# The clients of the language model

A stream takes the client with the number of streams before it modulo `max_concurrent_`, busy or not.
With two clients, a stream that is still at work when the second one after it starts shares its client
with that one (`client_shared`). The streams have clients of their own as long as each stream is over
when the `max_concurrent_`-th stream after it takes a client.

* `draws`: the streams that have taken a client, newest first;
* `State.client`: the client that the stream of a thread uses;
* `InTurn`: the condition on a step;
* `Windowed`, **`clients_exclusive`**.
-/

namespace AuraChat

open Interleave

variable {P : Params} {db : Store} {s s' : State} {l : Label}

/-! ## Draws -/

/-- The client that a call has returned. -/
def clientOf : Event Reply → Option ℕ
  | ⟨.nextClient, k⟩ => some k
  | _ => none

/-- The client that a thread has drawn. -/
def drawn (h : List (Event Reply)) : Option ℕ := h.findSome? clientOf

/-- The packets whose streams have taken a client, newest first. -/
def draws (log : List Entry) : List Origin :=
  log.filterMap fun e => match e with
    | .did o ev => (clientOf ev).map fun _ => o
    | _ => none

/-- The client that the stream of thread `i` uses. -/
def State.client (s : State) (i : ℕ) : Option ℕ :=
  (s.threads i).bind fun t => t.stream.bind fun _ => drawn t.hist

/-- The step takes a client for a stream. -/
def State.drawing (s : State) (l : Label) : Bool :=
  match s.next l with
  | some (_, .nextClient) => true
  | _ => false

/-- A stream takes a client when the stream that took one `max_concurrent_` draws before is over. -/
def InTurn (P : Params) (l : Label) (s : State) : Prop :=
  s.drawing l = true → ∀ o ∈ (draws s.log)[P.cfg.aiMaxConcurrent - 1]?,
    ∀ i < P.poolThreads, ∀ req ∈ s.running i, req.origin ≠ o

instance (P : Params) (l : Label) (s : State) : Decidable (InTurn P l s) := by
  unfold InTurn; infer_instance

theorem clientOf_eq_none {a : Call} (ha : a ≠ .nextClient) (r : Reply a) : clientOf ⟨a, r⟩ = none := by
  cases a with
  | nextClient => exact absurd rfl ha
  | _ => rfl

theorem draws_move (h : Move P s l s') :
    (draws s'.log = draws s.log ∧ s'.ai.rrCounter = s.ai.rrCounter ∧
      ∀ o, s.next l ≠ some (o, .nextClient)) ∨
    ∃ o, s.next l = some (o, .nextClient) ∧ draws s'.log = o :: draws s.log ∧
      s'.ai.rrCounter = s.ai.rrCounter + 1 := by
  cases h with
  | call i e t a k r s₁ hi hp ha =>
      have hn := next_thread e hi hp
      by_cases hc : a = .nextClient
      · subst hc
        simp only [act, Option.some.injEq, Prod.mk.injEq] at ha
        obtain ⟨-, rfl⟩ := ha
        exact .inr ⟨_, hn, rfl, rfl⟩
      have he := act_effect ha
      have hlog : draws s₁.log = draws s.log := by
        rcases effect_log_eq he with e₁ | ⟨x, cmd, seq, body, why, -, e₁⟩ | ⟨m, -, e₁⟩
        · rw [e₁]
        · rw [e₁]; rfl
        · rw [e₁]; rfl
      refine .inl ⟨?_, ?_, fun o ho => ?_⟩
      · simp only [draws, List.filterMap_cons, clientOf_eq_none hc r, Option.map_none]
        exact hlog
      · cases he with
        | ai _ ai' h =>
            rcases h with ⟨fd, req, rfl, rfl⟩ | ⟨rfl, rfl⟩ | ⟨x, rfl, rfl⟩
            · dsimp only [AIManager.enqueue]
              split_ifs <;> rfl
            · exact absurd rfl hc
            · dsimp only [AIManager.eraseStream]
              split_ifs <;> rfl
        | _ => rfl
      · rw [hn, Option.some.injEq, Prod.mk.injEq] at ho
        exact hc ho.2
  | finish i e t hi hp =>
      refine .inl ⟨rfl, rfl, fun o ho => ?_⟩
      obtain ⟨j, e', t', k, hl, hj, -, hp'⟩ := next_cases ho
      obtain ⟨rfl, -⟩ := Label.thread.inj hl
      obtain rfl := Option.some.inj (hi.symm.trans hj)
      rw [hp] at hp'
      cases hp'
  | _ => exact .inl ⟨rfl, rfl, fun o ho => by cases ho⟩

theorem drawn_snoc (h : List (Event Reply)) (e : Event Reply) :
    drawn (h ++ [e]) = (drawn h).or (clientOf e) := by
  simp only [drawn, List.findSome?_append, List.findSome?_singleton]

theorem drawn_eq_none {h : List (Event Reply)} (hu : ∀ e ∈ h, e.1 ≠ .nextClient) : drawn h = none :=
  List.findSome?_eq_none_iff.mpr fun e he => clientOf_eq_none (hu e he) e.2

theorem client_eq_some {i k : ℕ} : s.client i = some k ↔
    ∃ t req, s.threads i = some t ∧ s.running i = some req ∧ t.task = .stream req ∧
      drawn t.hist = some k := by
  constructor
  · intro h
    obtain ⟨t, hi, h⟩ := Option.bind_eq_some_iff.mp h
    obtain ⟨req, hs, hd⟩ := Option.bind_eq_some_iff.mp h
    have hrun : s.running i = some req := by simp only [State.running, hi, Option.bind_some, hs]
    obtain ⟨t', a, k', hi', htask, -⟩ := running_eq_some.mp hrun
    obtain rfl := Option.some.inj (hi.symm.trans hi')
    exact ⟨t, req, hi, hrun, htask, hd⟩
  · rintro ⟨t, req, hi, hrun, -, hd⟩
    simp only [State.running, hi, Option.bind_some] at hrun
    simp only [State.client, hi, Option.bind_some, hrun, hd]

theorem client_move (ht : Traced P s) (h : Move P s l s') {i k : ℕ} (hc : s'.client i = some k) :
    (s.client i = some k ∧ s'.running i = s.running i) ∨
    ∃ o req, s.next l = some (o, .nextClient) ∧ s'.running i = some req ∧ req.origin = o ∧
      k = s.ai.rrCounter % P.cfg.aiMaxConcurrent ∧ ∃ e, l = .thread i e := by
  obtain ⟨t', req, hi', hrun', htask', hd'⟩ := client_eq_some.mp hc
  rcases move_thread h hi' with hi | ⟨-, t, -, script, rfl⟩ |
    ⟨e, t, a, k', r, rfl, hi, hp, rfl, -, s₁, ha, -⟩
  · have hrun : s.running i = some req := by
      simp only [State.running, hi'] at hrun'
      simp only [State.running, hi, hrun']
    exact .inl ⟨client_eq_some.mpr ⟨t', req, hi, hrun, htask', hd'⟩, hrun'.trans hrun.symm⟩
  · cases hd'
  · have hrun : s.running i = some req := running_eq_some.mpr ⟨t, a, k', hi, htask', hp⟩
    by_cases hcl : a = .nextClient
    · subst hcl
      have hnone := drawn_eq_none ((stream_call ht hi hp htask' r).1.2.2.2 rfl)
      rw [drawn_snoc, hnone] at hd'
      obtain rfl : r = k := Option.some.inj hd'
      simp only [act, Option.some.injEq, Prod.mk.injEq] at ha
      refine .inr ⟨_, req, next_thread e hi hp, hrun', ?_, ha.1.symm, e, rfl⟩
      dsimp only at htask'
      rw [htask']
      rfl
    · dsimp only at hd'
      rw [drawn_snoc, clientOf_eq_none hcl r, Option.or_none] at hd'
      exact .inl ⟨client_eq_some.mpr ⟨t, req, hi, hrun, htask', hd'⟩, hrun'.trans hrun.symm⟩

/-! ## The window -/

/-- **The streams at work are among the last `max_concurrent_` that have taken a client**, and each uses
the client with its number. -/
structure Windowed (P : Params) (s : State) : Prop where
  count : s.ai.rrCounter = (draws s.log).length
  held : ∀ i k, s.client i = some k → ∃ req j, s.running i = some req ∧
    j < P.cfg.aiMaxConcurrent ∧ (draws s.log)[j]? = some req.origin ∧
    k = (s.ai.rrCounter - 1 - j) % P.cfg.aiMaxConcurrent

theorem windowed_move (hn : 1 ≤ P.cfg.aiMaxConcurrent) (ht : Traced P s) (hC : InTurn P l s)
    (h : Move P s l s') (hw : Windowed P s) : Windowed P s' := by
  rcases draws_move h with ⟨hd, hr, hnot⟩ | ⟨o, hnext, hd, hr⟩
  · refine ⟨by rw [hd, hr, hw.count], fun i k hc => ?_⟩
    rcases client_move ht h hc with ⟨hc, hrun⟩ | ⟨o, req, hnext, -⟩
    · rw [hd, hr, hrun]
      exact hw.held i k hc
    · exact absurd hnext (hnot o)
  · refine ⟨by rw [hd, hr, hw.count, List.length_cons], fun i k hc => ?_⟩
    rw [hd, hr]
    rcases client_move ht h hc with ⟨hc, hrun⟩ | ⟨o', req, hnext', hrun, hreq, hk, -⟩
    · obtain ⟨req, j, hrun₀, hj, hdr, hk⟩ := hw.held i k hc
      -- the last place of the window is free
      have hne : j ≠ P.cfg.aiMaxConcurrent - 1 := by
        rintro rfl
        obtain ⟨t, -, -, hi, -⟩ := running_eq_some.mp hrun₀
        exact hC (by simp only [State.drawing, hnext]) req.origin hdr i (ht.lt i t hi) req hrun₀ rfl
      refine ⟨req, j + 1, hrun.trans hrun₀, by omega, by simpa using hdr, ?_⟩
      rw [hk]
      congr 1
      omega
    · rw [hnext, Option.some.injEq, Prod.mk.injEq] at hnext'
      refine ⟨req, 0, hrun, by omega, by simp [hreq, hnext'.1], ?_⟩
      rw [hk]
      rfl

theorem window_inj {m n a b : ℕ} (ha : a < n) (hb : b < n) (hma : a < m) (hmb : b < m)
    (h : (m - 1 - a) % n = (m - 1 - b) % n) : a = b := by
  have half : ∀ {a b : ℕ}, b < m → b < n → (m - 1 - a) % n = (m - 1 - b) % n → b ≤ a := by
    intro a b hmb hb h
    by_contra hlt
    have hz : (m - 1 - a - (m - 1 - b)) % n = 0 := Nat.sub_mod_eq_zero_of_mod_eq h
    rw [Nat.mod_eq_of_lt (by omega)] at hz
    omega
  have h₁ := half hmb hb h
  have h₂ := half hma ha h.symm
  omega

/-- **No two streams at work use the same client**, in a run in which each stream is over when the
`max_concurrent_`-th stream after it takes a client. -/
theorem clients_exclusive (hn : 1 ≤ P.cfg.aiMaxConcurrent) (h : RunTo P db (InTurn P) s)
    (i j k : ℕ) (hi : s.client i = some k) (hj : s.client j = some k) : i = j := by
  have hw : Windowed P s := run_invariant h (Windowed P) ⟨rfl, fun i k hc => by cases hc⟩
    fun _ _ _ hr _ hC hw hm => windowed_move hn (traced_of_run hr) hC hm hw
  obtain ⟨req, a, hrun, ha, hda, hka⟩ := hw.held i k hi
  obtain ⟨req', b, hrun', hb, hdb, hkb⟩ := hw.held j k hj
  have hlt : ∀ {a : ℕ} {o : Origin}, (draws s.log)[a]? = some o → a < s.ai.rrCounter := by
    intro a o hd
    rw [hw.count]
    exact (List.getElem?_eq_some_iff.mp hd).1
  -- one client in the window is one draw, and one draw is one request
  obtain rfl : a = b := window_inj ha hb (hlt hda) (hlt hdb) (hka.symm.trans hkb)
  have ho : req.origin = req'.origin := Option.some.inj (hda.symm.trans hdb)
  exact running_inj (traced_of_run h) (distinct_of_run h) hrun hrun' (congrArg Origin.pid ho)

/-- With two clients, two streams are at work. -/
theorem clients_exclusive_sample :
    ∃ s, RunTo (Sample.slots 2) Sample.db (InTurn (Sample.slots 2)) s ∧
      s.client 0 = some 0 ∧ s.client 1 = some 1 ∧ ∀ j, s.client j = some 0 → 0 = j := by
  obtain ⟨s, hr, h₀, h₁⟩ := Sample.exists_run_slots 2 (InTurn (Sample.slots 2))
    (Sample.connect 5 ++ Sample.connect 6 ++ Sample.ask 0 0 ++ Sample.serve 0 2 ++
      Sample.ask 1 1 ++ Sample.serve 1 2)
    (fun s => s.client 0 = some 0 ∧ s.client 1 = some 1) ⟨_, rfl, by decide⟩
  exact ⟨s, hr, h₀, h₁, fun j hj => clients_exclusive (by decide) hr 0 j 0 h₀ hj⟩

set_option maxRecDepth 1000 in
/-- With two clients, the first stream is long, the second one ends, and the third one takes the client
of the first. Nothing is cancelled, and no more than two streams are at work. -/
theorem client_shared : ∃ s, RunTo (Sample.slots 2) Sample.db (fun l s => s.cancels l = none ∧
      (s.unfinished (Sample.slots 2)).length ≤ (Sample.slots 2).cfg.aiMaxConcurrent) s ∧
    (s.unfinished (Sample.slots 2)).length ≤ (Sample.slots 2).cfg.aiMaxConcurrent ∧
    ∃ i j k, i ≠ j ∧ s.client i = some k ∧ s.client j = some k := by
  obtain ⟨s, hr, hu, h₀, h₁⟩ := Sample.exists_run_slots 2 (fun l s => s.cancels l = none ∧
      (s.unfinished (Sample.slots 2)).length ≤ (Sample.slots 2).cfg.aiMaxConcurrent)
    (Sample.connect 5 ++ Sample.connect 6 ++ Sample.connect 7 ++ Sample.ask 0 0 ++
      Sample.serve 0 2 ++ Sample.ask 1 1 ++ Sample.serve 1 8 ++ Sample.ask 2 1 ++ Sample.serve 1 2)
    (fun s => (s.unfinished (Sample.slots 2)).length ≤ 2 ∧ s.client 0 = some 0 ∧
      s.client 1 = some 0) ⟨_, rfl, by decide⟩
  exact ⟨s, hr, hu, 0, 1, 0, by decide, h₀, h₁⟩

end AuraChat
