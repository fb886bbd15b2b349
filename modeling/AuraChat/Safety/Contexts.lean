import AuraChat.Model.Sample
import AuraChat.Safety.Sessions

set_option autoImplicit false

/-!
# Contexts and their worker

A context of a pool knows its worker; the one that a pool makes when it runs empty does not. Whatever
happens, no two connections share a context, and what a pool has to hand out is not in use.

* **`pool_exclusive`**: the free list against the open connections, in every run;
* `Call.derefs`, `PoolHasRoom`, `Pooled`, `pooled_move`;
* **`contexts_know_worker`**: with room in the pools every context has its worker, and every
  `owner_worker->` is on a worker; `fallback_without_worker`: without room it is not.
-/

namespace AuraChat

open Interleave

variable {P : Params} {db : Store} {C : Label → State → Prop} {s s' : State} {l : Label}

/-! ## The free list -/

theorem ctx_eq_storage (hwf : s.net.WF P) {c : ℕ} {d : Conn} (hd : s.net.conns c = some d)
    (hp : P.pooled d.ctx) : P.storage d.worker (d.ctx % P.cfg.poolSize) = d.ctx := by
  unfold Params.storage
  rw [← hwf.own_pool c d hd hp, Nat.mul_comm]
  exact Nat.div_add_mod d.ctx P.cfg.poolSize

/-- **The pools hand every context to one connection at a time.** In every state that a run reaches, the
free list of a worker has no duplicates, its entries are positions of the pool that no connection of the
worker holds, and two connections have different contexts. This goes for the connections that are open
and for those that are being closed. -/
theorem pool_exclusive (h : RunTo P db C s) :
    (∀ w, (s.net.workers w).freeList.Nodup ∧ ∀ idx ∈ (s.net.workers w).freeList,
      idx < P.cfg.poolSize ∧ ∀ c d, s.net.conns c = some d → d.Live → d.worker = w →
        (s.net.ctxs d.ctx).poolIdx ≠ idx) ∧
    ∀ c d c' d', s.net.conns c = some d → s.net.conns c' = some d' → d.Live → d'.Live → c ≠ c' →
      d.ctx ≠ d'.ctx := by
  have hwf := wf_of_run h
  refine ⟨fun w => ⟨hwf.free_nodup w, fun idx hidx => ?_⟩, ?_⟩
  · obtain ⟨-, hlt, hfree⟩ := hwf.free w idx hidx
    refine ⟨hlt, fun c d hd hl hw hpos => ?_⟩
    by_cases hp : P.pooled d.ctx
    · -- the context is the one at this position
      rw [(hwf.owner _ hp).2] at hpos
      have hstorage := ctx_eq_storage hwf hd hp
      rw [show d.ctx % P.cfg.poolSize = idx by omega, hw] at hstorage
      exact hfree c d hd hl hstorage.symm
    · rw [(hwf.no_owner _ hp).2] at hpos
      omega
  · intro c d c' d' hd hd' hl hl' hne hx
    exact hne (hwf.ctx_inj c d c' d' hd hd' hl hl' hx)

/-- Four connections to a worker whose pool has three contexts: the first and the last one. -/
theorem pool_exclusive_sample : ∃ s, RunTo Sample.params Sample.db (fun _ _ => True) s ∧
    ∃ d d', s.net.conns 0 = some d ∧ s.net.conns 3 = some d' ∧ d.ctx ≠ d'.ctx := by
  obtain ⟨s, hr, ⟨d, hd, hp⟩, d', hd', hp'⟩ := Sample.exists_run (fun _ _ => True)
    (Sample.connect 5 ++ Sample.connect 6 ++ Sample.connect 7 ++ Sample.connect 8)
    (fun s => (∃ d ∈ s.net.conns 0, d.phase = .opened) ∧ ∃ d ∈ s.net.conns 3, d.phase = .opened)
    (by decide)
  exact ⟨s, hr, d, d', hd, hd', (pool_exclusive hr).2 0 d 3 d' hd hd' (Conn.holds_of_opened hp).live
    (Conn.holds_of_opened hp').live (by decide)⟩

/-! ## The worker of a context -/

/-- The context whose `owner_worker` a call goes through without a test. -/
def Call.derefs : Call → Option ℕ
  | .queueSendPacket x _ _ _ _ => some x
  | .queueCloseConnection old _ => some old.ctx
  | _ => none

/-- The context that the next call of a step goes through. -/
def State.derefs (s : State) (l : Label) : Option ℕ := (s.next l).bind fun oa => oa.2.derefs

/-- A worker takes a connection in only while its pool has a free context. -/
def PoolHasRoom (l : Label) (s : State) : Prop :=
  ∀ w ∈ s.adds l, (s.net.workers w).freeList ≠ []

instance (l : Label) (s : State) : Decidable (PoolHasRoom l s) := by
  unfold PoolHasRoom; infer_instance

/-- The contexts that connections hold, that the session map names and that threads have been given are
all built with the pools. -/
structure Pooled (P : Params) (s : State) : Prop where
  conn : ∀ c d, s.net.conns c = some d → P.pooled d.ctx
  session : ∀ uid e, s.sessions uid = some e → P.pooled e.ctx
  found : ∀ o uid x, .did o ⟨.sessionGet uid, some x⟩ ∈ s.log → P.pooled x
  bound : ∀ o uid x old, .did o ⟨.bindEnter uid x, some old⟩ ∈ s.log → P.pooled old.ctx

theorem pooled_init : Pooled P (State.init P db) where
  conn _ _ h := by cases h
  session _ _ h := by cases h
  found _ _ _ h := by cases h
  bound _ _ _ _ h := by cases h

theorem pooled_move (hwf : s.net.WF P) (ht : Traced P s) (hp : Pooled P s) (hC : PoolHasRoom l s)
    (h : Move P s l s') : Pooled P s' where
  conn c d hd := by
    rcases move_conns h with e | ⟨c', d', ph, hd', -, -, e⟩ | ⟨w, fd, num, rest, ha, -, -, e⟩
    · exact hp.conn c d (by rwa [e] at hd)
    · rw [e, Function.update_apply] at hd
      split_ifs at hd
      · obtain rfl := Option.some.inj hd
        exact hp.conn c' d' hd'
      · exact hp.conn c d hd
    · rw [e, Function.update_apply] at hd
      split_ifs at hd
      · obtain rfl := Option.some.inj hd
        exact (hwf.acquire_pooled w).mpr (hC w ha)
      · exact hp.conn c d hd
  session uid e he := by
    rcases move_sessions hwf h with hse | ⟨o, u, x, hb, hse⟩ | ⟨c, d, v, -, -, -, hse⟩
    · exact hp.session uid e (by rwa [hse] at he)
    · rw [hse, Function.update_apply] at he
      split_ifs at he
      · obtain rfl := Option.some.inj he
        obtain ⟨-, d, hd, rfl⟩ := ht.binds_conn hb
        exact hp.conn o.conn d hd
      · exact hp.session uid e he
    · rw [hse, Function.update_apply] at he
      split_ifs at he
      exact hp.session uid e he
  found o uid x hd := by
    rcases move_did h hd with hd | ⟨i, e, t, k, s₁, -, -, -, -, ha, -⟩
    · exact hp.found o uid x hd
    · simp only [act, Option.some.injEq, Prod.mk.injEq, Option.map_eq_some_iff] at ha
      obtain ⟨⟨ses, hses, rfl⟩, -⟩ := ha
      exact hp.session uid ses hses
  bound o uid x old hd := by
    rcases move_did h hd with hd | ⟨i, e, t, k, s₁, -, -, -, -, ha, -⟩
    · exact hp.bound o uid x old hd
    · simp only [act] at ha
      split at ha
      · rename_i ses hses
        simp only [Option.some.injEq, Prod.mk.injEq] at ha
        obtain ⟨rfl, -⟩ := ha
        exact hp.session uid ses hses
      · simp at ha

/-- **Contexts know their worker, as long as the pools have room.** In a run in which a worker takes a
connection in only while its pool has a free context, the context of every open connection has that
worker, and the next call of a thread does not go through a null `owner_worker`. -/
theorem contexts_know_worker (h : RunTo P db PoolHasRoom s) :
    (∀ c d, s.net.conns c = some d → d.phase = .opened →
      (s.net.ctxs d.ctx).ownerWorker = some d.worker) ∧
    ∀ l x, s.derefs l = some x → (s.net.ctxs x).ownerWorker ≠ none := by
  have hwf := wf_of_run h
  have ht := traced_of_run h
  have hp : Pooled P s := run_invariant h (Pooled P) pooled_init
    fun _ _ _ hr hwf hC hp hm => pooled_move hwf (traced_of_run hr) hp hC hm
  have known : ∀ x, P.pooled x → (s.net.ctxs x).ownerWorker ≠ none := by
    intro x hx
    rw [(hwf.owner x hx).1]
    exact Option.some_ne_none _
  refine ⟨fun c d hd _ => ?_, fun l x hx => known x ?_⟩
  · rw [(hwf.owner _ (hp.conn c d hd)).1, hwf.own_pool c d hd (hp.conn c d hd)]
  · obtain ⟨⟨o, a⟩, hn, ha⟩ := Option.bind_eq_some_iff.mp hx
    obtain ⟨i, e, t, -, hi, rfl, hg⟩ := ht.next_guard hn
    -- the context of the packet that the thread works for
    have hown : P.pooled t.task.origin.ctx := by
      obtain ⟨d, hd, hx⟩ := ht.conn_of_received (ht.thread i t hi).received
      rw [← hx]
      exact hp.conn _ d hd
    cases a with
    | queueSendPacket y cmd seq body why =>
        obtain rfl := Option.some.inj ha
        cases why with
        | reply | chunk => exact hg ▸ hown
        | offline id => exact hg.1 ▸ hown
        | forward uid | notify uid => exact hp.found _ _ _ (ht.hist i t hi _ hg)
    | queueCloseConnection old fd =>
        obtain rfl := Option.some.inj ha
        obtain ⟨uid, hb⟩ := hg
        exact hp.bound _ _ _ old (ht.hist i t hi _ hb)
    | _ => cases ha

/-- A client connects and sends a heartbeat, to which the server is about to reply. -/
theorem contexts_know_worker_sample : ∃ s, RunTo Sample.params Sample.db PoolHasRoom s ∧
    s.derefs (.thread 0 {}) = some 2 ∧ (s.net.ctxs 2).ownerWorker ≠ none := by
  obtain ⟨s, hr, hx⟩ := Sample.exists_run PoolHasRoom
    (Sample.connect 5 ++ [Sample.packet 0 .heartbeat []] ++ Sample.work 0 1)
    (fun s => s.derefs (.thread 0 {}) = some 2) (by decide)
  exact ⟨s, hr, hx, (contexts_know_worker hr).2 _ 2 hx⟩

/-- **A context made by an empty pool does not know its worker**: of four connections to a worker whose
pool has three contexts, the last one has no `owner_worker`, and the reply to its heartbeat goes through
it. -/
theorem fallback_without_worker : ∃ s, RunTo Sample.params Sample.db (fun _ _ => True) s ∧
    (∃ c d, s.net.conns c = some d ∧ d.phase = .opened ∧
      (s.net.ctxs d.ctx).ownerWorker ≠ some d.worker) ∧
    ∃ l x, s.derefs l = some x ∧ (s.net.ctxs x).ownerWorker = none := by
  obtain ⟨s, hr, ⟨d, hd, hopen⟩, hx⟩ := Sample.exists_run (fun _ _ => True)
    (Sample.connect 5 ++ Sample.connect 6 ++ Sample.connect 7 ++ Sample.connect 8 ++
      [Sample.packet 3 .heartbeat []] ++ Sample.work 0 1)
    (fun s => (∃ d ∈ s.net.conns 3, d.phase = .opened ∧
        (s.net.ctxs d.ctx).ownerWorker ≠ some d.worker) ∧
      s.derefs (.thread 0 {}) = some 3 ∧ (s.net.ctxs 3).ownerWorker = none) (by decide)
  exact ⟨s, hr, ⟨3, d, hd, hopen⟩, _, 3, hx⟩

end AuraChat
