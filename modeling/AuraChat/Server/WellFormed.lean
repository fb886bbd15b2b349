import Mathlib.Data.List.Nodup
import AuraChat.Model.Server

set_option autoImplicit false

/-!
# Well-formed networks

What ties the tables of the workers, the contexts, the connection objects and the descriptors of
the operating system together between any two steps (`Net.WF`), and that the operations on contexts
and queues keep it. The other invariants of the server rest on these facts:

* `WF.ctx_inj`: two connections that are not closed have different contexts;
* `WF.fd_inj`: two connections that have not closed their descriptors have different descriptors;
* `WF.connections`: `connections_` holds exactly the open connections of its worker;
* `WF.fd_held`: a context with a descriptor belongs to a connection that is not closed.
-/

namespace AuraChat

open Interleave

/-- The connection has not run its close to the end. -/
def Conn.Live (d : Conn) : Prop := d.phase ≠ .closed

/-- The connection has not closed its descriptor. -/
def Conn.Holds (d : Conn) : Prop := d.phase ≠ .closed ∧ d.phase ≠ .release

/-- The connection is inside `close_impl`. -/
def Conn.Closing (d : Conn) : Prop := d.phase ≠ .opened ∧ d.phase ≠ .closed

theorem Conn.Holds.live {d : Conn} (h : d.Holds) : d.Live := h.1

theorem Conn.Closing.live {d : Conn} (h : d.Closing) : d.Live := h.2

theorem Conn.holds_of_opened {d : Conn} (h : d.phase = .opened) : d.Holds := by
  simp [Conn.Holds, h]

/-- **Well-formed networks.** -/
structure Net.WF (P : Params) (n : Net) : Prop where
  conn_lt : ∀ c d, n.conns c = some d → c < n.nextConn
  fd_nonneg : ∀ c d, n.conns c = some d → 0 ≤ d.fd
  ctx_lt : ∀ c d, n.conns c = some d → d.ctx < n.nextCtx
  nextCtx_le : P.cfg.workerNum * P.cfg.poolSize ≤ n.nextCtx
  ctx_fd : ∀ c d, n.conns c = some d → d.Live → (n.ctxs d.ctx).fd = d.fd
  ctx_inj : ∀ c d c' d', n.conns c = some d → n.conns c' = some d' → d.Live → d'.Live →
    d.ctx = d'.ctx → c = c'
  fd_held : ∀ x, (n.ctxs x).fd ≠ -1 → ∃ c d, n.conns c = some d ∧ d.Live ∧ d.ctx = x
  fd_open : ∀ c d, n.conns c = some d → d.Holds → n.openFds d.fd = true
  fd_inj : ∀ c d c' d', n.conns c = some d → n.conns c' = some d' → d.Holds → d'.Holds →
    d.fd = d'.fd → c = c'
  connections : ∀ w fd c, (n.workers w).connections fd = some c ↔
    ∃ d, n.conns c = some d ∧ d.worker = w ∧ d.fd = fd ∧ d.phase = .opened
  busy : ∀ w c, (n.workers w).busy = some c ↔ ∃ d, n.conns c = some d ∧ d.worker = w ∧ d.Closing
  owner : ∀ x, P.pooled x → (n.ctxs x).ownerWorker = some (x / P.cfg.poolSize) ∧
    (n.ctxs x).poolIdx = x % P.cfg.poolSize
  no_owner : ∀ x, ¬ P.pooled x → (n.ctxs x).ownerWorker = none ∧ (n.ctxs x).poolIdx = -1
  own_pool : ∀ c d, n.conns c = some d → P.pooled d.ctx → d.ctx / P.cfg.poolSize = d.worker
  free : ∀ w, ∀ idx ∈ (n.workers w).freeList, w < P.cfg.workerNum ∧ idx < P.cfg.poolSize ∧
    ∀ c d, n.conns c = some d → d.Live → d.ctx ≠ P.storage w idx
  free_nodup : ∀ w, (n.workers w).freeList.Nodup
  num_lt : ∀ w, ∀ f ∈ (n.workers w).queue, f.num < n.nextNum
  num_sorted : ∀ w, (n.workers w).queue.Pairwise fun f g => f.num < g.num
  add_fresh : ∀ w, ∀ f ∈ (n.workers w).queue, ∀ fd, f.job = .add fd →
    0 ≤ fd ∧ n.openFds fd = true ∧ ∀ c d, n.conns c = some d → d.Holds → d.fd ≠ fd
  add_inj : ∀ w, ∀ f ∈ (n.workers w).queue, ∀ w', ∀ f' ∈ (n.workers w').queue, ∀ fd,
    f.job = .add fd → f'.job = .add fd → w = w' ∧ f.num = f'.num
  send_owner : ∀ w, ∀ f ∈ (n.workers w).queue, ∀ fr, f.job = .send fr →
    (n.ctxs fr.ctx).ownerWorker = some w

variable {P : Params} {n : Net}

/-! ## Consequences -/

namespace Net.WF

theorem conn_of_connections (h : n.WF P) {w : ℕ} {fd : Int} {c : ℕ}
    (hc : (n.workers w).connections fd = some c) :
    ∃ d, n.conns c = some d ∧ d.worker = w ∧ d.fd = fd ∧ d.phase = .opened :=
  (h.connections w fd c).mp hc

theorem owner_eq {m : Net} (h : n.WF P) (h' : m.WF P) (x : ℕ) :
    (m.ctxs x).ownerWorker = (n.ctxs x).ownerWorker := by
  by_cases hx : P.pooled x
  · rw [(h.owner x hx).1, (h'.owner x hx).1]
  · rw [(h.no_owner x hx).1, (h'.no_owner x hx).1]

theorem storage_pooled {w : ℕ} {idx : ℕ} (hw : w < P.cfg.workerNum)
    (hi : idx < P.cfg.poolSize) : P.pooled (P.storage w idx) := by
  unfold Params.pooled Params.storage
  calc w * P.cfg.poolSize + idx < w * P.cfg.poolSize + P.cfg.poolSize := by omega
    _ = (w + 1) * P.cfg.poolSize := by rw [Nat.succ_mul]
    _ ≤ P.cfg.workerNum * P.cfg.poolSize := Nat.mul_le_mul_right _ hw

theorem storage_div {w : ℕ} {idx : ℕ} (hi : idx < P.cfg.poolSize) :
    P.storage w idx / P.cfg.poolSize = w := by
  unfold Params.storage
  rw [Nat.add_comm, Nat.add_mul_div_right _ _ (by omega), Nat.div_eq_of_lt hi, Nat.zero_add]

theorem storage_inj {w w' : ℕ} {i j : ℕ} (hi : i < P.cfg.poolSize)
    (hj : j < P.cfg.poolSize) (h : P.storage w i = P.storage w' j) : w = w' ∧ i = j := by
  have hw : w = w' := by rw [← storage_div (P := P) (w := w) hi, h, storage_div hj]
  subst hw
  unfold Params.storage at h
  exact ⟨rfl, by omega⟩

/-- **Routing.** A frame that a worker finds a connection for goes to the open connection that
holds its context. -/
theorem route_eq (h : n.WF P) {w : ℕ} {f : Frame} {c : ℕ} {d : Conn}
    (hb : (n.workers w).busy = none) (ho : (n.ctxs f.ctx).ownerWorker = some w)
    (hr : n.route w f = some (c, d)) :
    n.conns c = some d ∧ d.worker = w ∧ d.phase = .opened ∧ d.ctx = f.ctx := by
  simp only [Net.route] at hr
  split at hr
  · cases hr
  rename_i hfd
  simp only [Option.bind_eq_some_iff, Option.map_eq_some_iff, Prod.mk.injEq] at hr
  obtain ⟨c', hc', d', hd', rfl, rfl⟩ := hr
  obtain ⟨d'', hd'', hw, hfd', hph⟩ := h.conn_of_connections hc'
  obtain rfl : d' = d'' := by rw [hd'] at hd''; exact Option.some.inj hd''
  -- the connection that holds the context has the same descriptor
  obtain ⟨e, de, hde, hl, hx⟩ := h.fd_held f.ctx (by omega)
  have hefd : de.fd = d'.fd := by rw [hfd', ← h.ctx_fd e de hde hl, hx]
  by_cases hh : de.Holds
  · obtain rfl := h.fd_inj e de c' d' hde hd' hh (Conn.holds_of_opened hph) hefd
    rw [hd'] at hde
    obtain rfl := Option.some.inj hde
    exact ⟨hd', hw, hph, hx⟩
  · -- otherwise it is being closed by this very worker
    have hp : P.pooled f.ctx := by
      by_contra hp
      rw [(h.no_owner _ hp).1] at ho
      cases ho
    have hwe : de.worker = w := by
      have h1 := h.own_pool e de hde (hx ▸ hp)
      have h2 := (h.owner _ hp).1
      rw [ho, Option.some.injEq] at h2
      rw [← h1, hx, ← h2]
    have hcl : de.Closing := ⟨fun hop => hh (Conn.holds_of_opened hop), hl⟩
    have := (h.busy w e).mpr ⟨de, hde, hwe, hcl⟩
    rw [hb] at this
    cases this

end Net.WF

/-! ## Operations that touch only contexts or queues -/

namespace Net

theorem updWorker_apply (w w' : ℕ) (f : Worker → Worker) (n : Net) :
    (n.updWorker w f).workers w' = if w' = w then f (n.workers w) else n.workers w' := by
  simp only [updWorker, Function.update_apply]

theorem updCtx_apply (x y : ℕ) (f : ClientContext → ClientContext) (n : Net) :
    (n.updCtx x f).ctxs y = if y = x then f (n.ctxs x) else n.ctxs y := by
  simp only [updCtx, Function.update_apply]

theorem setConn_apply (c c' : ℕ) (v : Conn) (n : Net) :
    (n.setConn c v).conns c' = if c' = c then some v else n.conns c' := by
  simp only [setConn, Function.update_apply]

theorem mem_push {w w' : ℕ} {job : Job} {f : Functor} :
    f ∈ ((n.push w job).workers w').queue ↔
      f ∈ (n.workers w').queue ∨ (w' = w ∧ f = ⟨n.nextNum, job⟩) := by
  simp only [push, updWorker_apply, Worker.queue]
  split_ifs with hw
  · subst hw; simp [or_assoc]
  · simp [hw]

theorem push_connections (w w' : ℕ) (job : Job) :
    ((n.push w job).workers w').connections = (n.workers w').connections := by
  simp only [push, updWorker_apply]; split_ifs with hw <;> simp [hw]

theorem push_busy (w w' : ℕ) (job : Job) :
    ((n.push w job).workers w').busy = (n.workers w').busy := by
  simp only [push, updWorker_apply]; split_ifs with hw <;> simp [hw]

theorem push_freeList (w w' : ℕ) (job : Job) :
    ((n.push w job).workers w').freeList = (n.workers w').freeList := by
  simp only [push, updWorker_apply]; split_ifs with hw <;> simp [hw]

theorem push_queue (w : ℕ) (job : Job) :
    ((n.push w job).workers w).queue = (n.workers w).queue ++ [⟨n.nextNum, job⟩] := by
  simp [push, updWorker_apply, Worker.queue]

theorem push_queue_ne {w w' : ℕ} (h : w' ≠ w) (job : Job) :
    ((n.push w job).workers w').queue = (n.workers w').queue := by
  simp [push, updWorker_apply, Worker.queue, h]

@[simp] theorem init_queue (P : Params) (w : ℕ) : ((Net.init P).workers w).queue = [] := by
  simp only [init]
  split_ifs <;> rfl

theorem wf_init (P : Params) : (Net.init P).WF P where
  conn_lt _ _ h := by cases h
  fd_nonneg _ _ h := by cases h
  ctx_lt _ _ h := by cases h
  nextCtx_le := Nat.le_refl _
  ctx_fd _ _ h := by cases h
  ctx_inj _ _ _ _ h := by cases h
  fd_held x h := by simp only [init] at h; split_ifs at h <;> exact absurd rfl h
  fd_open _ _ h := by cases h
  fd_inj _ _ _ _ h := by cases h
  connections w fd c := by simp only [init]; split_ifs <;> simp
  busy w c := by simp only [init]; split_ifs <;> simp
  owner x hx := by simp [init, hx]
  no_owner x hx := by simp [init, hx]
  own_pool _ _ h := by cases h
  free w idx hi := by
    simp only [init] at hi
    split_ifs at hi with hw
    · exact ⟨hw, by simpa using hi, fun _ _ h => by cases h⟩
    · simp at hi
  free_nodup w := by
    simp only [init]
    split_ifs
    · exact List.nodup_reverse.mpr List.nodup_range
    · exact List.nodup_nil
  num_lt w f hf := by simp at hf
  num_sorted w := by simp
  add_fresh w f hf := by simp at hf
  add_inj w f hf := by simp at hf
  send_owner w f hf := by simp at hf

/-- A change of a context that keeps its descriptor, its owner and its place in the pool. -/
theorem WF.updCtx (h : n.WF P) (x : ℕ) (f : ClientContext → ClientContext)
    (hfd : (f (n.ctxs x)).fd = (n.ctxs x).fd)
    (ho : (f (n.ctxs x)).ownerWorker = (n.ctxs x).ownerWorker)
    (hp : (f (n.ctxs x)).poolIdx = (n.ctxs x).poolIdx) : (n.updCtx x f).WF P := by
  have kfd : ∀ y, ((n.updCtx x f).ctxs y).fd = (n.ctxs y).fd := fun y => by
    rw [updCtx_apply]; split_ifs with e <;> simp [e, hfd]
  have ko : ∀ y, ((n.updCtx x f).ctxs y).ownerWorker = (n.ctxs y).ownerWorker := fun y => by
    rw [updCtx_apply]; split_ifs with e <;> simp [e, ho]
  have kp : ∀ y, ((n.updCtx x f).ctxs y).poolIdx = (n.ctxs y).poolIdx := fun y => by
    rw [updCtx_apply]; split_ifs with e <;> simp [e, hp]
  exact { h with
    ctx_fd := fun c d hd hl => by rw [kfd]; exact h.ctx_fd c d hd hl
    fd_held := fun y hy => h.fd_held y (by rwa [kfd] at hy)
    owner := fun y hy => by rw [ko, kp]; exact h.owner y hy
    no_owner := fun y hy => by rw [ko, kp]; exact h.no_owner y hy
    send_owner := fun w g hg fr hfr => by rw [ko]; exact h.send_owner w g hg fr hfr }

/-- Queueing a functor, given what its job needs. -/
theorem WF.push (h : n.WF P) (w : ℕ) (job : Job)
    (hadd : ∀ fd, job = .add fd → 0 ≤ fd ∧ n.openFds fd = true ∧
      (∀ c d, n.conns c = some d → d.Holds → d.fd ≠ fd) ∧
      ∀ w, ∀ f ∈ (n.workers w).queue, f.job ≠ .add fd)
    (hsend : ∀ fr, job = .send fr → (n.ctxs fr.ctx).ownerWorker = some w) : (n.push w job).WF P :=
  { h with
    connections := fun w' fd c => by rw [push_connections]; exact h.connections w' fd c
    busy := fun w' c => by rw [push_busy]; exact h.busy w' c
    free := fun w' idx hi => by rw [push_freeList] at hi; exact h.free w' idx hi
    free_nodup := fun w' => by rw [push_freeList]; exact h.free_nodup w'
    num_lt := fun w' f hf => by
      change f.num < n.nextNum + 1
      rcases mem_push.mp hf with hf | ⟨-, rfl⟩
      · exact Nat.lt_succ_of_lt (h.num_lt w' f hf)
      · exact Nat.lt_succ_self _
    num_sorted := fun w' => by
      by_cases hw : w' = w
      · subst hw
        rw [push_queue, List.pairwise_append]
        refine ⟨h.num_sorted w', List.pairwise_singleton _ _, fun f hf g hg => ?_⟩
        rw [List.mem_singleton.mp hg]
        exact h.num_lt w' f hf
      · rw [push_queue_ne hw]; exact h.num_sorted w'
    add_fresh := fun w' f hf fd hfd => by
      rcases mem_push.mp hf with hf | ⟨-, rfl⟩
      · exact h.add_fresh w' f hf fd hfd
      · obtain ⟨h1, h2, h3, -⟩ := hadd fd hfd
        exact ⟨h1, h2, h3⟩
    add_inj := fun w₁ f₁ hf₁ w₂ f₂ hf₂ fd e₁ e₂ => by
      rcases mem_push.mp hf₁ with hf₁ | ⟨k₁, rfl⟩ <;> rcases mem_push.mp hf₂ with hf₂ | ⟨k₂, rfl⟩
      · exact h.add_inj w₁ f₁ hf₁ w₂ f₂ hf₂ fd e₁ e₂
      · exact absurd e₁ ((hadd fd e₂).2.2.2 w₁ f₁ hf₁)
      · exact absurd e₂ ((hadd fd e₁).2.2.2 w₂ f₂ hf₂)
      · exact ⟨k₁.trans k₂.symm, rfl⟩
    send_owner := fun w' f hf fr hfr => by
      rcases mem_push.mp hf with hf | ⟨rfl, rfl⟩
      · exact h.send_owner w' f hf fr hfr
      · exact hsend fr hfr }

/-- Running the functors of a worker down: its queue becomes a sublist. -/
theorem WF.shrink (h : n.WF P) (w : ℕ) (f : Worker → Worker)
    (hc : (f (n.workers w)).connections = (n.workers w).connections)
    (hb : (f (n.workers w)).busy = (n.workers w).busy)
    (hl : (f (n.workers w)).freeList = (n.workers w).freeList)
    (hq : (f (n.workers w)).queue.Sublist (n.workers w).queue) : (n.updWorker w f).WF P := by
  have kc : ∀ w', ((n.updWorker w f).workers w').connections = (n.workers w').connections :=
    fun w' => by rw [updWorker_apply]; split_ifs with e <;> simp [e, hc]
  have kb : ∀ w', ((n.updWorker w f).workers w').busy = (n.workers w').busy :=
    fun w' => by rw [updWorker_apply]; split_ifs with e <;> simp [e, hb]
  have kl : ∀ w', ((n.updWorker w f).workers w').freeList = (n.workers w').freeList :=
    fun w' => by rw [updWorker_apply]; split_ifs with e <;> simp [e, hl]
  have kq : ∀ w', ((n.updWorker w f).workers w').queue.Sublist (n.workers w').queue := fun w' => by
    rw [updWorker_apply]
    split_ifs with e
    · rw [e]; exact hq
    · exact List.Sublist.refl _
  exact { h with
    connections := fun w' fd c => by rw [kc]; exact h.connections w' fd c
    busy := fun w' c => by rw [kb]; exact h.busy w' c
    free := fun w' idx hi => by rw [kl] at hi; exact h.free w' idx hi
    free_nodup := fun w' => by rw [kl]; exact h.free_nodup w'
    num_lt := fun w' g hg => h.num_lt w' g ((kq w').mem hg)
    num_sorted := fun w' => (h.num_sorted w').sublist (kq w')
    add_fresh := fun w' g hg => h.add_fresh w' g ((kq w').mem hg)
    add_inj := fun w₁ g₁ h₁ w₂ g₂ h₂ => h.add_inj w₁ g₁ ((kq w₁).mem h₁) w₂ g₂ ((kq w₂).mem h₂)
    send_owner := fun w' g hg => h.send_owner w' g ((kq w').mem hg) }

theorem WF.openFd (h : n.WF P) (fd : Int) :
    { n with openFds := Function.update n.openFds fd true }.WF P := by
  have k : ∀ fd', n.openFds fd' = true → Function.update n.openFds fd true fd' = true := by
    intro fd' hfd'
    rw [Function.update_apply]
    split_ifs <;> trivial
  exact { h with
    fd_open := fun c d hd hh => k _ (h.fd_open c d hd hh)
    add_fresh := fun w f hf fd' hfd' =>
      ⟨(h.add_fresh w f hf fd' hfd').1, k _ (h.add_fresh w f hf fd' hfd').2.1,
        (h.add_fresh w f hf fd' hfd').2.2⟩ }

theorem WF.accept (h : n.WF P) (w : ℕ) (fd : Int) (h0 : 0 ≤ fd) (hfd : n.openFds fd = false) :
    { n.push w (.add fd) with openFds := Function.update n.openFds fd true }.WF P := by
  refine (h.openFd fd).push w (.add fd) (fun fd' e => ?_) (fun fr e => by cases e)
  obtain rfl : fd = fd' := by simpa using e
  refine ⟨h0, Function.update_self .., fun c d hd hh e => ?_, fun w' f hf e => ?_⟩
  · have := h.fd_open c d hd hh
    rw [e, hfd] at this
    cases this
  · have := (h.add_fresh w' f hf fd e).2.1
    rw [hfd] at this
    cases this

end Net

end AuraChat
