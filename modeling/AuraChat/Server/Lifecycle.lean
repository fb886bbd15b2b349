import AuraChat.Server.WellFormed

set_option autoImplicit false

/-!
# The life of a connection

Opening a connection, sending to it and closing it keep the network well formed.

* `WF.acquire`, `WF.attach`, **`WF.addConnection`**;
* `Fades`, `WF.fade`: what is kept when connections go on in their close;
* **`WF.forceCloseInLoop`**, `WF.setPhase`, `WF.closeDescriptor`, **`WF.releaseContext`**: the
  statements of a close.
-/

namespace AuraChat

open Interleave

variable {P : Params} {n : Net}

namespace Net

/-! ## Opening a connection -/

/-- A fresh context outside every pool. -/
theorem WF.freshContext (h : n.WF P) (hx : ¬ P.pooled n.nextCtx) :
    { n with ctxs := Function.update n.ctxs n.nextCtx {}, nextCtx := n.nextCtx + 1 }.WF P := by
  have kne : ∀ c d, n.conns c = some d → d.ctx ≠ n.nextCtx := fun c d hd e =>
    absurd (h.ctx_lt c d hd) (by rw [e]; exact Nat.lt_irrefl _)
  exact { h with
    ctx_lt := fun c d hd => Nat.lt_succ_of_lt (h.ctx_lt c d hd)
    nextCtx_le := Nat.le_succ_of_le h.nextCtx_le
    ctx_fd := fun c d hd hlive => by
      simp only [Function.update_of_ne (kne c d hd)]
      exact h.ctx_fd c d hd hlive
    fd_held := fun y hy => by
      simp only [Function.update_apply] at hy
      split_ifs at hy with e
      · exact absurd rfl hy
      · exact h.fd_held y hy
    owner := fun y hy => by
      simp only [Function.update_apply]
      rw [if_neg fun e : y = n.nextCtx => hx (e ▸ hy)]
      exact h.owner y hy
    no_owner := fun y hy => by
      simp only [Function.update_apply]
      split_ifs
      · exact ⟨rfl, rfl⟩
      · exact h.no_owner y hy
    send_owner := fun w' f hf fr hfr => by
      have ho := h.send_owner w' f hf fr hfr
      simp only [Function.update_apply]
      split_ifs with e
      · rw [e, (h.no_owner _ hx).1] at ho
        cases ho
      · exact ho }

/-- Taking the first index off the free list of worker `w`. -/
def takeFree (w : ℕ) (rest : List ℕ) (n : Net) : Net :=
  n.updWorker w fun k => { k with freeList := rest }

theorem takeFree_workers (w : ℕ) (rest : List ℕ) (w' : ℕ) :
    ((n.takeFree w rest).workers w').connections = (n.workers w').connections ∧
    ((n.takeFree w rest).workers w').busy = (n.workers w').busy ∧
    ((n.takeFree w rest).workers w').queue = (n.workers w').queue := by
  rw [takeFree, updWorker_apply]
  split_ifs with e <;> simp [e, Worker.queue]

theorem mem_takeFree {w idx : ℕ} {rest : List ℕ} (hl : (n.workers w).freeList = idx :: rest)
    {w' i : ℕ} (hi : i ∈ ((n.takeFree w rest).workers w').freeList) :
    i ∈ (n.workers w').freeList ∧ (w' = w → i ∈ rest) := by
  rw [takeFree, updWorker_apply] at hi
  split_ifs at hi with e
  · subst e
    exact ⟨by rw [hl]; exact List.mem_cons_of_mem _ hi, fun _ => hi⟩
  · exact ⟨hi, fun e' => absurd e' e⟩

theorem WF.takeFree (h : n.WF P) {w idx : ℕ} {rest : List ℕ}
    (hl : (n.workers w).freeList = idx :: rest) : (n.takeFree w rest).WF P := by
  have hnd := h.free_nodup w
  rw [hl, List.nodup_cons] at hnd
  exact { h with
    connections := fun w' fd c => by rw [(takeFree_workers w rest w').1]; exact h.connections w' fd c
    busy := fun w' c => by rw [(takeFree_workers w rest w').2.1]; exact h.busy w' c
    free := fun w' i hi => h.free w' i (mem_takeFree hl hi).1
    free_nodup := fun w' => by
      rw [Net.takeFree, updWorker_apply]
      split_ifs
      · exact hnd.2
      · exact h.free_nodup w'
    num_lt := fun w' f hf => h.num_lt w' f (by rwa [(takeFree_workers w rest w').2.2] at hf)
    num_sorted := fun w' => by rw [(takeFree_workers w rest w').2.2]; exact h.num_sorted w'
    add_fresh := fun w' f hf => h.add_fresh w' f (by rwa [(takeFree_workers w rest w').2.2] at hf)
    add_inj := fun w₁ f₁ h₁ w₂ f₂ h₂ =>
      h.add_inj w₁ f₁ (by rwa [(takeFree_workers w rest w₁).2.2] at h₁) w₂ f₂
        (by rwa [(takeFree_workers w rest w₂).2.2] at h₂)
    send_owner := fun w' f hf => h.send_owner w' f (by rwa [(takeFree_workers w rest w').2.2] at hf) }

/-- `ContextPool::acquire` hands out a context that no connection has. -/
theorem WF.acquire (h : n.WF P) (w : ℕ) :
    (n.acquire P w).2.WF P ∧ (n.acquire P w).1 < (n.acquire P w).2.nextCtx ∧
      (P.pooled (n.acquire P w).1 → (n.acquire P w).1 / P.cfg.poolSize = w) ∧
      (∀ c d, n.conns c = some d → d.Live → d.ctx ≠ (n.acquire P w).1) ∧
      ∀ w', ∀ idx ∈ ((n.acquire P w).2.workers w').freeList,
        P.storage w' idx ≠ (n.acquire P w).1 := by
  simp only [Net.acquire]
  split
  · -- the pool is empty
    have hx : ¬ P.pooled n.nextCtx := fun hp => absurd h.nextCtx_le (Nat.not_le_of_lt hp)
    refine ⟨h.freshContext hx, Nat.lt_succ_self _, fun hp => absurd hp hx,
      fun c d hd _ e => absurd (h.ctx_lt c d hd) (by rw [e]; exact Nat.lt_irrefl _),
      fun w' idx hi e => ?_⟩
    obtain ⟨h1, h2, -⟩ := h.free w' idx hi
    have hp : P.pooled (P.storage w' idx) := WF.storage_pooled h1 h2
    rw [e] at hp
    exact hx hp
  · -- the last free context of the pool
    rename_i idx rest hl
    have hmem : idx ∈ (n.workers w).freeList := by rw [hl]; exact List.mem_cons_self
    obtain ⟨hw, hi, hfree⟩ := h.free w idx hmem
    refine ⟨h.takeFree hl, Nat.lt_of_lt_of_le (WF.storage_pooled hw hi) h.nextCtx_le,
      fun _ => WF.storage_div hi, hfree, fun w' i hi' e => ?_⟩
    obtain ⟨hi₁, hi₂⟩ := mem_takeFree hl hi'
    obtain ⟨rfl, rfl⟩ := WF.storage_inj (h.free w' i hi₁).2.1 hi e
    have hnd := h.free_nodup w'
    rw [hl, List.nodup_cons] at hnd
    exact hnd.1 (hi₂ rfl)

/-- A pool hands out one of its own contexts exactly if it has a free one. -/
theorem WF.acquire_pooled (h : n.WF P) (w : ℕ) :
    P.pooled (n.acquire P w).1 ↔ (n.workers w).freeList ≠ [] := by
  cases hl : (n.workers w).freeList with
  | nil =>
      simp only [Net.acquire, hl]
      exact ⟨fun hp => absurd h.nextCtx_le (Nat.not_le_of_lt hp), fun hne => absurd rfl hne⟩
  | cons idx rest =>
      obtain ⟨hw, hlt, -⟩ := h.free w idx (by rw [hl]; exact List.mem_cons_self)
      simp only [Net.acquire, hl]
      exact ⟨fun _ => List.cons_ne_nil _ _, fun _ => WF.storage_pooled hw hlt⟩

/-- The constructor of `TcpConnection` on a context that no connection has. -/
def attach (w : ℕ) (fd : Int) (x : ℕ) (n : Net) : Net :=
  { ((n.updCtx x fun c => { c with fd := fd }).setConn n.nextConn ⟨w, fd, x, .opened⟩).updWorker w
      fun k => { k with connections := Function.update k.connections fd (some n.nextConn) } with
    nextConn := n.nextConn + 1 }

theorem acquire_nextConn (P : Params) (w : ℕ) (n : Net) :
    (n.acquire P w).2.nextConn = n.nextConn := by
  simp only [Net.acquire]; split <;> rfl

theorem acquire_conns (P : Params) (w : ℕ) (n : Net) : (n.acquire P w).2.conns = n.conns := by
  simp only [Net.acquire]; split <;> rfl

theorem acquire_queue (P : Params) (w w' : ℕ) (n : Net) :
    ((n.acquire P w).2.workers w').queue = (n.workers w').queue := by
  simp only [Net.acquire]
  split
  · rfl
  · rw [updWorker_apply]
    split_ifs with e <;> simp [e, Worker.queue]

theorem addConnection_eq (P : Params) (w : ℕ) (fd : Int) (n : Net) :
    n.addConnection P w fd = (n.acquire P w).2.attach w fd (n.acquire P w).1 := rfl

theorem attach_conns (w : ℕ) (fd : Int) (x c : ℕ) :
    (n.attach w fd x).conns c = if c = n.nextConn then some ⟨w, fd, x, .opened⟩ else n.conns c :=
  setConn_apply ..

theorem attach_ctxs (w : ℕ) (fd : Int) (x y : ℕ) :
    (n.attach w fd x).ctxs y = if y = x then { n.ctxs x with fd := fd } else n.ctxs y := by
  simp only [attach, updWorker, setConn, updCtx, Function.update_apply]

theorem attach_workers (w : ℕ) (fd : Int) (x w' : ℕ) :
    (n.attach w fd x).workers w' = if w' = w then { n.workers w with
      connections := Function.update (n.workers w).connections fd (some n.nextConn) }
    else n.workers w' := by
  simp only [attach, updWorker, setConn, updCtx, Function.update_apply]

theorem attach_busy (w : ℕ) (fd : Int) (x w' : ℕ) :
    ((n.attach w fd x).workers w').busy = (n.workers w').busy := by
  rw [attach_workers]
  split_ifs with e <;> simp [e]

theorem attach_freeList (w : ℕ) (fd : Int) (x w' : ℕ) :
    ((n.attach w fd x).workers w').freeList = (n.workers w').freeList := by
  rw [attach_workers]
  split_ifs with e <;> simp [e]

theorem attach_queue (w : ℕ) (fd : Int) (x w' : ℕ) :
    ((n.attach w fd x).workers w').queue = (n.workers w').queue := by
  rw [attach_workers]
  split_ifs with e <;> simp [e, Worker.queue]

theorem attach_owner (w : ℕ) (fd : Int) (x y : ℕ) :
    ((n.attach w fd x).ctxs y).ownerWorker = (n.ctxs y).ownerWorker ∧
      ((n.attach w fd x).ctxs y).poolIdx = (n.ctxs y).poolIdx := by
  rw [attach_ctxs]
  split_ifs with e <;> simp [e]

theorem attach_conns_new (w : ℕ) (fd : Int) (x : ℕ) :
    (n.attach w fd x).conns n.nextConn = some ⟨w, fd, x, .opened⟩ := by
  rw [attach_conns, if_pos rfl]

theorem WF.attach_conns_old (h : n.WF P) (w : ℕ) (fd : Int) (x : ℕ) {c : ℕ} {d : Conn}
    (hd : n.conns c = some d) : (n.attach w fd x).conns c = some d := by
  have hc : c ≠ n.nextConn := Nat.ne_of_lt (h.conn_lt c d hd)
  rw [attach_conns, if_neg hc]
  exact hd

theorem attach_cases {w : ℕ} {fd : Int} {x c : ℕ} {d : Conn}
    (hd : (n.attach w fd x).conns c = some d) :
    (c = n.nextConn ∧ d = ⟨w, fd, x, .opened⟩) ∨ (n.conns c = some d ∧ c ≠ n.nextConn) := by
  rw [attach_conns] at hd
  split_ifs at hd with e
  · exact .inl ⟨e, (Option.some.inj hd).symm⟩
  · exact .inr ⟨hd, e⟩

/-- `connections_` holds exactly the open connections after an attach. -/
theorem WF.attach_connections (h : n.WF P) (w : ℕ) (fd : Int) (x : ℕ)
    (hfd : ∀ c d, n.conns c = some d → d.Holds → d.fd ≠ fd) (w' : ℕ) (fd' : Int) (c : ℕ) :
    ((n.attach w fd x).workers w').connections fd' = some c ↔
      ∃ d, (n.attach w fd x).conns c = some d ∧ d.worker = w' ∧ d.fd = fd' ∧ d.phase = .opened := by
  constructor
  · intro hc
    rw [attach_workers] at hc
    split_ifs at hc with hw
    · simp only [Function.update_apply] at hc
      split_ifs at hc with hf
      · obtain rfl := Option.some.inj hc
        exact ⟨_, attach_conns_new w fd x, hw.symm, hf.symm, rfl⟩
      · obtain ⟨d, hd, hw₁, hf₁, hp⟩ := h.conn_of_connections hc
        exact ⟨d, h.attach_conns_old w fd x hd, by rw [hw₁, hw], hf₁, hp⟩
    · obtain ⟨d, hd, hw₁, hf₁, hp⟩ := h.conn_of_connections hc
      exact ⟨d, h.attach_conns_old w fd x hd, hw₁, hf₁, hp⟩
  · rintro ⟨d, hd, rfl, rfl, hp⟩
    rcases attach_cases hd with ⟨rfl, rfl⟩ | ⟨hd, -⟩
    · rw [attach_workers, if_pos rfl]
      exact Function.update_self ..
    · have hc := (h.connections d.worker d.fd c).mpr ⟨d, hd, rfl, rfl, hp⟩
      rw [attach_workers]
      split_ifs with hw
      · simp only
        rw [Function.update_of_ne (hfd c d hd (Conn.holds_of_opened hp)), ← hw]
        exact hc
      · exact hc

theorem WF.attach (h : n.WF P) (w : ℕ) (fd : Int) (x : ℕ) (h0 : 0 ≤ fd)
    (hopen : n.openFds fd = true) (hfd : ∀ c d, n.conns c = some d → d.Holds → d.fd ≠ fd)
    (hq : ∀ w, ∀ f ∈ (n.workers w).queue, f.job ≠ .add fd) (hlt : x < n.nextCtx)
    (hpool : P.pooled x → x / P.cfg.poolSize = w)
    (hx : ∀ c d, n.conns c = some d → d.Live → d.ctx ≠ x)
    (hfree : ∀ w', ∀ idx ∈ (n.workers w').freeList, P.storage w' idx ≠ x) :
    (n.attach w fd x).WF P := by
  constructor
  case conn_lt =>
    intro c d hd
    rcases attach_cases hd with ⟨rfl, -⟩ | ⟨hd, -⟩
    · exact Nat.lt_succ_self _
    · exact Nat.lt_succ_of_lt (h.conn_lt c d hd)
  case fd_nonneg =>
    intro c d hd
    rcases attach_cases hd with ⟨-, rfl⟩ | ⟨hd, -⟩
    · exact h0
    · exact h.fd_nonneg c d hd
  case ctx_lt =>
    intro c d hd
    rcases attach_cases hd with ⟨-, rfl⟩ | ⟨hd, -⟩
    · exact hlt
    · exact h.ctx_lt c d hd
  case nextCtx_le => exact h.nextCtx_le
  case ctx_fd =>
    intro c d hd hl
    rcases attach_cases hd with ⟨-, rfl⟩ | ⟨hd, -⟩
    · rw [attach_ctxs, if_pos rfl]
    · rw [attach_ctxs, if_neg (hx c d hd hl)]
      exact h.ctx_fd c d hd hl
  case ctx_inj =>
    intro c d c' d' hd hd' hl hl' e
    rcases attach_cases hd with ⟨rfl, rfl⟩ | ⟨hd, -⟩ <;>
      rcases attach_cases hd' with ⟨rfl, rfl⟩ | ⟨hd', -⟩
    · rfl
    · exact absurd e.symm (hx c' d' hd' hl')
    · exact absurd e (hx c d hd hl)
    · exact h.ctx_inj c d c' d' hd hd' hl hl' e
  case fd_held =>
    intro y hy
    rw [attach_ctxs] at hy
    split_ifs at hy with e
    · exact ⟨n.nextConn, _, attach_conns_new w fd x, by simp [Conn.Live], e.symm⟩
    · obtain ⟨c, d, hd, hl, hxy⟩ := h.fd_held y hy
      exact ⟨c, d, h.attach_conns_old w fd x hd, hl, hxy⟩
  case fd_open =>
    intro c d hd hh
    rcases attach_cases hd with ⟨-, rfl⟩ | ⟨hd, -⟩
    · exact hopen
    · exact h.fd_open c d hd hh
  case fd_inj =>
    intro c d c' d' hd hd' hh hh' e
    rcases attach_cases hd with ⟨rfl, rfl⟩ | ⟨hd, -⟩ <;>
      rcases attach_cases hd' with ⟨rfl, rfl⟩ | ⟨hd', -⟩
    · rfl
    · exact absurd e.symm (hfd c' d' hd' hh')
    · exact absurd e (hfd c d hd hh)
    · exact h.fd_inj c d c' d' hd hd' hh hh' e
  case connections => exact fun w' fd' c => h.attach_connections w fd x hfd w' fd' c
  case busy =>
    intro w' c
    rw [attach_busy, h.busy w' c]
    constructor
    · rintro ⟨d, hd, hw, hcl⟩
      exact ⟨d, h.attach_conns_old w fd x hd, hw, hcl⟩
    · rintro ⟨d, hd, hw, hcl⟩
      rcases attach_cases hd with ⟨-, rfl⟩ | ⟨hd, -⟩
      · exact absurd rfl hcl.1
      · exact ⟨d, hd, hw, hcl⟩
  case owner =>
    intro y hy
    rw [(attach_owner w fd x y).1, (attach_owner w fd x y).2]
    exact h.owner y hy
  case no_owner =>
    intro y hy
    rw [(attach_owner w fd x y).1, (attach_owner w fd x y).2]
    exact h.no_owner y hy
  case own_pool =>
    intro c d hd hp
    rcases attach_cases hd with ⟨-, rfl⟩ | ⟨hd, -⟩
    · exact hpool hp
    · exact h.own_pool c d hd hp
  case free =>
    intro w' idx hi
    rw [attach_freeList] at hi
    obtain ⟨h1, h2, h3⟩ := h.free w' idx hi
    refine ⟨h1, h2, fun c d hd hl => ?_⟩
    rcases attach_cases hd with ⟨-, rfl⟩ | ⟨hd, -⟩
    · exact (hfree w' idx hi).symm
    · exact h3 c d hd hl
  case free_nodup => intro w'; rw [attach_freeList]; exact h.free_nodup w'
  case num_lt => intro w' f hf; rw [attach_queue] at hf; exact h.num_lt w' f hf
  case num_sorted => intro w'; rw [attach_queue]; exact h.num_sorted w'
  case add_fresh =>
    intro w' f hf fd' e
    rw [attach_queue] at hf
    obtain ⟨h1, h2, h3⟩ := h.add_fresh w' f hf fd' e
    refine ⟨h1, h2, fun c d hd hh => ?_⟩
    rcases attach_cases hd with ⟨-, rfl⟩ | ⟨hd, -⟩
    · rintro rfl; exact hq w' f hf e
    · exact h3 c d hd hh
  case add_inj =>
    intro w₁ f₁ h₁ w₂ f₂ h₂
    rw [attach_queue] at h₁ h₂
    exact h.add_inj w₁ f₁ h₁ w₂ f₂ h₂
  case send_owner =>
    intro w' f hf fr e
    rw [attach_queue] at hf
    rw [(attach_owner w fd x _).1]
    exact h.send_owner w' f hf fr e

/-- **Running the functor that adds a connection.** -/
theorem WF.addConnection (h : n.WF P) (w : ℕ) (fd : Int) (h0 : 0 ≤ fd)
    (hopen : n.openFds fd = true) (hfd : ∀ c d, n.conns c = some d → d.Holds → d.fd ≠ fd)
    (hq : ∀ w, ∀ f ∈ (n.workers w).queue, f.job ≠ .add fd) : (n.addConnection P w fd).WF P := by
  obtain ⟨ha, hlt, hpool, hx, hfree⟩ := h.acquire w
  have ko : (n.acquire P w).2.openFds = n.openFds := by simp only [Net.acquire]; split <;> rfl
  rw [addConnection_eq]
  refine ha.attach w fd _ h0 (by rw [ko]; exact hopen) ?_ ?_ hlt hpool ?_ hfree
  · rw [acquire_conns]; exact hfd
  · intro w' f hf
    rw [acquire_queue] at hf
    exact hq w' f hf
  · rw [acquire_conns]; exact hx

/-! ## Sending -/

/-- **Running the functor that sends a packet.** -/
theorem WF.sendPacketInLoop (h : n.WF P) (w : ℕ) (f : Frame) : (n.sendPacketInLoop P w f).WF P := by
  simp only [Net.sendPacketInLoop]
  split
  · exact h
  split_ifs
  · exact h
  · exact h.updCtx _ _ rfl rfl rfl
  · exact h.push w _ (fun _ e => by cases e) fun _ e => by cases e

/-! ## Closing a connection -/

theorem setConn_cases {c c' : ℕ} {v d : Conn} (hd : (n.setConn c v).conns c' = some d) :
    (c' = c ∧ d = v) ∨ (c' ≠ c ∧ n.conns c' = some d) := by
  rw [setConn_apply] at hd
  split_ifs at hd with e
  · exact .inl ⟨e, (Option.some.inj hd).symm⟩
  · exact .inr ⟨e, hd⟩

theorem setConn_self {c : ℕ} (v : Conn) : (n.setConn c v).conns c = some v := by
  rw [setConn_apply, if_pos rfl]

theorem setConn_other {c c' : ℕ} {v d : Conn} (hne : c' ≠ c) (hd : n.conns c' = some d) :
    (n.setConn c v).conns c' = some d := by
  rw [setConn_apply, if_neg hne]
  exact hd

/-- The connections of `m` are those of `n`, some of them further on in their close; the queues and
the owners of contexts have not changed. -/
structure Fades (n m : Net) : Prop where
  conns : ∀ c d', m.conns c = some d' → ∃ d, n.conns c = some d ∧ d.ctx = d'.ctx ∧ d.fd = d'.fd ∧
    d.worker = d'.worker ∧ (d'.Live → d.Live) ∧ (d'.Holds → d.Holds)
  nextConn : m.nextConn = n.nextConn
  nextCtx : m.nextCtx = n.nextCtx
  nextNum : m.nextNum = n.nextNum
  openFds : m.openFds = n.openFds
  queue : ∀ w, (m.workers w).queue = (n.workers w).queue
  owner : ∀ x, (m.ctxs x).ownerWorker = (n.ctxs x).ownerWorker ∧
    (m.ctxs x).poolIdx = (n.ctxs x).poolIdx

/-- What fading connections keep. The rest is about the descriptors of the contexts, the tables of
the workers and the free lists. -/
theorem WF.fade (h : n.WF P) {m : Net} (hf : Fades n m)
    (hfd : ∀ c d, m.conns c = some d → d.Live → (m.ctxs d.ctx).fd = (n.ctxs d.ctx).fd)
    (hheld : ∀ x, (m.ctxs x).fd ≠ -1 → ∃ c d, m.conns c = some d ∧ d.Live ∧ d.ctx = x)
    (hconn : ∀ w fd c, (m.workers w).connections fd = some c ↔
      ∃ d, m.conns c = some d ∧ d.worker = w ∧ d.fd = fd ∧ d.phase = .opened)
    (hbusy : ∀ w c, (m.workers w).busy = some c ↔ ∃ d, m.conns c = some d ∧ d.worker = w ∧ d.Closing)
    (hfree : ∀ w, ∀ idx ∈ (m.workers w).freeList, idx ∈ (n.workers w).freeList ∨
      (w < P.cfg.workerNum ∧ idx < P.cfg.poolSize ∧
        ∀ c d, m.conns c = some d → d.Live → d.ctx ≠ P.storage w idx))
    (hnodup : ∀ w, (m.workers w).freeList.Nodup) : m.WF P where
  conn_lt c d' hd' := by
    obtain ⟨d, hd, -⟩ := hf.conns c d' hd'
    rw [hf.nextConn]
    exact h.conn_lt c d hd
  fd_nonneg c d' hd' := by
    obtain ⟨d, hd, -, e, -⟩ := hf.conns c d' hd'
    exact e ▸ h.fd_nonneg c d hd
  ctx_lt c d' hd' := by
    obtain ⟨d, hd, e, -⟩ := hf.conns c d' hd'
    rw [hf.nextCtx]
    exact e ▸ h.ctx_lt c d hd
  nextCtx_le := by rw [hf.nextCtx]; exact h.nextCtx_le
  ctx_fd c d' hd' hl' := by
    obtain ⟨d, hd, e₁, e₂, -, hl, -⟩ := hf.conns c d' hd'
    rw [hfd c d' hd' hl', ← e₁, ← e₂]
    exact h.ctx_fd c d hd (hl hl')
  ctx_inj c₁ d₁' c₂ d₂' hd₁' hd₂' hl₁' hl₂' e := by
    obtain ⟨d₁, hd₁, e₁, -, -, hl₁, -⟩ := hf.conns c₁ d₁' hd₁'
    obtain ⟨d₂, hd₂, e₂, -, -, hl₂, -⟩ := hf.conns c₂ d₂' hd₂'
    exact h.ctx_inj c₁ d₁ c₂ d₂ hd₁ hd₂ (hl₁ hl₁') (hl₂ hl₂') (by rw [e₁, e₂, e])
  fd_held := hheld
  fd_open c d' hd' hh' := by
    obtain ⟨d, hd, -, e, -, -, hh⟩ := hf.conns c d' hd'
    rw [hf.openFds]
    exact e ▸ h.fd_open c d hd (hh hh')
  fd_inj c₁ d₁' c₂ d₂' hd₁' hd₂' hh₁' hh₂' e := by
    obtain ⟨d₁, hd₁, -, e₁, -, -, hh₁⟩ := hf.conns c₁ d₁' hd₁'
    obtain ⟨d₂, hd₂, -, e₂, -, -, hh₂⟩ := hf.conns c₂ d₂' hd₂'
    exact h.fd_inj c₁ d₁ c₂ d₂ hd₁ hd₂ (hh₁ hh₁') (hh₂ hh₂') (by rw [e₁, e₂, e])
  connections := hconn
  busy := hbusy
  owner x hx := by rw [(hf.owner x).1, (hf.owner x).2]; exact h.owner x hx
  no_owner x hx := by rw [(hf.owner x).1, (hf.owner x).2]; exact h.no_owner x hx
  own_pool c d' hd' hp := by
    obtain ⟨d, hd, e₁, -, e₂, -⟩ := hf.conns c d' hd'
    rw [← e₁, ← e₂]
    exact h.own_pool c d hd (e₁ ▸ hp)
  free w idx hi := by
    rcases hfree w idx hi with hi | hi
    · obtain ⟨h1, h2, h3⟩ := h.free w idx hi
      refine ⟨h1, h2, fun c d' hd' hl' => ?_⟩
      obtain ⟨d, hd, e, -, -, hl, -⟩ := hf.conns c d' hd'
      exact e ▸ h3 c d hd (hl hl')
    · exact hi
  free_nodup := hnodup
  num_lt w f hq := by rw [hf.queue] at hq; rw [hf.nextNum]; exact h.num_lt w f hq
  num_sorted w := by rw [hf.queue]; exact h.num_sorted w
  add_fresh w f hq fd hj := by
    rw [hf.queue] at hq
    obtain ⟨h1, h2, h3⟩ := h.add_fresh w f hq fd hj
    refine ⟨h1, by rw [hf.openFds]; exact h2, fun c d' hd' hh' => ?_⟩
    obtain ⟨d, hd, -, e, -, -, hh⟩ := hf.conns c d' hd'
    exact e ▸ h3 c d hd (hh hh')
  add_inj w₁ f₁ h₁ w₂ f₂ h₂ := by
    rw [hf.queue] at h₁ h₂
    exact h.add_inj w₁ f₁ h₁ w₂ f₂ h₂
  send_owner w f hq fr hj := by
    rw [hf.queue] at hq
    rw [(hf.owner fr.ctx).1]
    exact h.send_owner w f hq fr hj

theorem WF.held_setConn (h : n.WF P) {c : ℕ} {d : Conn} (hd : n.conns c = some d) (ph : Phase)
    (hl : ({ d with phase := ph } : Conn).Live) (x : ℕ) (hx : (n.ctxs x).fd ≠ -1) :
    ∃ c' d', (n.setConn c { d with phase := ph }).conns c' = some d' ∧ d'.Live ∧ d'.ctx = x := by
  obtain ⟨c', e, he, hl', hex⟩ := h.fd_held x hx
  by_cases hc : c' = c
  · subst hc
    rw [hd] at he
    obtain rfl := Option.some.inj he
    exact ⟨c', _, setConn_self _, hl, hex⟩
  · exact ⟨c', e, setConn_other hc he, hl', hex⟩

theorem setConn_fades {c : ℕ} {d : Conn} (hd : n.conns c = some d) (ph : Phase) (hl : d.Live)
    (hh : ({ d with phase := ph } : Conn).Holds → d.Holds) :
    Fades n (n.setConn c { d with phase := ph }) := by
  refine ⟨fun c' d' hd' => ?_, rfl, rfl, rfl, rfl, fun _ => rfl, fun _ => ⟨rfl, rfl⟩⟩
  rcases setConn_cases hd' with ⟨rfl, rfl⟩ | ⟨-, hd'⟩
  · exact ⟨d, hd, rfl, rfl, rfl, fun _ => hl, hh⟩
  · exact ⟨d', hd', rfl, rfl, rfl, id, id⟩

/-- Moving a connection on inside `close_impl`: `hh` says that it gets no descriptor back. -/
theorem WF.setPhase (h : n.WF P) {c : ℕ} {d : Conn} (hd : n.conns c = some d) (hcl : d.Closing)
    (ph : Phase) (hcl' : ({ d with phase := ph } : Conn).Closing)
    (hh : ({ d with phase := ph } : Conn).Holds → d.Holds) :
    (n.setConn c { d with phase := ph }).WF P := by
  refine h.fade (setConn_fades hd ph hcl.live hh) (fun _ _ _ _ => rfl)
    (h.held_setConn hd ph hcl'.live) ?connections ?busy (fun _ _ hi => .inl hi) h.free_nodup
  case connections =>
    intro w fd c'
    refine (h.connections w fd c').trans ⟨?_, ?_⟩
    · rintro ⟨e, he, hw, hfd, hp⟩
      refine ⟨e, setConn_other ?_ he, hw, hfd, hp⟩
      rintro rfl
      rw [hd] at he
      obtain rfl := Option.some.inj he
      exact hcl.1 hp
    · rintro ⟨d', hd', hw, hfd, hp⟩
      rcases setConn_cases hd' with ⟨-, rfl⟩ | ⟨-, hd'⟩
      · exact absurd hp hcl'.1
      · exact ⟨d', hd', hw, hfd, hp⟩
  case busy =>
    intro w c'
    refine (h.busy w c').trans ⟨?_, ?_⟩
    · rintro ⟨e, he, hw, hc⟩
      by_cases hcc : c' = c
      · subst hcc
        rw [hd] at he
        obtain rfl := Option.some.inj he
        exact ⟨_, setConn_self _, hw, hcl'⟩
      · exact ⟨e, setConn_other hcc he, hw, hc⟩
    · rintro ⟨d', hd', hw, hc⟩
      rcases setConn_cases hd' with ⟨rfl, rfl⟩ | ⟨-, hd'⟩
      · exact ⟨d, hd, hw, hcl⟩
      · exact ⟨d', hd', hw, hc⟩

/-- **`::close(fd_)`.** The descriptor was held by this connection alone. -/
theorem WF.closeDescriptor (h : n.WF P) {c : ℕ} {d : Conn} (hd : n.conns c = some d)
    (hph : d.phase = .closeFd) : (n.closeDescriptor c d).WF P := by
  have hcl : d.Closing := by simp [Conn.Closing, hph]
  have hh : d.Holds := by simp [Conn.Holds, hph]
  have hw := h.setPhase hd hcl .release (by simp [Conn.Closing]) fun hr => absurd rfl hr.2
  have other : ∀ c' d', (n.setConn c { d with phase := .release }).conns c' = some d' → d'.Holds →
      d'.fd ≠ d.fd := by
    intro c' d' hd' hh' e
    rcases setConn_cases hd' with ⟨-, rfl⟩ | ⟨hne, hd'⟩
    · exact hh'.2 rfl
    · exact hne (h.fd_inj c' d' c d hd' hd hh' hh e)
  exact { hw with
    fd_open := fun c' d' hd' hh' => by
      change Function.update n.openFds d.fd false d'.fd = true
      rw [Function.update_of_ne (other c' d' hd' hh')]
      exact hw.fd_open c' d' hd' hh'
    add_fresh := fun w f hf fd hfd => by
      obtain ⟨h1, h2, h3⟩ := hw.add_fresh w f hf fd hfd
      have hne : fd ≠ d.fd := fun e => (h.add_fresh w f hf fd hfd).2.2 c d hd hh e.symm
      refine ⟨h1, ?_, h3⟩
      change Function.update n.openFds d.fd false fd = true
      rw [Function.update_of_ne hne]
      exact h2 }

theorem releaseContext_conns (c c' : ℕ) (d : Conn) :
    (n.releaseContext c d).conns c' =
      if c' = c then some { d with phase := .closed } else n.conns c' := by
  simp only [releaseContext]; split_ifs <;> simp [updCtx, updWorker, setConn, *]

theorem releaseContext_workers (c : ℕ) (d : Conn) (w : ℕ) :
    ((n.releaseContext c d).workers w).connections = (n.workers w).connections ∧
    ((n.releaseContext c d).workers w).queue = (n.workers w).queue ∧
    ((n.releaseContext c d).workers w).busy = if w = d.worker then none else (n.workers w).busy := by
  simp only [releaseContext]
  split_ifs with h1 h2 <;> simp [updCtx, updWorker, setConn, Worker.queue, *]

theorem releaseContext_ctxs (c : ℕ) (d : Conn) (x : ℕ) :
    ((n.releaseContext c d).ctxs x).fd = (if x = d.ctx then -1 else (n.ctxs x).fd) ∧
    ((n.releaseContext c d).ctxs x).ownerWorker = (n.ctxs x).ownerWorker ∧
    ((n.releaseContext c d).ctxs x).poolIdx = (n.ctxs x).poolIdx := by
  simp only [releaseContext]
  split_ifs with h1 h2 <;>
    simp [updCtx, updWorker, setConn, ClientContext.reset, *]

theorem releaseContext_static (c : ℕ) (d : Conn) :
    (n.releaseContext c d).nextConn = n.nextConn ∧ (n.releaseContext c d).nextCtx = n.nextCtx ∧
    (n.releaseContext c d).nextNum = n.nextNum ∧ (n.releaseContext c d).openFds = n.openFds := by
  simp only [releaseContext]; split_ifs <;> exact ⟨rfl, rfl, rfl, rfl⟩

theorem mem_releaseContext_freeList {c : ℕ} {d : Conn} {w idx : ℕ} :
    idx ∈ ((n.releaseContext c d).workers w).freeList ↔ idx ∈ (n.workers w).freeList ∨
      (w = d.worker ∧ (n.ctxs d.ctx).poolIdx ≠ -1 ∧ idx = (n.ctxs d.ctx).poolIdx.toNat) := by
  simp only [releaseContext]
  by_cases hw : w = d.worker <;> split_ifs with h1 <;>
    simp_all [updCtx, updWorker, setConn, or_comm]

/-- The index that a pooled context keeps is its own in the pool of its connection's worker. -/
theorem WF.storage_poolIdx (h : n.WF P) {c : ℕ} {d : Conn} (hd : n.conns c = some d)
    (hne : (n.ctxs d.ctx).poolIdx ≠ -1) :
    d.worker < P.cfg.workerNum ∧ (n.ctxs d.ctx).poolIdx.toNat < P.cfg.poolSize ∧
      P.storage d.worker (n.ctxs d.ctx).poolIdx.toNat = d.ctx := by
  have hp : P.pooled d.ctx := by
    by_contra hp
    exact hne (h.no_owner _ hp).2
  have hlt : d.ctx < P.cfg.workerNum * P.cfg.poolSize := hp
  have hpos : 0 < P.cfg.poolSize := by
    rcases Nat.eq_zero_or_pos P.cfg.poolSize with h0 | h0
    · rw [h0] at hlt; omega
    · exact h0
  have hidx : (n.ctxs d.ctx).poolIdx.toNat = d.ctx % P.cfg.poolSize := by
    rw [(h.owner _ hp).2]; omega
  refine ⟨?_, by rw [hidx]; exact Nat.mod_lt _ hpos, ?_⟩
  · rw [← h.own_pool c d hd hp]
    exact Nat.div_lt_of_lt_mul (by rwa [Nat.mul_comm] at hlt)
  · rw [hidx, Params.storage, ← h.own_pool c d hd hp, Nat.mul_comm]
    exact Nat.div_add_mod ..

/-- **The end of `close_impl`**: the context goes back to its pool. -/
theorem WF.releaseContext (h : n.WF P) {c : ℕ} {d : Conn} (hd : n.conns c = some d)
    (hph : d.phase = .release) : (n.releaseContext c d).WF P := by
  have hcl : d.Closing := by simp [Conn.Closing, hph]
  -- the connections that are still live, and those that are not
  have back : ∀ {c' d'}, (n.releaseContext c d).conns c' = some d' →
      (c' = c ∧ d' = { d with phase := .closed }) ∨ (c' ≠ c ∧ n.conns c' = some d') := by
    intro c' d' hd'
    rw [releaseContext_conns] at hd'
    split_ifs at hd' with e
    · exact .inl ⟨e, (Option.some.inj hd').symm⟩
    · exact .inr ⟨e, hd'⟩
  have old : ∀ {c' d'}, (n.releaseContext c d).conns c' = some d' → d'.Live →
      c' ≠ c ∧ n.conns c' = some d' ∧ d'.ctx ≠ d.ctx := by
    intro c' d' hd' hl
    rcases back hd' with ⟨-, rfl⟩ | ⟨hne, hd'⟩
    · exact absurd rfl hl
    · exact ⟨hne, hd', fun e => hne (h.ctx_inj c' d' c d hd' hd hl hcl.live e)⟩
  have forth : ∀ {c' d'}, n.conns c' = some d' → c' ≠ c →
      (n.releaseContext c d).conns c' = some d' := by
    intro c' d' hd' hne
    rw [releaseContext_conns, if_neg hne]
    exact hd'
  refine h.fade ⟨?conns, (releaseContext_static c d).1, (releaseContext_static c d).2.1,
    (releaseContext_static c d).2.2.1, (releaseContext_static c d).2.2.2,
    fun w => (releaseContext_workers c d w).2.1, fun x => (releaseContext_ctxs c d x).2⟩
    ?fd ?held ?connections ?busy ?free ?nodup
  case conns =>
    intro c' d' hd'
    rcases back hd' with ⟨rfl, rfl⟩ | ⟨-, hd'⟩
    · exact ⟨d, hd, rfl, rfl, rfl, fun hl => absurd rfl hl, fun hh => absurd rfl hh.1⟩
    · exact ⟨d', hd', rfl, rfl, rfl, id, id⟩
  case fd =>
    intro c' d' hd' hl
    rw [(releaseContext_ctxs c d d'.ctx).1, if_neg (old hd' hl).2.2]
  case held =>
    intro x hx
    rw [(releaseContext_ctxs c d x).1] at hx
    split_ifs at hx with e
    · exact absurd rfl hx
    · obtain ⟨c', d', hd', hl, hx'⟩ := h.fd_held x hx
      refine ⟨c', d', forth hd' fun e' => e ?_, hl, hx'⟩
      subst e'
      rw [hd] at hd'
      rw [← hx', Option.some.inj hd']
  case connections =>
    intro w fd c'
    rw [(releaseContext_workers c d w).1, h.connections w fd c']
    constructor
    · rintro ⟨d', hd', hw, hfd, hp⟩
      refine ⟨d', forth hd' fun e => hcl.1 ?_, hw, hfd, hp⟩
      subst e
      rw [hd] at hd'
      rw [Option.some.inj hd']
      exact hp
    · rintro ⟨d', hd', hw, hfd, hp⟩
      exact ⟨d', (old hd' (Conn.holds_of_opened hp).live).2.1, hw, hfd, hp⟩
  case busy =>
    intro w c'
    rw [(releaseContext_workers c d w).2.2]
    constructor
    · intro hb
      split_ifs at hb with hw
      obtain ⟨d', hd', hw', hcl'⟩ := (h.busy w c').mp hb
      refine ⟨d', forth hd' fun e => hw ?_, hw', hcl'⟩
      subst e
      rw [hd] at hd'
      rw [← hw', Option.some.inj hd']
    · rintro ⟨d', hd', hw', hcl'⟩
      obtain ⟨hne, hd', -⟩ := old hd' hcl'.live
      have hb := (h.busy w c').mpr ⟨d', hd', hw', hcl'⟩
      rw [if_neg]
      · exact hb
      -- the worker of `c` is busy with `c` alone
      · intro hw
        have hb' := (h.busy w c).mpr ⟨d, hd, hw.symm, hcl⟩
        rw [hb] at hb'
        exact hne (Option.some.inj hb')
  case free =>
    intro w idx hi
    refine (mem_releaseContext_freeList.mp hi).imp_right ?_
    rintro ⟨rfl, hne, rfl⟩
    obtain ⟨h1, h2, h3⟩ := h.storage_poolIdx hd hne
    exact ⟨h1, h2, fun c' d' hd' hl => by rw [h3]; exact (old hd' hl).2.2⟩
  case nodup =>
    intro w
    have hnd := h.free_nodup w
    simp only [Net.releaseContext]
    split_ifs with hp
    · rw [updWorker_apply]
      split_ifs with hw
      · subst hw; exact hnd
      · exact hnd
    · rw [updWorker_apply]
      split_ifs with hw
      · refine List.nodup_cons.mpr ⟨fun hm => ?_, by subst hw; exact hnd⟩
        obtain ⟨-, -, hx⟩ := h.storage_poolIdx hd hp
        exact (h.free d.worker _ hm).2.2 c d hd hcl.live hx.symm
      · exact hnd

/-- **`force_close_in_loop`**, on a worker that is not closing another connection. -/
theorem WF.forceCloseInLoop (h : n.WF P) {w : ℕ} (hb : (n.workers w).busy = none) (fd : Int) :
    (n.forceCloseInLoop w fd).WF P := by
  simp only [Net.forceCloseInLoop]
  split
  · exact h
  rename_i c hc
  obtain ⟨d, hd, rfl, rfl, hp⟩ := h.conn_of_connections hc
  rw [hd]
  simp only
  have hh : d.Holds := Conn.holds_of_opened hp
  have hcl' : ({ d with phase := .check } : Conn).Closing := by simp [Conn.Closing]
  set m : Net := (n.setConn c { d with phase := .check }).updWorker d.worker fun k => { k with
    connections := Function.update k.connections d.fd none
    busy := some c }
  have kw : ∀ w', m.workers w' = if w' = d.worker then { n.workers d.worker with
      connections := Function.update (n.workers d.worker).connections d.fd none
      busy := some c } else n.workers w' := fun w' => updWorker_apply ..
  have kl : ∀ w', (m.workers w').freeList = (n.workers w').freeList := fun w' => by
    rw [kw]; split_ifs with e <;> simp [e]
  have kq : ∀ w', (m.workers w').queue = (n.workers w').queue := fun w' => by
    rw [kw]; split_ifs with e <;> simp [e, Worker.queue]
  have self : m.conns c = some { d with phase := .check } := setConn_self _
  have other : ∀ {c' d'}, c' ≠ c → n.conns c' = some d' → m.conns c' = some d' :=
    fun hne hd' => setConn_other hne hd'
  have fades := setConn_fades hd .check hh.live fun _ => hh
  refine h.fade { fades with queue := kq } (fun _ _ _ _ => rfl)
    (h.held_setConn hd .check hcl'.live) ?connections ?busy (fun w' _ hi => .inl (by rwa [kl] at hi))
    fun w' => by rw [kl]; exact h.free_nodup w'
  case connections =>
    intro w' fd' c'
    rw [kw]
    constructor
    · intro hc'
      have hold : (n.workers w').connections fd' = some c' ∧ (w' = d.worker → fd' ≠ d.fd) := by
        split_ifs at hc' with hw
        · simp only [Function.update_apply] at hc'
          split_ifs at hc' with hf
          exact ⟨by rw [hw]; exact hc', fun _ => hf⟩
        · exact ⟨hc', fun e => absurd e hw⟩
      obtain ⟨d', hd', rfl, rfl, hp'⟩ := h.conn_of_connections hold.1
      refine ⟨d', other (fun e => ?_) hd', rfl, rfl, hp'⟩
      subst e
      rw [hd] at hd'
      obtain rfl := Option.some.inj hd'
      exact hold.2 rfl rfl
    · rintro ⟨d', hd', rfl, rfl, hp'⟩
      rcases setConn_cases hd' with ⟨-, rfl⟩ | ⟨hne, hd'⟩
      · cases hp'
      have hc' := (h.connections d'.worker d'.fd c').mpr ⟨d', hd', rfl, rfl, hp'⟩
      split_ifs with hw
      · have hf : d'.fd ≠ d.fd := fun e =>
          hne (h.fd_inj c' d' c d hd' hd (Conn.holds_of_opened hp') hh e)
        simp only [Function.update_of_ne hf]
        rw [← hw]
        exact hc'
      · exact hc'
  case busy =>
    intro w' c'
    rw [kw]
    constructor
    · intro hb'
      split_ifs at hb' with hw
      · obtain rfl := Option.some.inj hb'
        exact ⟨_, self, hw.symm, hcl'⟩
      · obtain ⟨d', hd', hw', hcl⟩ := (h.busy w' c').mp hb'
        refine ⟨d', other (fun e => hw ?_) hd', hw', hcl⟩
        subst e
        rw [hd] at hd'
        rw [← hw', Option.some.inj hd']
    · rintro ⟨d', hd', rfl, hcl⟩
      rcases setConn_cases hd' with ⟨rfl, rfl⟩ | ⟨hne, hd'⟩
      · rw [if_pos rfl]
      have hb' := (h.busy d'.worker c').mpr ⟨d', hd', rfl, hcl⟩
      rw [if_neg]
      · exact hb'
      · intro hw
        rw [hw, hb] at hb'
        cases hb'

end Net

end AuraChat
