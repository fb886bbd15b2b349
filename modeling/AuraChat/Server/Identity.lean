import AuraChat.Server.Trace

set_option autoImplicit false

/-!
# Who is who

The part of the state that says who is logged in where: the uids of the contexts, the connections
that hold the contexts, and the session map. Most steps do not touch it; `Change` lists those that
do.

* `State.binds`: the bind whose stores a step makes;
* `Change`, **`change_of_move`**.
-/

namespace AuraChat

open Interleave

variable {P : Params} {db : Store} {C : Label → State → Prop} {s s' : State} {l : Label}

/-- The stores of `bind` that a step makes: for which packet, which uid, into which context. -/
def State.binds (s : State) (l : Label) : Option (Origin × Int × ℕ) :=
  match s.next l with
  | some (o, .bindStore uid x) => some (o, uid, x)
  | some (o, .bindEnter uid x) => if (s.sessions uid).isNone then some (o, uid, x) else none
  | _ => none

/-- The statements of `close_impl` in turn, for a context with this uid; `unbind` and `release` are
listed on their own in `Change`. -/
inductive Edge (uid : Int) : Phase → Phase → Prop
  | leave : Edge uid .opened .check
  | enter (h : 0 < uid) : Edge uid .check .loadCancel
  | skip (h : ¬ 0 < uid) : Edge uid .check .closeFd
  | loadCancel : Edge uid .loadCancel (.cancel uid)
  | cancel (v : Int) : Edge uid (.cancel v) .loadUnbind
  | loadUnbind : Edge uid .loadUnbind (.unbind uid)
  | closeFd : Edge uid .closeFd .release

theorem Edge.live {uid : Int} {ph ph' : Phase} (h : Edge uid ph ph') :
    ph ≠ .closed ∧ ph' ≠ .closed ∧ ph' ≠ .opened := by
  cases h <;> simp

/-- How a step changes who is who. -/
inductive Change (P : Params) (s : State) (l : Label) (s' : State) : Prop
  | same (hc : s'.net.conns = s.net.conns) (hu : ∀ x, (s'.net.ctxs x).uid = (s.net.ctxs x).uid)
      (hs : s'.sessions = s.sessions)
      (hf : ∀ w, (s'.net.workers w).freeList = (s.net.workers w).freeList)
  | bind (o : Origin) (uid : Int) (x : ℕ) (hb : s.binds l = some (o, uid, x))
      (hc : s'.net.conns = s.net.conns)
      (hu : ∀ y, (s'.net.ctxs y).uid = if y = x then uid else (s.net.ctxs y).uid)
      (hs : s'.sessions = Function.update s.sessions uid (some ⟨x, o.conn⟩))
      (hf : ∀ w, (s'.net.workers w).freeList = (s.net.workers w).freeList)
  | opens (w : ℕ) (fd : Int) (x : ℕ)
      (hc : s'.net.conns = Function.update s.net.conns s.net.nextConn (some ⟨w, fd, x, .opened⟩))
      (hx : ∀ c d, s.net.conns c = some d → d.Live → d.ctx ≠ x)
      (hnew : ∀ c d, s.net.conns c = some d → d.ctx = x → P.pooled x)
      (hu : ∀ y, y ≠ x → (s'.net.ctxs y).uid = (s.net.ctxs y).uid)
      (hux : (s'.net.ctxs x).uid = 0 ∨ ((s'.net.ctxs x).uid = (s.net.ctxs x).uid ∧
        ∃ idx ∈ (s.net.workers w).freeList, x = P.storage w idx))
      (hs : s'.sessions = s.sessions)
      (hf : ∀ w, (s'.net.workers w).freeList ⊆ (s.net.workers w).freeList ∧
        ∀ idx ∈ (s'.net.workers w).freeList, P.storage w idx ≠ x)
  | goes (c : ℕ) (d : Conn) (ph : Phase) (hd : s.net.conns c = some d)
      (he : Edge (s.net.ctxs d.ctx).uid d.phase ph)
      (hc : s'.net.conns = Function.update s.net.conns c (some { d with phase := ph }))
      (hu : ∀ x, (s'.net.ctxs x).uid = (s.net.ctxs x).uid) (hs : s'.sessions = s.sessions)
      (hf : ∀ w, (s'.net.workers w).freeList = (s.net.workers w).freeList)
  | unbind (c : ℕ) (d : Conn) (uid : Int) (hl : l = .close d.worker) (hd : s.net.conns c = some d)
      (hp : d.phase = .unbind uid)
      (hc : s'.net.conns = Function.update s.net.conns c (some { d with phase := .closeFd }))
      (hu : ∀ x, (s'.net.ctxs x).uid = (s.net.ctxs x).uid)
      (hs : s'.sessions = Function.update s.sessions uid none)
      (hf : ∀ w, (s'.net.workers w).freeList = (s.net.workers w).freeList)
  | release (c : ℕ) (d : Conn) (hd : s.net.conns c = some d) (hp : d.phase = .release)
      (hc : s'.net.conns = Function.update s.net.conns c (some { d with phase := .closed }))
      (hu : ∀ x, (s'.net.ctxs x).uid =
        if x = d.ctx ∧ P.pooled d.ctx then 0 else (s.net.ctxs x).uid)
      (hs : s'.sessions = s.sessions)
      (hf : ∀ w, ∀ idx ∈ (s'.net.workers w).freeList,
        idx ∈ (s.net.workers w).freeList ∨ (P.storage w idx = d.ctx ∧ P.pooled d.ctx))

theorem rateTick_uid (cfg : Config) (now : Int) (c : ClientContext) :
    (c.rateTick cfg now).1.uid = c.uid := by
  simp only [ClientContext.rateTick]
  split_ifs <;> rfl

theorem updCtx_uid (n : Net) (x : ℕ) (f : ClientContext → ClientContext)
    (h : ∀ c, (f c).uid = c.uid) (y : ℕ) : ((n.updCtx x f).ctxs y).uid = (n.ctxs y).uid := by
  rw [Net.updCtx_apply]
  split_ifs with e
  · rw [e, h]
  · rfl

theorem popBatch_freeList (n : Net) (w : ℕ) (rest : List Functor) (w' : ℕ) :
    ((n.popBatch w rest).workers w').freeList = (n.workers w').freeList := by
  simp only [Net.popBatch, Net.updWorker_apply]
  split_ifs with e <;> simp [e]

theorem leave_freeList (n : Net) (c : ℕ) (d : Conn) (w : ℕ) :
    ((n.leave c d).workers w).freeList = (n.workers w).freeList := by
  simp only [Net.leave, Net.updWorker_apply]
  split_ifs with e <;> simp [e, Net.setConn]

theorem change_of_effect {o : Origin} {a : Call} (hn : s.next l = some (o, a))
    (h : Effect P o s a s') : Change P s l s' := by
  cases h with
  | rate x now =>
      exact .same rfl (updCtx_uid s.net x _ fun c => rateTick_uid P.cfg now c) rfl fun _ => rfl
  | enter uid x hnone =>
      refine .bind o uid x (by simp [State.binds, hn, hnone]) rfl (fun y => ?_) rfl fun _ => rfl
      simp only [State.bindWrite, Net.bindContext, Net.updCtx_apply]
      split_ifs <;> rfl
  | store uid x =>
      refine .bind o uid x (by simp [State.binds, hn]) rfl (fun y => ?_) rfl fun _ => rfl
      simp only [State.bindWrite, Net.bindContext, Net.updCtx_apply]
      split_ifs <;> rfl
  | send x cmd seq body why w hw => exact .same rfl (fun _ => rfl) rfl fun _ => Net.push_freeList ..
  | kick old fd w hw => exact .same rfl (fun _ => rfl) rfl fun _ => Net.push_freeList ..
  | look | submit | mark | table | ai => exact .same rfl (fun _ => rfl) rfl fun _ => rfl

/-- The contexts and free lists after `add_connection_in_loop`. -/
theorem acquire_cases (n : Net) (w : ℕ) (fd : Int) :
    (∀ y, y ≠ (n.acquire P w).1 → ((n.addConnection P w fd).ctxs y).uid = (n.ctxs y).uid) ∧
    (((n.acquire P w).1 = n.nextCtx ∧ ((n.addConnection P w fd).ctxs (n.acquire P w).1).uid = 0) ∨
      (((n.addConnection P w fd).ctxs (n.acquire P w).1).uid = (n.ctxs (n.acquire P w).1).uid ∧
        ∃ idx ∈ (n.workers w).freeList, (n.acquire P w).1 = P.storage w idx)) ∧
    ∀ w', ((n.addConnection P w fd).workers w').freeList = ((n.acquire P w).2.workers w').freeList ∧
      ((n.acquire P w).2.workers w').freeList ⊆ (n.workers w').freeList := by
  refine ⟨fun y hy => ?_, ?_, fun w' => ⟨?_, ?_⟩⟩
  · rw [Net.addConnection_eq, Net.attach_ctxs, if_neg hy]
    simp only [Net.acquire] at hy ⊢
    split at hy
    · exact congrArg _ (Function.update_of_ne hy ..)
    · rfl
  · rw [Net.addConnection_eq, Net.attach_ctxs, if_pos rfl]
    simp only [Net.acquire]
    split
    · exact .inl ⟨rfl, by simp⟩
    · rename_i idx rest hl
      exact .inr ⟨rfl, idx, by simp [hl], rfl⟩
  · rw [Net.addConnection_eq, Net.attach_workers]
    split_ifs with e <;> simp [e]
  · simp only [Net.acquire]
    split
    · exact List.Subset.refl _
    · rename_i idx rest hl
      rw [Net.updWorker_apply]
      split_ifs with e
      · subst e
        rw [hl]
        exact List.subset_cons_self _ _
      · exact List.Subset.refl _

theorem change_of_add (hwf : s.net.WF P) {w num : ℕ} {fd : Int} {rest : List Functor}
    (hq : (s.net.workers w).batch = ⟨num, .add fd⟩ :: rest) :
    Change P s l { s with net := (s.net.popBatch w rest).addConnection P w fd } := by
  obtain ⟨-, -, -, hx, hfree⟩ := (wf_popBatch hwf hq).acquire w
  obtain ⟨hu, hux, hf⟩ := acquire_cases (P := P) (s.net.popBatch w rest) w fd
  have hfl : ∀ w', ((s.net.popBatch w rest).workers w').freeList = (s.net.workers w').freeList :=
    popBatch_freeList s.net w rest
  refine .opens w fd _ (addConnection_conns ..) hx (fun c d hd hdx => ?_) hu ?_ rfl fun w' =>
    ⟨?_, fun idx hi => ?_⟩
  · rcases hux with ⟨hnew, -⟩ | ⟨-, idx, hi, he⟩
    · have hlt : d.ctx < s.net.nextCtx := hwf.ctx_lt c d hd
      rw [hdx, hnew] at hlt
      exact absurd hlt (Nat.lt_irrefl _)
    · rw [hfl] at hi
      rw [he]
      exact Net.WF.storage_pooled (hwf.free w idx hi).1 (hwf.free w idx hi).2.1
  · rcases hux with ⟨-, h0⟩ | ⟨he, idx, hi, hs⟩
    · exact .inl h0
    · exact .inr ⟨he, idx, by rwa [hfl] at hi, hs⟩
  · rw [(hf w').1, ← hfl]
    exact (hf w').2
  · rw [(hf w').1] at hi
    exact hfree w' idx hi

theorem change_of_release (hwf : s.net.WF P) {c : ℕ} {d : Conn} (hd : s.net.conns c = some d)
    (hp : d.phase = .release) : Change P s l { s with net := s.net.releaseContext c d } := by
  have hpool : (s.net.ctxs d.ctx).poolIdx = -1 ↔ ¬ P.pooled d.ctx := by
    constructor
    · intro e hpd
      have := (hwf.owner d.ctx hpd).2
      omega
    · exact fun hpd => (hwf.no_owner d.ctx hpd).2
  refine .release c d hd hp ?_ (fun x => ?_) rfl fun w idx hi => ?_
  · funext c'
    dsimp only
    rw [Net.releaseContext_conns, Function.update_apply]
  · have hpool' : (((s.net.setConn c { d with phase := .closed }).ctxs d.ctx).poolIdx = -1) ↔
        ¬ P.pooled d.ctx := hpool
    simp only [Net.releaseContext]
    by_cases hpd : P.pooled d.ctx
    · rw [if_neg (by rw [hpool']; exact not_not.mpr hpd)]
      by_cases hx : x = d.ctx
      · subst hx
        simp [hpd, Net.updWorker, Net.updCtx, ClientContext.reset]
      · simp [hx, Net.updWorker, Net.updCtx, Net.setConn]
    · rw [if_pos (hpool'.mpr hpd)]
      by_cases hx : x = d.ctx
      · subst hx
        simp [hpd, Net.updWorker, Net.updCtx, Net.setConn]
      · simp [hx, Net.updWorker, Net.updCtx, Net.setConn]
  · rcases Net.mem_releaseContext_freeList.mp hi with hi | ⟨rfl, hne, rfl⟩
    · exact .inl hi
    · have hpd : P.pooled d.ctx := by
        by_contra h
        exact hne (hpool.mpr h)
      refine .inr ⟨?_, hpd⟩
      rw [(hwf.owner d.ctx hpd).2, ← hwf.own_pool c d hd hpd, Params.storage, ← Int.natCast_emod,
        Int.toNat_natCast]
      exact Nat.div_add_mod' ..

/-- **How a step changes who is who.** -/
theorem change_of_move (hwf : s.net.WF P) (h : Move P s l s') : Change P s l s' := by
  cases h with
  | accept fd h0 hfd => exact .same rfl (fun _ => rfl) rfl fun _ => Net.push_freeList ..
  | swap w hb hq =>
      refine .same rfl (fun _ => rfl) rfl fun w' => ?_
      simp only [Net.updWorker_apply]
      split_ifs with e <;> simp [e]
  | add w num fd rest hb hq => exact change_of_add hwf hq
  | sent w num f rest c d hb hq ha =>
      refine .same rfl (fun x => ?_) rfl (popBatch_freeList s.net w rest)
      dsimp only [Net.append]
      rw [updCtx_uid]
      · rfl
      · exact fun _ => rfl
  | lost w num f rest hb hq ha =>
      exact .same rfl (fun _ => rfl) rfl (popBatch_freeList s.net w rest)
  | overflow w num f rest c d hb hq ha hr =>
      exact .same rfl (fun _ => rfl) rfl fun w' =>
        (Net.push_freeList ..).trans (popBatch_freeList s.net w rest w')
  | missed w num fd kick rest hb hq hc =>
      exact .same rfl (fun _ => rfl) rfl (popBatch_freeList s.net w rest)
  | closed num kick rest c d hb hq hd hp =>
      exact .goes c d .check hd (hp ▸ .leave) rfl (fun _ => rfl) rfl fun w' =>
        (leave_freeList ..).trans (popBatch_freeList s.net d.worker rest w')
  | write c d count hd hev =>
      refine .same rfl (fun x => ?_) rfl fun _ => rfl
      dsimp only
      rw [updCtx_uid]
      exact fun _ => rfl
  | drop c d hd hev =>
      exact .goes c d .check hd (hev.1 ▸ .leave) rfl (fun _ => rfl) rfl fun _ => leave_freeList ..
  | check c d hd hp =>
      refine .goes c d _ hd ?_ rfl (fun _ => rfl) rfl fun _ => rfl
      rw [hp]
      split_ifs with h0
      · exact .enter h0
      · exact .skip h0
  | loadCancel c d hd hp =>
      exact .goes c d _ hd (hp ▸ .loadCancel) rfl (fun _ => rfl) rfl fun _ => rfl
  | loadUnbind c d hd hp =>
      exact .goes c d _ hd (hp ▸ .loadUnbind) rfl (fun _ => rfl) rfl fun _ => rfl
  | cancel c d uid hd hp =>
      exact .goes c d .loadUnbind hd (hp ▸ .cancel uid) rfl (fun _ => rfl) rfl fun _ => rfl
  | unbind c d uid hd hp => exact .unbind c d uid rfl hd hp rfl (fun _ => rfl) rfl fun _ => rfl
  | closeFd c d hd hp =>
      exact .goes c d .release hd (hp ▸ .closeFd) rfl (fun _ => rfl) rfl fun _ => rfl
  | release c d hd hp => exact change_of_release hwf hd hp
  | call i e t a k r s₁ hi hp ha =>
      have hch : Change P s (.thread i e) s₁ :=
        change_of_effect (next_thread e hi hp) (act_effect ha)
      cases hch with
      | same hc hu hs hf => exact .same hc hu hs hf
      | bind o uid x hb hc hu hs hf => exact .bind o uid x hb hc hu hs hf
      | opens w fd x hc hx hnew hu hux hs hf => exact .opens w fd x hc hx hnew hu hux hs hf
      | goes c d ph hd he hc hu hs hf => exact .goes c d ph hd he hc hu hs hf
      | unbind c d uid hl hd hp hc hu hs hf => exact .unbind c d uid hl hd hp hc hu hs hf
      | release c d hd hp hc hu hs hf => exact .release c d hd hp hc hu hs hf
  | expire req rest now w f hq hw ho hx hy =>
      exact .same rfl (fun _ => rfl) rfl fun _ => Net.push_freeList ..
  | read | dequeue | finish | forget | activate | dispatch | drain | flush =>
      exact .same rfl (fun _ => rfl) rfl fun _ => rfl

theorem update_phase_cases {f : ℕ → Option Conn} {c c' : ℕ} {d e : Conn} {ph : Phase}
    (hd : f c = some d) (he : Function.update f c (some { d with phase := ph }) c' = some e) :
    ∃ d', f c' = some d' ∧ e = { d' with phase := e.phase } ∧
      (c' = c → d' = d ∧ e.phase = ph) ∧ (c' ≠ c → e = d') := by
  rw [Function.update_apply] at he
  split_ifs at he with hc
  · subst hc
    obtain rfl := Option.some.inj he
    exact ⟨d, hd, rfl, fun _ => ⟨rfl, rfl⟩, fun h => absurd rfl h⟩
  · exact ⟨e, he, rfl, fun h => absurd h hc, fun _ => rfl⟩

/-! ## Binds -/

/-- What the thread has done that makes the stores of a bind. -/
theorem Traced.binds_guard (ht : Traced P s) {o : Origin} {uid : Int} {x : ℕ}
    (hb : s.binds l = some (o, uid, x)) :
    ∃ i e t, l = .thread i e ∧ s.threads i = some t ∧ t.task.origin = o ∧ x = o.ctx ∧
      Verified P t.task t.hist uid := by
  unfold State.binds at hb
  split at hb
  · rename_i hn
    obtain ⟨rfl, rfl, rfl⟩ : _ ∧ _ ∧ _ := by simpa using hb
    obtain ⟨i, e, t, hl, hi, rfl, hg⟩ := ht.next_guard hn
    exact ⟨i, e, t, hl, hi, rfl, hg.1, hg.2.1⟩
  · rename_i hn
    split_ifs at hb
    obtain ⟨rfl, rfl, rfl⟩ : _ ∧ _ ∧ _ := by simpa using hb
    obtain ⟨i, e, t, hl, hi, rfl, hg⟩ := ht.next_guard hn
    exact ⟨i, e, t, hl, hi, rfl, hg.1, hg.2⟩
  · cases hb

/-- The packet that binds was received, and verified or registered as the user. -/
theorem Traced.binds_received (ht : Traced P s) {o : Origin} {uid : Int} {x : ℕ}
    (hb : s.binds l = some (o, uid, x)) : o.ctx = x ∧ ∃ hdr body, .received o hdr body ∈ s.log ∧
      ((hdr.cmd = CmdType.login.code ∧ ∃ req, P.codec.parseLoginRequest body = some req ∧
          .did o ⟨.verifyLogin req.username req.password, .ok uid⟩ ∈ s.log) ∨
        (hdr.cmd = CmdType.register.code ∧ ∃ req, P.codec.parseRegisterRequest body = some req ∧
          .did o ⟨.registerUser req.username req.password, .ok uid⟩ ∈ s.log)) := by
  obtain ⟨i, e, t, -, hi, rfl, rfl, hv⟩ := ht.binds_guard hb
  have hk := ht.thread i t hi
  have hh := ht.hist i t hi
  cases htask : t.task with
  | business o hdr body =>
      rw [htask] at hv hk hh
      rcases hv with ⟨hc, -, req, hreq, hm⟩ | ⟨hc, -, req, hreq, hm⟩
      · exact ⟨rfl, hdr, body, hk, .inl ⟨hc, req, hreq, hh _ hm⟩⟩
      · exact ⟨rfl, hdr, body, hk, .inr ⟨hc, req, hreq, hh _ hm⟩⟩
  | stream req =>
      rw [htask] at hv
      exact absurd hv id

theorem Traced.binds_conn (ht : Traced P s) {o : Origin} {uid : Int} {x : ℕ}
    (hb : s.binds l = some (o, uid, x)) :
    x = o.ctx ∧ ∃ d, s.net.conns o.conn = some d ∧ d.ctx = x := by
  obtain ⟨i, e, t, -, hi, rfl, rfl, -⟩ := ht.binds_guard hb
  exact ⟨rfl, ht.conn_of_received (ht.thread i t hi).received⟩

end AuraChat
