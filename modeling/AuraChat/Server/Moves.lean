import AuraChat.Server.Steps

set_option autoImplicit false

/-!
# What a step changes

For each part of the state, what a step can have done to it.

* `move_log`, `move_conn`: the record only grows, and a connection keeps its worker, descriptor and
  context;
* `move_queue`, `move_queue_kept`, `move_functor`: what is queued, what stays queued and what runs;
* `move_thread`, `move_task`, `move_request`, `move_active`: where threads, tasks and AI requests come
  from;
* **`recorded_of_move`**: how an entry of the record came there.
-/

namespace AuraChat

open Interleave

variable {P : Params} {s s' : State} {l : Label}

/-! ## Queues and connections -/

theorem effect_log_eq {o : Origin} {a : Call} (h : Effect P o s a s') :
    s'.log = s.log ∨
    (∃ x cmd seq body why, a = .queueSendPacket x cmd seq body why ∧
      s'.log = .queued ⟨o, x, cmd, seq, body, why⟩ (s.net.holder x) (s.net.ctxs x).uid :: s.log) ∨
    ∃ m, a = .submit m ∧ s'.log = .submitted o m s.net.nextNum :: s.log := by
  cases h with
  | send x cmd seq body why w hw => exact .inr (.inl ⟨x, cmd, seq, body, why, rfl, rfl⟩)
  | submit m => exact .inr (.inr ⟨m, rfl, rfl⟩)
  | _ => exact .inl rfl

theorem effect_log {o : Origin} {a : Call} (h : Effect P o s a s') : s.log ⊆ s'.log := by
  rcases effect_log_eq h with e | ⟨x, cmd, seq, body, why, -, e⟩ | ⟨m, -, e⟩
  · rw [e]; exact List.Subset.refl _
  · rw [e]; exact List.subset_cons_self _ _
  · rw [e]; exact List.subset_cons_self _ _

theorem effect_threads {o : Origin} {a : Call} (h : Effect P o s a s') :
    s'.threads = s.threads ∧ s'.tasks = s.tasks ∧ s'.net.conns = s.net.conns := by
  cases h <;> exact ⟨rfl, rfl, rfl⟩

theorem move_log (h : Move P s l s') : s.log ⊆ s'.log := by
  cases h with
  | call i e t a k r s₁ hi hp ha =>
      exact fun x hx => List.mem_cons_of_mem _ (effect_log (act_effect ha) hx)
  | sent | closed | read | drop | expire => exact List.subset_cons_self _ _
  | _ => exact List.Subset.refl _

theorem popBatch_queue_subset {n : Net} {w : ℕ} {f : Functor} {rest : List Functor}
    (hq : (n.workers w).batch = f :: rest) (w' : ℕ) :
    ((n.popBatch w rest).workers w').queue ⊆ (n.workers w').queue := by
  simp only [Net.popBatch, Net.updWorker_apply]
  split_ifs with e
  · subst e
    simp only [Worker.queue, hq, List.cons_append]
    exact List.subset_cons_self _ _
  · exact List.Subset.refl _

theorem addConnection_queue (n : Net) (w : ℕ) (fd : Int) (w' : ℕ) :
    ((n.addConnection P w fd).workers w').queue = (n.workers w').queue := by
  rw [Net.addConnection_eq, Net.attach_queue, Net.acquire_queue]

theorem leave_queue (n : Net) (c : ℕ) (d : Conn) (w : ℕ) :
    ((n.leave c d).workers w).queue = (n.workers w).queue := by
  simp only [Net.leave, Net.updWorker_apply]
  split_ifs with e
  · subst e; rfl
  · rfl

/-- A functor that a step has just queued. -/
inductive NewJob (P : Params) (s : State) (l : Label) (w : ℕ) : Job → Prop
  | add (fd : Int) : NewJob P s l w (.add fd)
  | send (o : Origin) (x : ℕ) (cmd : CmdType) (seq : UInt32) (body : Bytes) (why : Purpose)
      (hn : s.next l = some (o, .queueSendPacket x cmd seq body why)) :
      NewJob P s l w (.send ⟨o, x, cmd, seq, body, why⟩)
  | expire (req : StreamRequest) (f : Frame) (hr : req ∈ s.ai.pending) (ho : f.origin = req.origin)
      (hx : f.ctx = req.origin.ctx) (hy : f.why = .chunk) (hl : ∃ now, l = .schedule now) :
      NewJob P s l w (.send f)
  | kick (o : Origin) (old : Session) (fd : Int)
      (hn : s.next l = some (o, .queueCloseConnection old fd))
      (hw : (s.net.ctxs old.ctx).ownerWorker = some w) :
      NewJob P s l w (.close fd (some ⟨o, old.conn⟩))
  | overflow (fd : Int) : NewJob P s l w (.close fd none)

theorem next_thread {i : ℕ} {t : Thread} (e : Ext) {a : Call} {k : Reply a → Prog Reply Unit}
    (hi : s.threads i = some t) (hp : t.prog = .call a k) :
    s.next (.thread i e) = some (t.task.origin, a) := by
  obtain ⟨task, script, hist, prog⟩ := t
  subst hp
  simp only [State.next, hi]

/-- A functor is in a queue because it was there or because this step has queued it. -/
theorem move_queue (h : Move P s l s') {w : ℕ} {f : Functor}
    (hf : f ∈ (s'.net.workers w).queue) :
    f ∈ (s.net.workers w).queue ∨ (f.num = s.net.nextNum ∧ NewJob P s l w f.job) := by
  cases h with
  | accept fd h0 hfd =>
      rcases Net.mem_push.mp hf with hf | ⟨rfl, rfl⟩
      · exact .inl hf
      · exact .inr ⟨rfl, .add fd⟩
  | swap w' hb hq =>
      simp only [Net.updWorker_apply] at hf
      split_ifs at hf with e
      · subst e
        exact .inl (by simpa [Worker.queue, hq] using hf)
      · exact .inl hf
  | add w' num fd rest hb hq =>
      rw [addConnection_queue] at hf
      exact .inl (popBatch_queue_subset hq w hf)
  | sent w' num f' rest c d hb hq ha => exact .inl (popBatch_queue_subset hq w hf)
  | lost w' num f' rest hb hq ha => exact .inl (popBatch_queue_subset hq w hf)
  | overflow w' num f' rest c d hb hq ha hr =>
      rcases Net.mem_push.mp hf with hf | ⟨rfl, rfl⟩
      · exact .inl (popBatch_queue_subset hq w hf)
      · exact .inr ⟨rfl, .overflow d.fd⟩
  | missed w' num fd kick rest hb hq hc => exact .inl (popBatch_queue_subset hq w hf)
  | closed num kick rest c d hb hq hd hp =>
      rw [leave_queue] at hf
      exact .inl (popBatch_queue_subset hq w hf)
  | drop c d hd hev =>
      rw [leave_queue] at hf
      exact .inl hf
  | release c d hd hp =>
      rw [(Net.releaseContext_workers c d w).2.1] at hf
      exact .inl hf
  | call i e t a k r s₁ hi hp ha =>
      have hn := next_thread e hi hp
      cases act_effect ha with
      | send x cmd seq body why w' hw =>
          rcases Net.mem_push.mp hf with hf | ⟨rfl, rfl⟩
          · exact .inl hf
          · exact .inr ⟨rfl, .send _ x cmd seq body why hn⟩
      | kick old fd w' hw =>
          rcases Net.mem_push.mp hf with hf | ⟨rfl, rfl⟩
          · exact .inl hf
          · exact .inr ⟨rfl, .kick _ old fd hn hw⟩
      | _ => exact .inl hf
  | expire req rest now w' f' hq hw ho hx hy =>
      rcases Net.mem_push.mp hf with hf | ⟨rfl, rfl⟩
      · exact .inl hf
      · exact .inr ⟨rfl, .expire req f' (by simp [hq]) ho hx hy ⟨now, rfl⟩⟩
  | read | write | check | loadCancel | cancel | loadUnbind | unbind | closeFd | dequeue | finish | forget
  | activate | dispatch | drain | flush => exact .inl hf

theorem mem_popBatch_queue {n : Net} {w : ℕ} {g : Functor} {rest : List Functor}
    (hq : (n.workers w).batch = g :: rest) {w' : ℕ} {f : Functor} (hf : f ∈ (n.workers w').queue) :
    f ∈ ((n.popBatch w rest).workers w').queue ∨ (w' = w ∧ f = g) := by
  simp only [Net.popBatch, Net.updWorker_apply]
  split_ifs with e
  · subst e
    simp only [Worker.queue, hq, List.cons_append, List.mem_cons] at hf
    rcases hf with rfl | hf
    · exact .inr ⟨rfl, rfl⟩
    · exact .inl hf
  · exact .inl hf

/-- A functor stays in its queue until the step that runs it. -/
theorem move_queue_kept (h : Move P s l s') {w : ℕ} {f : Functor} (hf : f ∈ (s.net.workers w).queue) :
    f ∈ (s'.net.workers w).queue ∨
      (l = .functor w ∧ (s.net.workers w).busy = none ∧
        ∃ rest, (s.net.workers w).batch = f :: rest) := by
  have popped : ∀ {w' : ℕ} {g : Functor} {rest : List Functor}, (s.net.workers w').busy = none →
      (s.net.workers w').batch = g :: rest → f ∈ ((s.net.popBatch w' rest).workers w).queue ∨
      (Label.functor w' = .functor w ∧ (s.net.workers w).busy = none ∧
        ∃ rest, (s.net.workers w).batch = f :: rest) := by
    intro w' g rest hb hq
    rcases mem_popBatch_queue hq hf with hf | ⟨rfl, rfl⟩
    · exact .inl hf
    · exact .inr ⟨rfl, hb, rest, hq⟩
  cases h with
  | accept fd h0 hfd => exact .inl (Net.mem_push.mpr (.inl hf))
  | swap w' hb hq =>
      simp only [Net.updWorker_apply]
      split_ifs with e
      · subst e
        exact .inl (by simpa [Worker.queue, hq] using hf)
      · exact .inl hf
  | add w' num fd rest hb hq =>
      rw [addConnection_queue]
      exact popped hb hq
  | sent w' num f' rest c d hb hq ha => exact popped hb hq
  | lost w' num f' rest hb hq ha => exact popped hb hq
  | overflow w' num f' rest c d hb hq ha hr =>
      rcases popped hb hq with hf | hf
      · exact .inl (Net.mem_push.mpr (.inl hf))
      · exact .inr hf
  | missed w' num fd kick rest hb hq hc => exact popped hb hq
  | closed num kick rest c d hb hq hd hp =>
      rw [leave_queue]
      exact popped hb hq
  | drop c d hd hev =>
      rw [leave_queue]
      exact .inl hf
  | release c d hd hp =>
      rw [(Net.releaseContext_workers c d w).2.1]
      exact .inl hf
  | call i e t a k r s₁ hi hp ha =>
      cases act_effect ha with
      | send | kick => exact .inl (Net.mem_push.mpr (.inl hf))
      | _ => exact .inl hf
  | expire req rest now w' f' hq hw ho hx hy => exact .inl (Net.mem_push.mpr (.inl hf))
  | read | write | check | loadCancel | cancel | loadUnbind | unbind | closeFd | dequeue | finish | forget
  | activate | dispatch | drain | flush => exact .inl hf

theorem popBatch_acquire (n : Net) (w : ℕ) (rest : List Functor) :
    ((n.popBatch w rest).acquire P w).1 = (n.acquire P w).1 := by
  have hfree : ((n.popBatch w rest).workers w).freeList = (n.workers w).freeList := by
    simp [Net.popBatch, Net.updWorker_apply]
  simp only [Net.acquire, hfree]
  split <;> rfl

theorem addConnection_conns (n : Net) (w : ℕ) (fd : Int) :
    (n.addConnection P w fd).conns = Function.update n.conns n.nextConn
      (some ⟨w, fd, (n.acquire P w).1, .opened⟩) := by
  funext c
  rw [Net.addConnection_eq, Net.attach_conns, Net.acquire_nextConn, Net.acquire_conns,
    Function.update_apply]

theorem move_nextNum (h : Move P s l s') : s.net.nextNum ≤ s'.net.nextNum := by
  cases h with
  | accept | overflow | expire => exact Nat.le_succ _
  | add w num fd rest hb hq =>
      simp only [Net.addConnection_eq, Net.attach, Net.acquire]
      split <;> exact Nat.le_refl _
  | release c d hd hp => exact Nat.le_of_eq (Net.releaseContext_static c d).2.2.1.symm
  | call i e t a k r s₁ hi hp ha =>
      cases act_effect ha with
      | send | kick => exact Nat.le_succ _
      | _ => exact Nat.le_refl _
  | _ => exact Nat.le_refl _

/-- The worker that a step makes take a connection in. -/
def State.adds (s : State) : Label → Option ℕ
  | .functor w => match (s.net.workers w).busy, (s.net.workers w).batch with
      | none, ⟨_, .add _⟩ :: _ => some w
      | _, _ => none
  | _ => none

/-- How the connections change: not at all, one goes on, or one is made. -/
theorem move_conns (h : Move P s l s') :
    s'.net.conns = s.net.conns ∨
    (∃ c d ph, s.net.conns c = some d ∧ d.Live ∧ ph ≠ .opened ∧
      s'.net.conns = Function.update s.net.conns c (some { d with phase := ph })) ∨
    ∃ w fd num rest, s.adds l = some w ∧ (s.net.workers w).batch = ⟨num, .add fd⟩ :: rest ∧
      (s'.net.workers w).queue = rest ++ (s.net.workers w).pending ∧
      s'.net.conns = Function.update s.net.conns s.net.nextConn
        (some ⟨w, fd, (s.net.acquire P w).1, .opened⟩) := by
  cases h with
  | add w num fd rest hb hq =>
      refine .inr (.inr ⟨w, fd, num, rest, by simp [State.adds, hb, hq], hq, ?_, ?_⟩)
      · dsimp only
        rw [addConnection_queue]
        simp [Net.popBatch, Net.updWorker_apply, Worker.queue]
      · dsimp only
        rw [addConnection_conns, popBatch_acquire]
        rfl
  | call i e t a k r s₁ hi hp ha => exact .inl (effect_threads (act_effect ha)).2.2
  | closed num kick rest c d hb hq hd hp =>
      exact .inr (.inl ⟨c, d, .check, hd, by simp [Conn.Live, hp], by simp, rfl⟩)
  | drop c d hd hev => exact .inr (.inl ⟨c, d, .check, hd, by simp [Conn.Live, hev.1], by simp, rfl⟩)
  | check c d hd hp =>
      refine .inr (.inl ⟨c, d, _, hd, by simp [Conn.Live, hp], ?_, rfl⟩)
      split_ifs <;> simp
  | loadCancel c d hd hp | cancel c d _ hd hp | loadUnbind c d hd hp | unbind c d _ hd hp | closeFd c d hd hp =>
      exact .inr (.inl ⟨c, d, _, hd, by simp [Conn.Live, hp], by simp, rfl⟩)
  | release c d hd hp =>
      refine .inr (.inl ⟨c, d, .closed, hd, by simp [Conn.Live, hp], by simp, ?_⟩)
      funext c'
      rw [Net.releaseContext_conns, Function.update_apply]
  | _ => exact .inl rfl

theorem move_conn (hwf : s.net.WF P) (h : Move P s l s') {c : ℕ} {d : Conn}
    (hd : s.net.conns c = some d) :
    ∃ ph, s'.net.conns c = some { d with phase := ph } := by
  rcases move_conns h with e | ⟨c', d', ph, hd', -, -, e⟩ | ⟨w, fd, num, rest, -, -, -, e⟩
  · exact ⟨d.phase, by rw [e, hd]⟩
  · by_cases hc : c = c'
    · subst hc
      obtain rfl := Option.some.inj (hd.symm.trans hd')
      exact ⟨ph, by rw [e, Function.update_self]⟩
    · exact ⟨d.phase, by rw [e, Function.update_of_ne hc, hd]⟩
  · have hc : c ≠ s.net.nextConn := Nat.ne_of_lt (hwf.conn_lt c d hd)
    exact ⟨d.phase, by rw [e, Function.update_of_ne hc, hd]⟩

/-- An open connection was open before the step, or this step has run the functor that adds it. -/
theorem opened_back (h : Move P s l s') {c : ℕ} {d : Conn} (hd : s'.net.conns c = some d)
    (hp : d.phase = .opened) :
    s.net.conns c = some d ∨ (c = s.net.nextConn ∧ ∃ num rest,
      (s.net.workers d.worker).batch = ⟨num, .add d.fd⟩ :: rest ∧
      (s'.net.workers d.worker).queue = rest ++ (s.net.workers d.worker).pending) := by
  rcases move_conns h with e | ⟨c', d', ph, hd', -, hph, e⟩ | ⟨w, fd, num, rest, -, hq, hq', e⟩
  · exact .inl (by rwa [e] at hd)
  · rw [e, Function.update_apply] at hd
    split_ifs at hd with hc
    · obtain rfl := Option.some.inj hd
      exact absurd hp hph
    · exact .inl hd
  · rw [e, Function.update_apply] at hd
    split_ifs at hd with hc
    · obtain rfl := Option.some.inj hd
      exact .inr ⟨hc, num, rest, hq, hq'⟩
    · exact .inl hd

/-- The frame that a step sends. -/
def State.sends (s : State) : Label → Option Frame
  | .functor w => match (s.net.workers w).batch with
      | ⟨_, .send f⟩ :: _ => some f
      | _ => none
  | _ => none

/-- What running the next functor of a worker does. -/
theorem move_functor (h : Move P s l s') {w : ℕ} {f : Functor} {rest : List Functor}
    (hl : l = .functor w) (hq : (s.net.workers w).batch = f :: rest) :
    (∃ fd, f.job = .add fd) ∨
    (∃ fr c d, f.job = .send fr ∧ s.net.accepts P w fr = some (c, d) ∧
      .appended c fr (s.net.ctxs d.ctx).uid ∈ s'.log) ∨
    (∃ fr, f.job = .send fr ∧ s.net.accepts P w fr = none) ∨
    (∃ fd kick, f.job = .close fd kick ∧ (s.net.workers w).connections fd = none) ∨
    ∃ kick c d, f.job = .close d.fd kick ∧ s.net.conns c = some d ∧ d.phase = .opened ∧
      d.worker = w ∧ s'.net.conns c = some { d with phase := .check } := by
  have head : ∀ {w' : ℕ} {g : Functor} {rest' : List Functor}, Label.functor w' = .functor w →
      (s.net.workers w').batch = g :: rest' → w' = w ∧ f = g := by
    intro w' g rest' he hq'
    obtain rfl := Label.functor.inj he
    rw [hq] at hq'
    exact ⟨rfl, (List.cons.inj hq').1⟩
  cases h with
  | add w' num fd rest' hb hq' =>
      obtain ⟨rfl, rfl⟩ := head hl hq'
      exact .inl ⟨fd, rfl⟩
  | sent w' num fr rest' c d hb hq' ha =>
      obtain ⟨rfl, rfl⟩ := head hl hq'
      exact .inr (.inl ⟨fr, c, d, rfl, ha, List.mem_cons_self⟩)
  | lost w' num fr rest' hb hq' ha =>
      obtain ⟨rfl, rfl⟩ := head hl hq'
      exact .inr (.inr (.inl ⟨fr, rfl, ha⟩))
  | overflow w' num fr rest' c d hb hq' ha hr =>
      obtain ⟨rfl, rfl⟩ := head hl hq'
      exact .inr (.inr (.inl ⟨fr, rfl, ha⟩))
  | missed w' num fd kick rest' hb hq' hc =>
      obtain ⟨rfl, rfl⟩ := head hl hq'
      exact .inr (.inr (.inr (.inl ⟨fd, kick, rfl, hc⟩)))
  | closed num kick rest' c d hb hq' hd hp =>
      obtain ⟨hw, rfl⟩ := head hl hq'
      exact .inr (.inr (.inr (.inr ⟨kick, c, d, rfl, hd, hp, hw, Function.update_self ..⟩)))
  | _ => cases hl

/-! ## Threads and tasks -/

theorem next_cases {o : Origin} {a : Call} (h : s.next l = some (o, a)) :
    ∃ i e t k, l = .thread i e ∧ s.threads i = some t ∧ t.task.origin = o ∧ t.prog = .call a k := by
  cases l with
  | thread i e =>
      simp only [State.next] at h
      split at h
      · rename_i task script hist a' k hi
        simp only [Option.some.injEq, Prod.mk.injEq] at h
        obtain ⟨rfl, rfl⟩ := h
        exact ⟨i, e, _, k, rfl, hi, rfl, rfl⟩
      · cases h
  | _ => cases h

/-- The step of a thread at a call makes that call. -/
theorem move_call {i : ℕ} {e : Ext} (h : Move P s (.thread i e) s') {t : Thread} {a : Call}
    {k : Reply a → Prog Reply Unit} (hi : s.threads i = some t) (hp : t.prog = .call a k) :
    ∃ r s₁, act P t.task.origin a e s = some (r, s₁) ∧ s' = { s₁ with
      threads := Function.update s₁.threads i
        (some { t with hist := t.hist ++ [⟨a, r⟩], prog := k r })
      log := .did t.task.origin ⟨a, r⟩ :: s₁.log } := by
  cases h with
  | finish _ _ t' hi' hp' =>
      obtain rfl : t = t' := Option.some.inj (hi.symm.trans hi')
      rw [hp] at hp'
      cases hp'
  | call _ _ t' a' k' r s₁ hi' hp' ha =>
      obtain rfl : t = t' := Option.some.inj (hi.symm.trans hi')
      rw [hp] at hp'
      cases hp'
      exact ⟨r, s₁, ha, rfl⟩

theorem move_queued (h : Move P s l s') {o : Origin} {x : ℕ} {cmd : CmdType} {seq : UInt32}
    {body : Bytes} {why : Purpose} (hn : s.next l = some (o, .queueSendPacket x cmd seq body why)) :
    .queued ⟨o, x, cmd, seq, body, why⟩ (s.net.holder x) (s.net.ctxs x).uid ∈ s'.log := by
  obtain ⟨i, e, t, k, rfl, hi, rfl, hp⟩ := next_cases hn
  obtain ⟨r, s₁, ha, rfl⟩ := move_call h hi hp
  simp only [act, Option.map_eq_some_iff, Prod.mk.injEq] at ha
  obtain ⟨w, -, -, rfl⟩ := ha
  exact List.mem_cons_of_mem _ List.mem_cons_self

/-- Where a thread comes from. -/
theorem move_thread (h : Move P s l s') {i : ℕ} {t' : Thread} (ht : s'.threads i = some t') :
    s.threads i = some t' ∨
    (i < P.poolThreads ∧ ∃ t ∈ s.tasks, ∃ script, t' = ⟨t, script, [], t.prog P script⟩) ∨
    ∃ e t a k r, l = .thread i e ∧ s.threads i = some t ∧ t.prog = .call a k ∧
      t' = { t with hist := t.hist ++ [⟨a, r⟩], prog := k r } ∧
      .did t.task.origin ⟨a, r⟩ ∈ s'.log ∧
      ∃ s₁, act P t.task.origin a e s = some (r, s₁) ∧ s'.db = s₁.db := by
  cases h with
  | dequeue j script t rest hlt hj hq =>
      simp only [Function.update_apply] at ht
      split_ifs at ht with e
      · subst e
        obtain rfl := Option.some.inj ht
        exact .inr (.inl ⟨hlt, t, by simp [hq], script, rfl⟩)
      · exact .inl ht
  | finish j e t hj hp =>
      simp only [Function.update_apply] at ht
      split_ifs at ht with e
      exact .inl ht
  | call j e t a k r s₁ hj hp ha =>
      simp only [Function.update_apply] at ht
      split_ifs at ht with hij
      · subst hij
        obtain rfl := Option.some.inj ht
        exact .inr (.inr ⟨e, t, a, k, r, rfl, hj, hp, rfl, List.mem_cons_self, s₁, ha, rfl⟩)
      · rw [(effect_threads (act_effect ha)).1] at ht
        exact .inl ht
  | _ => exact .inl ht

/-- The task that a step hands to the pool. -/
def State.offers (s : State) : Label → Option Task
  | .read c hdr body => (s.net.conns c).map fun d => .business ⟨s.nextPid, c, d.ctx⟩ hdr body
  | .dispatch => s.ai.handoff.map .stream
  | _ => none

/-- A task is queued because it was, or because this step has handed it over. -/
theorem move_offers (h : Move P s l s') {t : Task} (ht : t ∈ s'.tasks) :
    t ∈ s.tasks ∨ s.offers l = some t := by
  cases h with
  | read c d hdr body ts hd hev hfr hts =>
      rcases hts with rfl | rfl
      · exact .inl ht
      · rcases List.mem_append.mp ht with ht | ht
        · exact .inl ht
        · rw [List.mem_singleton.mp ht, State.offers, hd]
          exact .inr rfl
  | dispatch req ts hh hts =>
      rcases hts with rfl | rfl
      · exact .inl ht
      · rcases List.mem_append.mp ht with ht | ht
        · exact .inl ht
        · rw [List.mem_singleton.mp ht, State.offers, hh]
          exact .inr rfl
  | call i e t a k r s₁ hi hp ha =>
      dsimp only at ht
      rw [(effect_threads (act_effect ha)).2.1] at ht
      exact .inl ht
  | dequeue i script t₀ rest hlt hi hq =>
      rw [hq]
      exact .inl (List.mem_cons_of_mem _ ht)
  | _ => exact .inl ht

/-- Where a task comes from. -/
theorem move_task (h : Move P s l s') {t : Task} (ht : t ∈ s'.tasks) :
    t ∈ s.tasks ∨ (∃ o hdr body, t = .business o hdr body ∧ .received o hdr body ∈ s'.log) ∨
      ∃ req, t = .stream req ∧ s.ai.handoff = some req := by
  rcases move_offers h ht with ht | hoffer
  · exact .inl ht
  cases h with
  | read c d hdr body ts hd hev hfr hts =>
      rw [State.offers, hd] at hoffer
      obtain rfl := Option.some.inj hoffer
      exact .inr (.inl ⟨_, hdr, body, rfl, List.mem_cons_self⟩)
  | dispatch req ts hh hts =>
      rw [State.offers, hh] at hoffer
      obtain rfl := Option.some.inj hoffer
      exact .inr (.inr ⟨req, rfl, hh⟩)
  | _ => cases hoffer

/-! ## AI requests -/

theorem enqueue_pending {ai : AIManager} {fd : Int} {req r : StreamRequest}
    (h : r ∈ (ai.enqueue fd req).2.pending) : r ∈ ai.pending ∨ r = req := by
  unfold AIManager.enqueue at h
  split_ifs at h
  · exact .inl h
  · exact .inl h
  · simpa using h

theorem enqueue_refused {ai : AIManager} {fd : Int} {req : StreamRequest}
    (h : (ai.enqueue fd req).1 = false) : (ai.enqueue fd req).2 = ai := by
  unfold AIManager.enqueue at h ⊢
  split_ifs at h ⊢
  · rfl
  · rfl

theorem enqueue_rest (ai : AIManager) (fd : Int) (req : StreamRequest) :
    (ai.enqueue fd req).2.handoff = ai.handoff ∧ (ai.enqueue fd req).2.active = ai.active := by
  unfold AIManager.enqueue
  split_ifs <;> exact ⟨rfl, rfl⟩

theorem eraseStream_rest (ai : AIManager) (fd : Int) :
    (ai.eraseStream fd).pending = ai.pending ∧ (ai.eraseStream fd).handoff = ai.handoff ∧
      (ai.eraseStream fd).active ⊆ ai.active := by
  unfold AIManager.eraseStream
  split_ifs
  · exact ⟨rfl, rfl, List.filter_sublist.subset⟩
  · exact ⟨rfl, rfl, List.Subset.refl _⟩

/-- Where the AI requests come from. -/
theorem move_request (h : Move P s l s') {req : StreamRequest}
    (hr : req ∈ s'.ai.pending ∨ s'.ai.handoff = some req ∨ ∃ p ∈ s'.ai.active, p.2 = req) :
    (req ∈ s.ai.pending ∨ s.ai.handoff = some req ∨ ∃ p ∈ s.ai.active, p.2 = req) ∨
      ∃ o fd, s.next l = some (o, .aiEnqueue fd req) := by
  cases h with
  | call i e t a k r s₁ hi hp ha =>
      have hn := next_thread e hi hp
      cases act_effect ha with
      | ai _ ai' h =>
          rcases h with ⟨fd, req', rfl, rfl⟩ | ⟨rfl, rfl⟩ | ⟨x, rfl, rfl⟩
          · obtain ⟨h1, h2⟩ := enqueue_rest s.ai fd req'
            dsimp only at hr
            rw [h1, h2] at hr
            rcases hr with hr | hr
            · rcases enqueue_pending hr with hr | rfl
              · exact .inl (.inl hr)
              · exact .inr ⟨_, fd, hn⟩
            · exact .inl (.inr hr)
          · exact .inl hr
          · obtain ⟨h1, h2, h3⟩ := eraseStream_rest s.ai (s.net.ctxs x).fd
            dsimp only at hr
            rw [h1, h2] at hr
            rcases hr with hr | hr | ⟨p, hp, hpr⟩
            · exact .inl (.inl hr)
            · exact .inl (.inr (.inl hr))
            · exact .inl (.inr (.inr ⟨p, h3 hp, hpr⟩))
      | _ => exact .inl hr
  | cancel c d uid hd hp =>
      rcases hr with hr | hr | ⟨p, hp, hpr⟩
      · exact .inl (.inl hr)
      · exact .inl (.inr (.inl hr))
      · exact .inl (.inr (.inr ⟨p, (List.mem_filter.mp hp).1, hpr⟩))
  | expire req' rest now w f hq hw ho hx hy =>
      rcases hr with hr | hr
      · exact .inl (.inl (by rw [hq]; exact List.mem_cons_of_mem _ hr))
      · exact .inl (.inr hr)
  | forget req' rest now hq =>
      rcases hr with hr | hr
      · exact .inl (.inl (by rw [hq]; exact List.mem_cons_of_mem _ hr))
      · exact .inl (.inr hr)
  | activate req' rest now hq hn hfd =>
      rcases hr with hr | hr | ⟨p, hp, hpr⟩
      · exact .inl (.inl (by rw [hq]; exact List.mem_cons_of_mem _ hr))
      · obtain rfl : req' = req := Option.some.inj hr
        exact .inl (.inl (by simp [hq]))
      · simp only [AIManager.activate, List.mem_append, List.mem_filter, List.mem_singleton] at hp
        rcases hp with ⟨hp, -⟩ | rfl
        · exact .inl (.inr (.inr ⟨p, hp, hpr⟩))
        · exact .inl (.inl (by simp [hq, ← hpr]))
  | dispatch req' ts hh hts =>
      rcases hr with hr | hr | hr
      · exact .inl (.inl hr)
      · cases hr
      · exact .inl (.inr (.inr hr))
  | _ => exact .inl hr

/-- The AI request that a step of the scheduler starts. -/
def State.starts (s : State) : Label → Option StreamRequest
  | .schedule now => match s.ai.pending with
      | [] => none
      | req :: _ =>
          if 30 < now - req.timestamp ∨ (s.net.ctxs req.origin.ctx).fd < 0 then none else some req
  | _ => none

/-- A stream is active because it was or because this step has started it. -/
theorem move_active (h : Move P s l s') {p : Int × StreamRequest} (hp : p ∈ s'.ai.active) :
    p ∈ s.ai.active ∨ s.starts l = some p.2 := by
  cases h with
  | call i e t a k r s₁ hi hpr ha =>
      cases act_effect ha with
      | ai _ ai' h =>
          rcases h with ⟨fd, req', rfl, rfl⟩ | ⟨rfl, rfl⟩ | ⟨x, rfl, rfl⟩
          · dsimp only at hp
            rw [(enqueue_rest s.ai fd req').2] at hp
            exact .inl hp
          · exact .inl hp
          · exact .inl ((eraseStream_rest s.ai (s.net.ctxs x).fd).2.2 hp)
      | _ => exact .inl hp
  | cancel c d uid hd hph => exact .inl (List.mem_filter.mp hp).1
  | activate req' rest now hq hn hfd =>
      simp only [AIManager.activate, List.mem_append, List.mem_filter, List.mem_singleton] at hp
      rcases hp with ⟨hp, -⟩ | rfl
      · exact .inl hp
      · exact .inr (by simp only [State.starts, hq, hn, hfd, or_self, if_false])
  | _ => exact .inl hp

/-! ## The record -/

/-- How a step comes to record an entry. -/
inductive Recorded (P : Params) (s : State) (l : Label) (s' : State) : Entry → Prop
  | received (c : ℕ) (d : Conn) (hdr : PacketHeader) (body : Bytes) (hd : s.net.conns c = some d)
      (hnet : s'.net = s.net) : Recorded P s l s' (.received ⟨s.nextPid, c, d.ctx⟩ hdr body)
  | did (i : ℕ) (e : Ext) (t : Thread) (a : Call) (k : Reply a → Prog Reply Unit) (r : Reply a)
      (s₁ : State) (hl : l = .thread i e) (hi : s.threads i = some t) (hp : t.prog = .call a k)
      (ha : act P t.task.origin a e s = some (r, s₁)) (hnet : s'.net = s₁.net) (hdb : s'.db = s₁.db) :
      Recorded P s l s' (.did t.task.origin ⟨a, r⟩)
  | queued (f : Frame) (holder : Option ℕ) (uid : Int) : Recorded P s l s' (.queued f holder uid)
  | appended (w num : ℕ) (f : Frame) (rest : List Functor) (c : ℕ) (d : Conn) (hl : l = .functor w)
      (hb : (s.net.workers w).busy = none)
      (hq : (s.net.workers w).batch = ⟨num, .send f⟩ :: rest) (ha : s.net.accepts P w f = some (c, d)) :
      Recorded P s l s' (.appended c f (s.net.ctxs d.ctx).uid)
  | closed (num : ℕ) (kick : Option Kick) (rest : List Functor) (c : ℕ) (d : Conn)
      (hd : s.net.conns c = some d) (hp : d.phase = .opened)
      (hq : (s.net.workers d.worker).batch = ⟨num, .close d.fd kick⟩ :: rest) :
      Recorded P s l s' (.left c kick)
  | dropped (c : ℕ) : Recorded P s l s' (.left c none)
  | submitted (o : Origin) (m : DBChatMessage) (hn : s.next l = some (o, .submit m)) :
      Recorded P s l s' (.submitted o m s.net.nextNum)

/-- **An entry of the record was there before the step, or the step has come to record it.** -/
theorem recorded_of_move (h : Move P s l s') {en : Entry} (hr : en ∈ s'.log) :
    en ∈ s.log ∨ Recorded P s l s' en := by
  cases h with
  | sent w num f rest c d hb hq ha =>
      rcases List.mem_cons.mp hr with rfl | hr
      · exact .inr (.appended w num f rest c d rfl hb hq ha)
      · exact .inl hr
  | closed num kick rest c d hb hq hd hp =>
      rcases List.mem_cons.mp hr with rfl | hr
      · exact .inr (.closed num kick rest c d hd hp hq)
      · exact .inl hr
  | read c d hdr body ts hd hev hfr hts =>
      rcases List.mem_cons.mp hr with rfl | hr
      · exact .inr (.received c d hdr body hd rfl)
      · exact .inl hr
  | drop c d hd hev =>
      rcases List.mem_cons.mp hr with rfl | hr
      · exact .inr (.dropped c)
      · exact .inl hr
  | expire req rest now w f hq hw ho hx hy =>
      rcases List.mem_cons.mp hr with rfl | hr
      · exact .inr (.queued f _ _)
      · exact .inl hr
  | call i e t a k r s₁ hi hp ha =>
      rcases List.mem_cons.mp hr with rfl | hr₁
      · exact .inr (.did i e t a k r s₁ rfl hi hp ha rfl rfl)
      -- what the call itself records
      rcases effect_log_eq (act_effect ha) with h1 | ⟨x, cmd, seq, body, why, -, h1⟩ | ⟨m, rfl, h1⟩
      · rw [h1] at hr₁
        exact .inl hr₁
      · rw [h1] at hr₁
        rcases List.mem_cons.mp hr₁ with rfl | hr₂
        · exact .inr (.queued _ _ _)
        · exact .inl hr₂
      · rw [h1] at hr₁
        rcases List.mem_cons.mp hr₁ with rfl | hr₂
        · exact .inr (.submitted _ m (next_thread e hi hp))
        · exact .inl hr₂
  | _ => exact .inl hr

theorem move_received (h : Move P s l s') {o : Origin} {hdr : PacketHeader} {body : Bytes}
    (hr : .received o hdr body ∈ s'.log) :
    .received o hdr body ∈ s.log ∨ (o.pid = s.nextPid ∧ ∃ d, s.net.conns o.conn = some d ∧
      d.ctx = o.ctx ∧ s'.net = s.net) := by
  refine (recorded_of_move h hr).imp_right fun hrec => ?_
  cases hrec with
  | received c d _ _ hd hnet => exact ⟨rfl, d, hd, rfl, hnet⟩

theorem move_appended (h : Move P s l s') {c : ℕ} {f : Frame} {uid : Int}
    (hr : .appended c f uid ∈ s'.log) :
    .appended c f uid ∈ s.log ∨ ∃ w num rest d, l = .functor w ∧ (s.net.workers w).busy = none ∧
      (s.net.workers w).batch = ⟨num, .send f⟩ :: rest ∧ s.net.accepts P w f = some (c, d) ∧
      uid = (s.net.ctxs d.ctx).uid := by
  refine (recorded_of_move h hr).imp_right fun hrec => ?_
  cases hrec with
  | appended w num _ rest _ d hl hb hq ha => exact ⟨w, num, rest, d, hl, hb, hq, ha, rfl⟩

theorem move_left (h : Move P s l s') {c : ℕ} {k : Kick} (hr : .left c (some k) ∈ s'.log) :
    .left c (some k) ∈ s.log ∨ ∃ d num rest, s.net.conns c = some d ∧ d.phase = .opened ∧
      (s.net.workers d.worker).batch = ⟨num, .close d.fd (some k)⟩ :: rest := by
  refine (recorded_of_move h hr).imp_right fun hrec => ?_
  cases hrec with
  | closed num _ rest _ d hd hp hq => exact ⟨d, num, rest, hd, hp, hq⟩

theorem move_did (h : Move P s l s') {o : Origin} {ev : Event Reply} (hr : .did o ev ∈ s'.log) :
    .did o ev ∈ s.log ∨ ∃ i e t k s₁, l = .thread i e ∧ s.threads i = some t ∧ t.task.origin = o ∧
      t.prog = .call ev.1 k ∧ act P o ev.1 e s = some (ev.2, s₁) ∧ s'.net = s₁.net ∧
      s'.db = s₁.db := by
  refine (recorded_of_move h hr).imp_right fun hrec => ?_
  cases hrec with
  | did i e t a k r s₁ hl hi hp ha hnet hdb =>
      exact ⟨i, e, t, k, s₁, hl, hi, rfl, hp, ha, hnet, hdb⟩

theorem move_submitted (h : Move P s l s') {o : Origin} {m : DBChatMessage} {num : ℕ}
    (hr : .submitted o m num ∈ s'.log) :
    .submitted o m num ∈ s.log ∨ (s.next l = some (o, .submit m) ∧ num = s.net.nextNum) := by
  refine (recorded_of_move h hr).imp_right fun hrec => ?_
  cases hrec with
  | submitted _ _ hn => exact ⟨hn, rfl⟩

theorem accepts_eq (hwf : s.net.WF P) {w num : ℕ} {f : Frame} {rest : List Functor} {c : ℕ} {d : Conn}
    (hb : (s.net.workers w).busy = none) (hq : (s.net.workers w).batch = ⟨num, .send f⟩ :: rest)
    (ha : s.net.accepts P w f = some (c, d)) :
    s.net.conns c = some d ∧ d.phase = .opened ∧ d.ctx = f.ctx := by
  have hmem : (⟨num, .send f⟩ : Functor) ∈ (s.net.workers w).queue := by simp [Worker.queue, hq]
  have hr : s.net.route w f = some (c, d) := (Option.filter_eq_some_iff.mp ha).1
  obtain ⟨hd, -, hp, hx⟩ := hwf.route_eq hb (hwf.send_owner w _ hmem f rfl) hr
  exact ⟨hd, hp, hx⟩

/-! ## Reading the record -/

/-- The frames that have been appended, newest first. -/
def appends (log : List Entry) : List (ℕ × Frame × Int) :=
  log.filterMap fun e => match e with
    | .appended c f uid => some (c, f, uid)
    | _ => none

theorem mem_appends {log : List Entry} {c : ℕ} {f : Frame} {uid : Int} :
    (c, f, uid) ∈ appends log ↔ .appended c f uid ∈ log := by
  constructor
  · intro h
    obtain ⟨e, he, heq⟩ := List.mem_filterMap.mp h
    split at heq
    · simp only [Option.some.injEq, Prod.mk.injEq] at heq
      obtain ⟨rfl, rfl, rfl⟩ := heq
      exact he
    · cases heq
  · exact fun h => List.mem_filterMap.mpr ⟨_, h, rfl⟩

theorem appends_eq_cons {log : List Entry} {c : ℕ} {f : Frame} {uid : Int}
    {rest : List (ℕ × Frame × Int)} (h : appends log = (c, f, uid) :: rest) :
    ∃ older, .appended c f uid :: older <:+ log ∧ appends older = rest := by
  obtain ⟨newer, e, older, rfl, -, heq, hrest⟩ := List.filterMap_eq_cons_iff.mp h
  refine ⟨older, ?_, hrest⟩
  split at heq
  · simp only [Option.some.injEq, Prod.mk.injEq] at heq
    obtain ⟨rfl, rfl, rfl⟩ := heq
    exact List.suffix_append _ _
  · cases heq

end AuraChat
