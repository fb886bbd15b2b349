import Mathlib.Tactic.Abel
import AuraChat.Lib.Settle
import AuraChat.Safety.Contexts

set_option autoImplicit false

/-!
# The server settles

Once nothing new comes in, the server works off what it has taken in, whatever the order of its threads:
every functor runs, every close ends, every task is processed to its end, and the writer stores what it
was given. The steps that do this cannot go on for ever, and where they end nothing is left to do.

* `Working`: the steps that wait for nothing from outside;
* `Work`, `Work.Smaller`, `State.measure`: what they lower;
* `Idle`, **`settled_idle`**: where they end.
-/

namespace AuraChat

open Interleave Relation

variable {P : Params} {db : Store} {C : Label → State → Prop} {s s' : State} {l : Label}

/-- The steps that wait for nothing from outside but a client that reads: no connection is accepted, no
packet is received, and no connection is dropped. A worker swaps its functors and the writer empties
its queue only if there is something in it, and `handle_write` writes at least one byte. -/
def Working : Label → State → Prop
  | .accept _, _ => False
  | .read _ _ _, _ => False
  | .drop _, _ => False
  | .swap w, s => (s.net.workers w).pending ≠ []
  | .drain, s => s.db.queue ≠ []
  | .write c count, s => 0 < count ∧ ∃ d ∈ s.net.conns c, (s.net.ctxs d.ctx).sendBuf ≠ []
  | _, _ => True

/-! ## Tasks and AI requests -/

/-- A piece of work in the pool or in the AI manager. -/
inductive Work
  | task (t : Task)
  | prog (t : Task) (p : Prog Reply Unit)
  | pending (req : StreamRequest)
  | handoff (req : StreamRequest)

/-- What a piece of work turns into: a task is started, a thread makes a call, a packet asks the AI, a
request is taken from the queue, and its task goes to the pool. -/
inductive Work.Smaller : Work → Work → Prop
  | start (t : Task) (p : Prog Reply Unit) : Smaller (.prog t p) (.task t)
  | next (t : Task) (p q : Prog Reply Unit) (h : Prog.Rest q p) : Smaller (.prog t q) (.prog t p)
  | ask (o : Origin) (hdr : PacketHeader) (body : Bytes) (p : Prog Reply Unit) (req : StreamRequest) :
      Smaller (.pending req) (.prog (.business o hdr body) p)
  | hand (req : StreamRequest) : Smaller (.handoff req) (.pending req)
  | give (req : StreamRequest) : Smaller (.task (.stream req)) (.handoff req)

theorem Work.acc_stream (req : StreamRequest) (p : Prog Reply Unit) :
    Acc Work.Smaller (.prog (.stream req) p) := by
  induction p using Prog.wf_rest.induction with
  | _ p ih =>
    refine Acc.intro _ fun w hw => ?_
    cases hw with
    | next _ _ q h => exact ih q h

theorem Work.acc_pending (req : StreamRequest) : Acc Work.Smaller (.pending req) := by
  have task : Acc Work.Smaller (.task (.stream req)) := Acc.intro _ fun w hw => by
    cases hw with
    | start _ p => exact acc_stream req p
  have handoff : Acc Work.Smaller (.handoff req) := Acc.intro _ fun w hw => by
    cases hw with
    | give => exact task
  exact Acc.intro _ fun w hw => by
    cases hw with
    | hand => exact handoff

theorem Work.acc_prog (t : Task) (p : Prog Reply Unit) : Acc Work.Smaller (.prog t p) := by
  cases t with
  | stream req => exact acc_stream req p
  | business o hdr body =>
      induction p using Prog.wf_rest.induction with
      | _ p ih =>
        refine Acc.intro _ fun w hw => ?_
        cases hw with
        | next _ _ q h => exact ih q h
        | ask _ _ _ _ req => exact acc_pending req

/-- **Work does not turn into smaller work for ever.** -/
theorem Work.wf_smaller : WellFounded Work.Smaller := by
  have task : ∀ t, Acc Work.Smaller (.task t) := fun t => Acc.intro _ fun w hw => by
    cases hw with
    | start _ p => exact acc_prog t p
  refine ⟨fun w => ?_⟩
  cases w with
  | task t => exact task t
  | prog t p => exact acc_prog t p
  | pending req => exact acc_pending req
  | handoff req =>
      exact Acc.intro _ fun w hw => by
        cases hw with
        | give => exact task (.stream req)

/-- The work of a thread. -/
def Thread.work (t : Thread) : Work := .prog t.task t.prog

/-- What the AI manager has in hand. -/
def AIManager.work (ai : AIManager) : Multiset Work :=
  (ai.pending.map Work.pending : List Work) + (ai.handoff.toList.map Work.handoff : List Work)

/-- The work of the pool and of the AI manager. -/
def State.work (P : Params) (s : State) : Multiset Work :=
  slots P.poolThreads (fun i => (s.threads i).map Thread.work) +
    ((s.tasks.map Work.task : List Work) + s.ai.work)

theorem exists_work {i : ℕ} (hi : i < P.poolThreads) (threads : ℕ → Option Thread) : ∃ m : Multiset Work,
    slots P.poolThreads (fun j => (threads j).map Thread.work) =
      ((threads i).map Thread.work).toList + m ∧
    ∀ v, slots P.poolThreads (fun j => (Function.update threads i v j).map Thread.work) =
      (v.map Thread.work).toList + m := by
  obtain ⟨m, hm⟩ := exists_slots hi fun j => (threads j).map Thread.work
  have upd : ∀ v, slots P.poolThreads (fun j => (Function.update threads i v j).map Thread.work) =
      (v.map Thread.work).toList + m := by
    intro v
    rw [← hm (v.map Thread.work)]
    refine congrArg _ (funext fun j => ?_)
    simp only [Function.update_apply]
    split_ifs <;> rfl
  refine ⟨m, ?_, upd⟩
  rw [← upd, Function.update_eq_self]

theorem Traced.asks (ht : Traced P s) {i : ℕ} {t : Thread} {fd : Int} {req : StreamRequest}
    {k : Bool → Prog Reply Unit} (hi : s.threads i = some t) (hp : t.prog = .call (.aiEnqueue fd req) k) :
    ∃ o hdr body, t.task = .business o hdr body := by
  have hpath := ht.path i t hi
  rw [hp] at hpath
  cases htask : t.task with
  | business o hdr body => exact ⟨o, hdr, body, rfl⟩
  | stream r =>
      rw [htask] at hpath
      exact (hpath.guard (processStreamRequest_calls t.script)).elim

theorem AIManager.enqueue_work (fd : Int) (req : StreamRequest) (ai : AIManager) :
    (ai.enqueue fd req).2.work = ai.work ∨
      (ai.enqueue fd req).2.work = {Work.pending req} + ai.work := by
  unfold AIManager.enqueue
  split_ifs
  · exact .inl rfl
  · exact .inl rfl
  · refine .inr ?_
    simp only [AIManager.work, List.map_append, List.map_cons, List.map_nil, ← Multiset.coe_add,
      Multiset.coe_singleton]
    abel

theorem effect_work {o : Origin} {a : Call} (h : Effect P o s a s') :
    s'.ai.work = s.ai.work ∨
      ∃ fd req, a = .aiEnqueue fd req ∧ s'.ai.work = {Work.pending req} + s.ai.work := by
  cases h with
  | ai _ ai h =>
      rcases h with ⟨fd, req, rfl, rfl⟩ | ⟨-, rfl⟩ | ⟨x, -, rfl⟩
      · exact (AIManager.enqueue_work fd req s.ai).imp_right fun e => ⟨fd, req, rfl, e⟩
      · exact .inl rfl
      · obtain ⟨h1, h2, -⟩ := eraseStream_rest s.ai (s.net.ctxs x).fd
        exact .inl (by simp only [AIManager.work, h1, h2])
  | _ => exact .inl rfl

theorem work_popped {req : StreamRequest} {rest : List StreamRequest} (hq : s.ai.pending = req :: rest)
    (h₁ : s'.ai.pending = rest) (h₂ : s'.ai.handoff = s.ai.handoff) (h₃ : s'.threads = s.threads)
    (h₄ : s'.tasks = s.tasks) : CutExpand Work.Smaller (s'.work P) (s.work P) := by
  refine CutExpand.replace (t := 0) (a := .pending req) (m := s'.work P) (by simp) ?_ (zero_add _).symm
  simp only [State.work, AIManager.work, h₁, h₂, h₃, h₄, hq, List.map_cons, coe_cons_eq]
  abel

theorem schedule_handoff {now : Int} (hs : step P (.schedule now) s = some s') : s.ai.handoff = none := by
  simp only [step] at hs
  split at hs
  · assumption
  · cases hs

/-- The steps of the pool and of the AI scheduler. -/
def Label.isPool : Label → Bool
  | .dequeue _ _ | .thread _ _ | .schedule _ | .dispatch => true
  | _ => false

/-- **The steps of the pool and of the AI manager turn work into smaller work**, and the other steps leave
it alone. -/
theorem work_step (ht : Traced P s) (h : Move P s l s') (hs : step P l s = some s') (hc : Working l s) :
    CutExpand Work.Smaller (s'.work P) (s.work P) ∨ (s'.work P = s.work P ∧ l.isPool = false) := by
  cases h with
  | dequeue i script t rest hlt hi hq =>
      obtain ⟨m, hm, hm'⟩ := exists_work hlt s.threads
      refine .inl (CutExpand.replace (t := {(⟨t, script, [], t.prog P script⟩ : Thread).work})
        (a := .task t) (m := m + ((rest.map Work.task : List Work) + s.ai.work)) ?_ ?_ ?_)
      · exact fun b hb => by rw [Multiset.mem_singleton.mp hb]; exact .start _ _
      · rw [State.work, hm, hi, hq, List.map_cons, coe_cons_eq]
        simp only [Option.map_none, Option.toList_none, Multiset.coe_nil]
        abel
      · simp only [State.work, hm', Option.map_some, Option.toList_some, Multiset.coe_singleton]
        abel
  | finish i e t hi hp =>
      obtain ⟨m, hm, hm'⟩ := exists_work (ht.lt i t hi) s.threads
      refine .inl (CutExpand.replace (t := 0) (a := t.work)
        (m := m + ((s.tasks.map Work.task : List Work) + s.ai.work)) (by simp) ?_ ?_)
      · simp only [State.work, hm, hi, Option.map_some, Option.toList_some, Multiset.coe_singleton]
        abel
      · simp only [State.work, hm', Option.map_none, Option.toList_none, Multiset.coe_nil]
        abel
  | call i e t a k r s₁ hi hp ha =>
      obtain ⟨m, hm, hm'⟩ := exists_work (ht.lt i t hi) s.threads
      obtain ⟨hth, htasks, -⟩ := effect_threads (act_effect ha)
      have smaller : Work.Smaller (.prog t.task (k r)) t.work := by
        rw [Thread.work, hp]
        exact .next _ _ _ (.next a k r)
      rcases effect_work (act_effect ha) with hai | ⟨fd, req, rfl, hai⟩
      · refine .inl (CutExpand.replace (t := {.prog t.task (k r)}) (a := t.work)
          (m := m + ((s.tasks.map Work.task : List Work) + s.ai.work)) ?_ ?_ ?_)
        · exact fun b hb => by rw [Multiset.mem_singleton.mp hb]; exact smaller
        · simp only [State.work, hm, hi, Option.map_some, Option.toList_some, Multiset.coe_singleton]
          abel
        · simp only [State.work, hth, htasks, hai, hm', Option.map_some, Option.toList_some,
            Multiset.coe_singleton, Thread.work]
          abel
      · -- the packet hands a request to the AI manager
        obtain ⟨o, hdr, body, htask⟩ := ht.asks hi hp
        have asked : Work.Smaller (.pending req) t.work := by
          rw [Thread.work, htask]
          exact .ask o hdr body _ req
        refine .inl (CutExpand.replace (t := {.prog t.task (k r)} + {.pending req}) (a := t.work)
          (m := m + ((s.tasks.map Work.task : List Work) + s.ai.work)) ?_ ?_ ?_)
        · intro b hb
          rcases Multiset.mem_add.mp hb with hb | hb
          · rw [Multiset.mem_singleton.mp hb]; exact smaller
          · rw [Multiset.mem_singleton.mp hb]; exact asked
        · simp only [State.work, hm, hi, Option.map_some, Option.toList_some, Multiset.coe_singleton]
          abel
        · simp only [State.work, hth, htasks, hai, hm', Option.map_some, Option.toList_some,
            Multiset.coe_singleton, Thread.work]
          abel
  | expire req rest now w f hq hw ho hx hy =>
      exact .inl (work_popped hq rfl rfl rfl rfl)
  | forget req rest now hq => exact .inl (work_popped hq rfl rfl rfl rfl)
  | activate req rest now hq hn hfd =>
      have hh := schedule_handoff hs
      refine .inl (CutExpand.replace (t := {.handoff req}) (a := .pending req)
        (m := slots P.poolThreads (fun i => (s.threads i).map Thread.work) +
          ((s.tasks.map Work.task : List Work) + (rest.map Work.pending : List Work))) ?_ ?_ ?_)
      · exact fun b hb => by rw [Multiset.mem_singleton.mp hb]; exact .hand req
      · simp only [State.work, AIManager.work, hh, hq, List.map_cons, coe_cons_eq, Option.toList_none,
          List.map_nil, Multiset.coe_nil]
        abel
      · simp only [State.work, AIManager.work, AIManager.activate, Option.toList_some, List.map_cons,
          List.map_nil, Multiset.coe_singleton]
        abel
  | dispatch req ts hh hts =>
      have hw : s.work P = {.handoff req} + (slots P.poolThreads (fun i => (s.threads i).map Thread.work) +
          ((s.tasks.map Work.task : List Work) + (s.ai.pending.map Work.pending : List Work))) := by
        simp only [State.work, AIManager.work, hh, Option.toList_some, List.map_cons, List.map_nil,
          Multiset.coe_singleton]
        abel
      rcases hts with rfl | rfl
      · -- the pool has refused the task
        refine .inl (CutExpand.replace (t := 0) (by simp) hw ?_)
        simp only [State.work, AIManager.work, Option.toList_none, List.map_nil, Multiset.coe_nil]
        abel
      · refine .inl (CutExpand.replace (t := {.task (.stream req)}) ?_ hw ?_)
        · exact fun b hb => by rw [Multiset.mem_singleton.mp hb]; exact .give req
        · simp only [State.work, AIManager.work, Option.toList_none, List.map_append, List.map_cons,
            List.map_nil, Multiset.coe_nil, ← Multiset.coe_add, Multiset.coe_singleton]
          abel
  | accept | read | drop => exact hc.elim
  | _ => exact .inr ⟨rfl, rfl⟩

/-! ## Functors, closes and the writer -/

/-- What a functor in a batch costs: a send may queue a close, and a close has the statements of
`close_impl` before it. -/
def Job.cost : Job → ℕ
  | .add _ => 1
  | .close _ _ => 8
  | .send _ => 10

def Worker.cost (k : Worker) : ℕ :=
  (k.batch.map fun f => f.job.cost).sum + (k.pending.map fun f => f.job.cost + 1).sum

theorem Worker.cost_swap {k : Worker} (hb : k.batch = []) (hp : k.pending ≠ []) :
    ({ k with batch := k.pending, pending := [] } : Worker).cost < k.cost := by
  have hpos := List.length_pos_of_ne_nil hp
  simp only [Worker.cost, hb, List.map_nil, List.sum_nil, List.sum_map_add, List.map_const',
    List.sum_replicate, smul_eq_mul, Nat.mul_one]
  omega

/-- The statements of `close_impl` that a connection has before it. -/
def Phase.cost : Phase → ℕ
  | .opened => 0
  | .check => 7
  | .loadCancel => 6
  | .cancel _ => 5
  | .loadUnbind => 4
  | .unbind _ => 3
  | .closeFd => 2
  | .release => 1
  | .closed => 0

def connCost (d : Option Conn) : ℕ := d.elim 0 fun d => d.phase.cost

def Net.cost (P : Params) (n : Net) : ℕ :=
  ∑ w ∈ Finset.range P.cfg.workerNum, (n.workers w).cost +
    ∑ c ∈ Finset.range n.nextConn, connCost (n.conns c)

/-- What the writer still has to take and to store. -/
def Store.cost (st : Store) : ℕ := 2 * st.queue.length + st.batch.length

/-- The bytes in the send buffers. -/
def Net.unsent (n : Net) : ℕ := ∑ x ∈ Finset.range n.nextCtx, (n.ctxs x).sendBuf.length

/-- There is a worker for everything that a worker does. -/
structure Staffed (P : Params) (s : State) : Prop where
  queue : ∀ w, (s.net.workers w).queue ≠ [] → w < P.cfg.workerNum
  conn : ∀ c d, s.net.conns c = some d → d.worker < P.cfg.workerNum

theorem owner_lt {n : Net} (hwf : n.WF P) {x w : ℕ} (h : (n.ctxs x).ownerWorker = some w) :
    w < P.cfg.workerNum := by
  by_cases hx : P.pooled x
  · rw [(hwf.owner x hx).1, Option.some.injEq] at h
    have hlt : x < P.cfg.workerNum * P.cfg.poolSize := hx
    rw [← h]
    exact Nat.div_lt_of_lt_mul (by rwa [Nat.mul_comm])
  · rw [(hwf.no_owner x hx).1] at h
    cases h

theorem move_pushed (hwf' : s'.net.WF P) (h : Move P s l s') {w : ℕ} {f : Functor} (hf : f ∈ (s'.net.workers w).queue) :
    (s.net.workers w).queue ≠ [] ∨ (∃ fd, l = .accept fd ∧ w = s.rr % P.cfg.workerNum) ∨
      ∃ x, (s.net.ctxs x).ownerWorker = some w := by
  rcases move_queue h hf with hf' | ⟨hnum, -⟩
  · exact .inl (List.ne_nil_of_mem hf')
  -- a step that queues nothing leaves the counter of the functors alone
  have hlt := hwf'.num_lt w f hf
  cases h with
  | accept fd h0 hfd =>
      rcases Net.mem_push.mp hf with hf | ⟨rfl, -⟩
      · exact .inl (List.ne_nil_of_mem hf)
      · exact .inr (.inl ⟨fd, rfl, rfl⟩)
  | overflow w' num f' rest c d hb hq ha hr =>
      rcases Net.mem_push.mp hf with hf | ⟨rfl, -⟩
      · exact .inl (List.ne_nil_of_mem (popBatch_queue_subset hq w hf))
      · exact .inl (by simp [Worker.queue, hq])
  | call i e t a k r s₁ hi hp ha =>
      cases act_effect ha with
      | send x cmd seq body why w' hw | kick old fd w' hw =>
          rcases Net.mem_push.mp hf with hf | ⟨rfl, -⟩
          · exact .inl (List.ne_nil_of_mem hf)
          · exact .inr (.inr ⟨_, hw⟩)
      | _ => exact absurd hnum (Nat.ne_of_lt hlt)
  | expire req rest now w' f' hq hw ho hx hy =>
      rcases Net.mem_push.mp hf with hf | ⟨rfl, -⟩
      · exact .inl (List.ne_nil_of_mem hf)
      · exact .inr (.inr ⟨_, hw⟩)
  | add w' num fd rest hb hq =>
      rw [addConnection_queue] at hf
      exact .inl (List.ne_nil_of_mem (popBatch_queue_subset hq w hf))
  | release c d hd hp =>
      rw [(Net.releaseContext_static c d).2.2.1] at hlt
      exact absurd hnum (Nat.ne_of_lt hlt)
  | _ => exact absurd hnum (Nat.ne_of_lt hlt)

theorem staffed_step (hwf : s.net.WF P) (hst : Staffed P s) (hs : step P l s = some s') :
    Staffed P s' := by
  have hm := move_of_step hwf hs
  have hwf' := wf_move hwf hm
  refine ⟨fun w hw => ?_, fun c d hd => ?_⟩
  · obtain ⟨f, hf⟩ := List.exists_mem_of_ne_nil _ hw
    rcases move_pushed hwf' hm hf with hq | ⟨fd, rfl, rfl⟩ | ⟨x, hx⟩
    · exact hst.queue w hq
    · simp only [step] at hs
      split_ifs at hs with hfd
      exact Nat.mod_lt _ hfd.2.2
    · exact owner_lt hwf hx
  · rcases move_conns hm with e | ⟨c', d', ph, hd', -, -, e⟩ | ⟨w, fd, num, rest, -, hq, -, e⟩
    · exact hst.conn c d (by rwa [e] at hd)
    · rw [e, Function.update_apply] at hd
      split_ifs at hd
      · obtain rfl := Option.some.inj hd
        exact hst.conn c' d' hd'
      · exact hst.conn c d hd
    · rw [e, Function.update_apply] at hd
      split_ifs at hd
      · obtain rfl := Option.some.inj hd
        exact hst.queue w (by simp [Worker.queue, hq])
      · exact hst.conn c d hd

namespace Net

variable {n m : Net}

theorem cost_congr (hw : ∀ w, (m.workers w).batch = (n.workers w).batch ∧
    (m.workers w).pending = (n.workers w).pending) (hc : m.conns = n.conns)
    (hn : m.nextConn = n.nextConn) : m.cost P = n.cost P := by
  have hcost : ∀ w, (m.workers w).cost = (n.workers w).cost := fun w => by
    simp only [Worker.cost, (hw w).1, (hw w).2]
  simp only [cost, hcost, hc, hn]

theorem cost_updWorker {w : ℕ} (hw : w < P.cfg.workerNum) (f : Worker → Worker) :
    (n.updWorker w f).cost P + (n.workers w).cost = n.cost P + (f (n.workers w)).cost := by
  have := sum_update hw n.workers Worker.cost (f (n.workers w))
  simp only [cost, updWorker]
  omega

theorem cost_setConn {c : ℕ} (hc : c < n.nextConn) (d : Conn) :
    (n.setConn c d).cost P + connCost (n.conns c) = n.cost P + d.phase.cost := by
  have := sum_update hc n.conns connCost (some d)
  simp only [cost, setConn, connCost, Option.elim] at this ⊢
  omega

theorem cost_popBatch {w : ℕ} (hw : w < P.cfg.workerNum) {f : Functor} {rest : List Functor}
    (hq : (n.workers w).batch = f :: rest) : (n.popBatch w rest).cost P + f.job.cost = n.cost P := by
  have := cost_updWorker (n := n) hw fun k => { k with batch := rest }
  simp only [Worker.cost, hq, List.map_cons, List.sum_cons] at this
  simp only [popBatch]
  omega

theorem cost_push {w : ℕ} (hw : w < P.cfg.workerNum) (job : Job) :
    (n.push w job).cost P = n.cost P + job.cost + 1 := by
  have := cost_updWorker (n := n) hw fun k => { k with pending := k.pending ++ [⟨n.nextNum, job⟩] }
  simp only [Worker.cost, List.map_append, List.map_cons, List.map_nil, List.sum_append, List.sum_cons,
    List.sum_nil] at this
  have hcost : (n.push w job).cost P =
      (n.updWorker w fun k => { k with pending := k.pending ++ [⟨n.nextNum, job⟩] }).cost P := rfl
  omega

theorem acquire_cost (w w' : ℕ) : ((n.acquire P w).2.workers w').cost = (n.workers w').cost := by
  simp only [acquire]
  split
  · rfl
  · rw [updWorker_apply]
    split_ifs with e <;> simp [e, Worker.cost]

theorem attach_cost (w : ℕ) (fd : Int) (x w' : ℕ) :
    ((n.attach w fd x).workers w').cost = (n.workers w').cost := by
  rw [attach_workers]
  split_ifs with e <;> simp [e, Worker.cost]

theorem cost_addConnection (w : ℕ) (fd : Int) : (n.addConnection P w fd).cost P = n.cost P := by
  have hold : ∀ c ∈ Finset.range n.nextConn,
      connCost ((n.addConnection P w fd).conns c) = connCost (n.conns c) := by
    intro c hc
    rw [addConnection_conns, Function.update_of_ne (Nat.ne_of_lt (Finset.mem_range.mp hc))]
  have hnew : connCost ((n.addConnection P w fd).conns n.nextConn) = 0 := by
    rw [addConnection_conns, Function.update_self]
    rfl
  have hn : (n.addConnection P w fd).nextConn = n.nextConn + 1 := by
    rw [addConnection_eq, attach, acquire_nextConn]
  have hw : ∀ w', ((n.addConnection P w fd).workers w').cost = (n.workers w').cost := fun w' => by
    rw [addConnection_eq, attach_cost, acquire_cost]
  rw [cost, cost, hn, Finset.sum_range_succ, Finset.sum_congr rfl hold, hnew]
  simp only [hw, Nat.add_zero]

theorem cost_setPhase (hwf : n.WF P) {c : ℕ} {d : Conn} (hd : n.conns c = some d) (ph : Phase) :
    (n.setConn c { d with phase := ph }).cost P + d.phase.cost = n.cost P + ph.cost := by
  have := cost_setConn (P := P) (hwf.conn_lt c d hd) { d with phase := ph }
  rwa [hd] at this

theorem cost_leave (hwf : n.WF P) {c : ℕ} {d : Conn} (hd : n.conns c = some d)
    (hp : d.phase = .opened) : (n.leave c d).cost P = n.cost P + 7 := by
  have hset := cost_setPhase hwf hd .check
  rw [hp] at hset
  have : (n.leave c d).cost P = (n.setConn c { d with phase := .check }).cost P := by
    refine cost_congr (fun w => ?_) rfl rfl
    simp only [leave, updWorker_apply]
    split_ifs with e <;> simp [e]
  simpa only [this, Phase.cost, Nat.add_zero] using hset

theorem cost_releaseContext (hwf : n.WF P) {c : ℕ} {d : Conn} (hd : n.conns c = some d)
    (hp : d.phase = .release) : (n.releaseContext c d).cost P + 1 = n.cost P := by
  have hset := cost_setPhase hwf hd .closed
  rw [hp] at hset
  have : (n.releaseContext c d).cost P = (n.setConn c { d with phase := .closed }).cost P := by
    refine cost_congr (fun w => ?_) ?_ (releaseContext_static c d).1
    · simp only [releaseContext]
      split_ifs <;> simp only [updWorker_apply] <;> split_ifs with e <;> simp [e, updCtx, setConn]
    · funext c'
      rw [releaseContext_conns, setConn_apply]
  simpa only [this, Phase.cost, Nat.add_zero] using hset

end Net

/-- What the workers and the writer still have to do. -/
def State.cost (P : Params) (s : State) : ℕ := s.net.cost P + s.db.cost

theorem drain_cost {st : Store} (hb : st.batch = []) (hq : st.queue ≠ []) :
    st.drain.cost < st.cost := by
  have := List.length_pos_of_ne_nil hq
  simp only [Store.cost, Store.drain, hb, List.nil_append, List.length_nil, List.length_drop,
    List.length_take]
  omega

theorem flush_cost {st : Store} (ok : Bool) (hb : st.batch ≠ []) : (st.flush ok).cost < st.cost := by
  have := List.length_pos_of_ne_nil hb
  simp only [Store.cost, Store.flush]
  split_ifs <;> simp only [List.length_nil] <;> omega

/-- **The steps of the workers and of the writer lower the cost**, but for `handle_write`, which leaves
less to write. -/
theorem cost_step (hwf : s.net.WF P) (hst : Staffed P s) (h : Move P s l s')
    (hs : step P l s = some s') (hc : Working l s) (hl : l.isPool = false) :
    s'.cost P < s.cost P ∨ (s'.cost P = s.cost P ∧ s'.net.unsent < s.net.unsent) := by
  have staffed : ∀ {w : ℕ} {f : Functor} {rest : List Functor}, (s.net.workers w).batch = f :: rest →
      w < P.cfg.workerNum := fun {w} _ _ hq => hst.queue w (by simp [Worker.queue, hq])
  cases h with
  | accept | read | drop => exact hc.elim
  | dequeue | finish | call | expire | forget | activate | dispatch => cases hl
  | swap w hb hq =>
      left
      have hw := hst.queue w (by simp [Worker.queue, hq, show (s.net.workers w).pending ≠ [] from hc])
      have := Net.cost_updWorker (n := s.net) hw fun k => { k with batch := k.pending, pending := [] }
      have hlt := Worker.cost_swap hq hc
      simp only [State.cost]
      omega
  | add w num fd rest hb hq =>
      have := Net.cost_popBatch (staffed hq) hq
      simp only [State.cost, Net.cost_addConnection]
      simp only [Job.cost] at this
      omega
  | sent w num f rest c d hb hq ha =>
      have := Net.cost_popBatch (staffed hq) hq
      have happ : ((s.net.popBatch w rest).append f d).cost P = (s.net.popBatch w rest).cost P :=
        Net.cost_congr (fun _ => ⟨rfl, rfl⟩) rfl rfl
      simp only [State.cost, happ]
      simp only [Job.cost] at this
      omega
  | lost w num f rest hb hq ha =>
      have := Net.cost_popBatch (staffed hq) hq
      simp only [State.cost]
      simp only [Job.cost] at this
      omega
  | overflow w num f rest c d hb hq ha hr =>
      have := Net.cost_popBatch (staffed hq) hq
      simp only [State.cost, Net.cost_push (staffed hq)]
      simp only [Job.cost] at this ⊢
      omega
  | missed w num fd kick rest hb hq hc' =>
      have := Net.cost_popBatch (staffed hq) hq
      simp only [State.cost]
      simp only [Job.cost] at this
      omega
  | closed num kick rest c d hb hq hd hp =>
      have := Net.cost_popBatch (staffed hq) hq
      simp only [State.cost, Net.cost_leave (wf_popBatch hwf hq) hd hp]
      simp only [Job.cost] at this
      omega
  | write c d count hd hev =>
      obtain ⟨hpos, d', hd', hne⟩ := hc
      obtain rfl := Option.some.inj (hd.symm.trans hd')
      refine .inr ⟨rfl, ?_⟩
      have := sum_update (hwf.ctx_lt c d hd) s.net.ctxs (fun x => x.sendBuf.length)
        { s.net.ctxs d.ctx with
          sendBuf := (s.net.ctxs d.ctx).sendBuf.drop count
          writing := if (s.net.ctxs d.ctx).sendBuf.drop count = [] then false
            else (s.net.ctxs d.ctx).writing }
      have hlen := List.length_pos_of_ne_nil hne
      simp only [List.length_drop] at this
      simp only [Net.unsent, Net.updCtx]
      omega
  | check c d hd hp =>
      have := Net.cost_setPhase hwf hd (if 0 < (s.net.ctxs d.ctx).uid then .loadCancel else .closeFd)
      rw [hp] at this
      simp only [State.cost]
      split_ifs at this ⊢ <;> simp only [Phase.cost] at this <;> omega
  | loadCancel c d hd hp =>
      have := Net.cost_setPhase hwf hd (.cancel (s.net.ctxs d.ctx).uid)
      rw [hp] at this
      simp only [Phase.cost] at this
      simp only [State.cost]
      omega
  | cancel c d uid hd hp =>
      have := Net.cost_setPhase hwf hd .loadUnbind
      rw [hp] at this
      simp only [Phase.cost] at this
      simp only [State.cost]
      omega
  | loadUnbind c d hd hp =>
      have := Net.cost_setPhase hwf hd (.unbind (s.net.ctxs d.ctx).uid)
      rw [hp] at this
      simp only [Phase.cost] at this
      simp only [State.cost]
      omega
  | unbind c d uid hd hp =>
      have := Net.cost_setPhase hwf hd .closeFd
      rw [hp] at this
      simp only [Phase.cost] at this
      simp only [State.cost]
      omega
  | closeFd c d hd hp =>
      have := Net.cost_setPhase hwf hd .release
      rw [hp] at this
      have hclose : (s.net.closeDescriptor c d).cost P =
          (s.net.setConn c { d with phase := .release }).cost P :=
        Net.cost_congr (fun _ => ⟨rfl, rfl⟩) rfl rfl
      simp only [Phase.cost] at this
      simp only [State.cost, hclose]
      omega
  | release c d hd hp =>
      have := Net.cost_releaseContext hwf hd hp
      simp only [State.cost]
      omega
  | drain hb =>
      have := drain_cost hb hc
      simp only [State.cost]
      omega
  | flush ok hn =>
      have hb : s.db.batch ≠ [] := by
        simp only [step] at hs
        split_ifs at hs with hb
        exact hb.1
      have := flush_cost ok hb
      simp only [State.cost]
      omega

/-! ## The end -/

/-- What the working steps lower: first the work of the pool and of the AI manager, then what the workers
and the writer have to do, then what is in the send buffers. -/
def State.measure (P : Params) (s : State) : Multiset Work × ℕ × ℕ := (s.work P, s.cost P, s.net.unsent)

theorem staffed_of_run (h : RunTo P db C s) : Staffed P s := by
  refine h.invariant_reach (Staffed P) ⟨fun w hw => ?_, fun c d hd => by cases hd⟩
    fun _ _ _ hr _ hst hs => staffed_step (wf_of_run hr) hst hs
  exact absurd (Net.init_queue P w) hw

/-- **The working steps come to an end.** -/
theorem acc_working (h : RunTo P db C s) : Acc (Succ (step P) Working) s := by
  have wf : WellFounded (Prod.Lex (CutExpand Work.Smaller) (Prod.Lex (· < ·) (· < ·)) :
      Multiset Work × ℕ × ℕ → Multiset Work × ℕ × ℕ → Prop) :=
    Work.wf_smaller.cutExpand.prod_lex (wellFounded_lt.prod_lex wellFounded_lt)
  refine acc_of_measure wf (State.measure P) (fun s => RunTo P db (fun _ _ => True) s) ?_
    (h.mono fun _ _ _ => trivial)
  intro l s s' hr hc hs
  refine ⟨hr.tail trivial hs, ?_⟩
  have hm := move_of_step (wf_of_run hr) hs
  rcases work_step (traced_of_run hr) hm hs hc with hw | ⟨hw, hl⟩
  · exact .left _ _ hw
  · rw [State.measure, State.measure, hw]
    rcases cost_step (wf_of_run hr) (staffed_of_run hr) hm hs hc hl with hlt | ⟨he, hlt⟩
    · exact .right _ (.left _ _ hlt)
    · rw [he]
      exact .right _ (.right _ hlt)

theorem act_eq_none {o : Origin} {a : Call} {e : Ext} (h : act P o a e s = none) :
    ∃ x, a.derefs = some x ∧ (s.net.ctxs x).ownerWorker = none := by
  cases a with
  | queueSendPacket x cmd seq body why => exact ⟨x, rfl, by simpa [act] using h⟩
  | queueCloseConnection old fd => exact ⟨old.ctx, rfl, by simpa [act] using h⟩
  | registerUser | addFriendRequest | acceptFriendRequest | bindEnter =>
      simp only [act] at h
      split at h <;> cases h
  | _ => simp [act] at h

/-- Nothing is left to do. Requests may still wait for the AI, while all of its slots are taken, and the
writer stops when it has run out of ids. -/
structure Idle (P : Params) (s : State) : Prop where
  tasks : s.tasks = []
  threads : ∀ i, s.threads i = none
  handoff : s.ai.handoff = none
  pending : s.ai.pending = [] ∨ P.cfg.aiMaxConcurrent ≤ s.ai.active.length
  queue : ∀ w, (s.net.workers w).queue = []
  conns : ∀ c d, s.net.conns c = some d →
    d.phase = .closed ∨ (d.phase = .opened ∧ (s.net.ctxs d.ctx).sendBuf = [])
  writer : (s.db.queue = [] ∧ s.db.batch = []) ∨
    s.db.idLimit < s.db.nextMsgId + s.db.batch.length

theorem settled_worker (hwf : s.net.WF P) (hset : Settled (step P) Working s) (w : ℕ) :
    (s.net.workers w).busy = none ∧ (s.net.workers w).batch = [] ∧ (s.net.workers w).pending = [] := by
  have hb : (s.net.workers w).busy = none := by
    by_contra hne
    obtain ⟨c, hc⟩ := Option.ne_none_iff_exists'.mp hne
    obtain ⟨d, hd, -, ho, hcl⟩ := (hwf.busy w c).mp hc
    have hstep := hset (.close w) trivial
    simp only [step, hc, hd, State.closeStep] at hstep
    cases hp : d.phase with
    | opened => exact ho hp
    | closed => exact hcl hp
    | _ => rw [hp] at hstep; cases hstep
  have hq : (s.net.workers w).batch = [] := by
    by_contra hne
    obtain ⟨f, rest, hf⟩ := List.exists_cons_of_ne_nil hne
    have hstep := hset (.functor w) trivial
    simp only [step, hb, hf] at hstep
    cases hstep
  refine ⟨hb, hq, ?_⟩
  by_contra hne
  have hstep := hset (.swap w) hne
  simp [step, hb, hq] at hstep

theorem settled_writer (hset : Settled (step P) Working s) : (s.db.queue = [] ∧ s.db.batch = []) ∨
    s.db.idLimit < s.db.nextMsgId + s.db.batch.length := by
  by_cases hb : s.db.batch = []
  · refine .inl ⟨?_, hb⟩
    by_contra hne
    have hstep := hset .drain hne
    simp [step, hb] at hstep
  · right
    have hstep := hset (.flush true) trivial
    simp only [step] at hstep
    split_ifs at hstep with hc
    push Not at hc
    exact hc hb

/-- **Where the working steps end, the server is idle**, unless a thread is about to go through a null
`owner_worker`. -/
theorem settled_idle (h : RunTo P db C s) (hset : Settled (step P) Working s)
    (hown : ∀ l x, s.derefs l = some x → (s.net.ctxs x).ownerWorker ≠ none) : Idle P s := by
  have hwf := wf_of_run h
  have ht := traced_of_run h
  have threads : ∀ i, s.threads i = none := by
    intro i
    by_contra hne
    obtain ⟨t, hi⟩ := Option.ne_none_iff_exists'.mp hne
    have hstep := hset (.thread i {}) trivial
    simp only [step, hi, State.threadStep] at hstep
    split at hstep
    · cases hstep
    · rename_i a k hp
      obtain ⟨x, hx, hnull⟩ := act_eq_none (Option.map_eq_none_iff.mp hstep)
      refine hown (.thread i {}) x ?_ hnull
      rw [State.derefs, next_thread {} hi hp]
      exact hx
  have tasks : s.tasks = [] := by
    by_contra hne
    obtain ⟨t, rest, hq⟩ := List.exists_cons_of_ne_nil hne
    -- the packet of the task was received on a connection, which has a worker
    obtain ⟨d, hd, -⟩ := ht.conn_of_received (ht.task t (by simp [hq])).received
    have hlt := (staffed_of_run h).conn _ d hd
    have hpool : 0 < P.poolThreads := by
      unfold Params.poolThreads
      omega
    have hstep := hset (.dequeue 0 {}) trivial
    simp only [step, threads 0, hq, if_pos hpool] at hstep
    cases hstep
  have handoff : s.ai.handoff = none := by
    by_contra hne
    obtain ⟨req, hh⟩ := Option.ne_none_iff_exists'.mp hne
    have hstep := hset .dispatch trivial
    simp only [step, hh] at hstep
    cases hstep
  refine ⟨tasks, threads, handoff, ?_, fun w => ?_, fun c d hd => ?_, settled_writer hset⟩
  · by_contra hne
    push Not at hne
    obtain ⟨req, rest, hq⟩ := List.exists_cons_of_ne_nil hne.1
    have hstep := hset (.schedule 0) trivial
    simp only [step, handoff, hq, if_pos hne.2] at hstep
    cases hstep
  · obtain ⟨-, hb, hp⟩ := settled_worker hwf hset w
    rw [Worker.queue, hb, hp]
    rfl
  · obtain ⟨hb, hq, -⟩ := settled_worker hwf hset d.worker
    by_cases hcl : d.phase = .closed
    · exact .inl hcl
    by_cases ho : d.phase = .opened
    · refine .inr ⟨ho, ?_⟩
      by_contra hne
      have hstep := hset (.write c 1) ⟨Nat.one_pos, d, hd, hne⟩
      simp [step, hd, State.atEvents, ho, hb, hq] at hstep
    · have := (hwf.busy d.worker c).mpr ⟨d, hd, rfl, ho, hcl⟩
      rw [hb] at this
      cases this

end AuraChat
