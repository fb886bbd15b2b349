import AuraChat.Lib.Lists
import AuraChat.Safety.Order
import AuraChat.Server.Submits

set_option autoImplicit false

/-!
# Requests on their way

An AI request waits in `pending_requests_`, is held by the scheduler between its critical section and
`enqueue`, waits on the pool, and is at work until `process_stream_request` returns.

* `State.running`, `State.unfinished`: the requests that the scheduler has taken and that have not
  returned;
* `AiTurn`, **`aiTurn_of_move`**: what a step does with the requests;
* `stream_call`: a stream returns with the erase of its entry;
* `Distinct`, **`distinct_of_run`**: every packet has at most one request, at one place.
-/

namespace AuraChat

open Interleave

variable {P : Params} {db : Store} {C : Label → State → Prop} {s s' : State} {l : Label}

/-! ## Unfinished requests -/

/-- The AI request of a task. -/
def Task.request : Task → Option StreamRequest
  | .business _ _ _ => none
  | .stream req => some req

/-- The AI request that a thread is at work on: `process_stream_request` has not returned. -/
def Thread.stream (t : Thread) : Option StreamRequest :=
  match t.prog with
  | .ret _ => none
  | .call _ _ => t.task.request

/-- The AI request that thread `i` is at work on. -/
def State.running (s : State) (i : ℕ) : Option StreamRequest := (s.threads i).bind Thread.stream

/-- **The requests that have been scheduled and have not returned**: the one that the scheduler holds,
those on the pool and those at work. -/
def State.unfinished (P : Params) (s : State) : List StreamRequest :=
  s.ai.handoff.toList ++ s.tasks.filterMap Task.request ++
    (List.range P.poolThreads).filterMap s.running

theorem running_eq_some {i : ℕ} {req : StreamRequest} :
    s.running i = some req ↔
      ∃ t a k, s.threads i = some t ∧ t.task = .stream req ∧ t.prog = .call a k := by
  constructor
  · intro h
    obtain ⟨⟨task, script, hist, prog⟩, hi, h⟩ := Option.bind_eq_some_iff.mp h
    cases prog with
    | ret x => cases h
    | call a k =>
        cases task with
        | business => cases h
        | stream req' =>
            obtain rfl : req' = req := Option.some.inj h
            exact ⟨_, a, k, hi, rfl, rfl⟩
  · rintro ⟨⟨task, script, hist, prog⟩, a, k, hi, rfl, rfl⟩
    simp only [State.running, hi, Option.bind_some, Thread.stream, Task.request]

theorem mem_requests {ts : List Task} {req : StreamRequest} :
    req ∈ ts.filterMap Task.request ↔ .stream req ∈ ts := by
  rw [List.mem_filterMap]
  constructor
  · rintro ⟨t, ht, e⟩
    cases t with
    | business => cases e
    | stream req' =>
        obtain rfl : req' = req := Option.some.inj e
        exact ht
  · exact fun h => ⟨_, h, rfl⟩

theorem mem_unfinished (ht : Traced P s) {req : StreamRequest} :
    req ∈ s.unfinished P ↔
      s.ai.handoff = some req ∨ .stream req ∈ s.tasks ∨ ∃ i, s.running i = some req := by
  have hrun : (∃ i ∈ List.range P.poolThreads, s.running i = some req) ↔
      ∃ i, s.running i = some req := by
    constructor
    · rintro ⟨i, -, h⟩
      exact ⟨i, h⟩
    · rintro ⟨i, h⟩
      obtain ⟨t, -, -, hi, -⟩ := running_eq_some.mp h
      exact ⟨i, List.mem_range.mpr (ht.lt i t hi), h⟩
  simp only [State.unfinished, List.mem_append, Option.mem_toList, mem_requests, or_assoc]
  rw [List.mem_filterMap, hrun]

/-! ## The calls of a stream -/

/-- **A stream returns with the erase of its entry**, and goes on after every other call. -/
theorem stream_call (ht : Traced P s) {i : ℕ} {t : Thread} {a : Call}
    {k : Reply a → Prog Reply Unit} (hi : s.threads i = some t) (hp : t.prog = .call a k)
    {req : StreamRequest} (hreq : t.task = .stream req) (r : Reply a) :
    StreamGuard req t.hist a ∧
      ((a = .eraseStream req.origin.ctx ∧ k r = .ret ()) ∨
        ((∀ x, a ≠ .eraseStream x) ∧ ∃ b k', k r = .call b k')) := by
  have hpath := ht.path i t hi
  rw [hp, hreq] at hpath
  have hg := hpath.guard (processStreamRequest_guard t.script)
  refine ⟨hg, ?_⟩
  have hnext := (hpath.snoc r).sat (processStreamRequest_guard t.script)
  by_cases ha : ∃ x, a = .eraseStream x
  · obtain ⟨x, hx⟩ := ha
    refine .inl ⟨by rw [hx, hg.2.2.1 x hx], ?_⟩
    cases hk : k r with
    | ret y => rfl
    | call b k' =>
        -- nothing is left to do once the entry is erased
        rw [hk] at hnext
        exact absurd hx (hnext.1.2.1 ⟨a, r⟩ (by simp) x)
  · have hne : ∀ x, a ≠ .eraseStream x := fun x hx => ha ⟨x, hx⟩
    refine .inr ⟨hne, ?_⟩
    cases hk : k r with
    | call b k' => exact ⟨b, k', rfl⟩
    | ret y =>
        rw [hk] at hnext
        obtain ⟨e, he, x, hx⟩ := hnext
        rcases List.mem_append.mp he with he | he
        · exact absurd hx (hg.2.1 e he x)
        · rw [List.mem_singleton.mp he] at hx
          exact absurd hx (hne x)

theorem Traced.stream_of_call (ht : Traced P s) {i : ℕ} {t : Thread} {a : Call}
    {k : Reply a → Prog Reply Unit} (hi : s.threads i = some t) (hp : t.prog = .call a k)
    (ha : a.ofAi = true) (hne : ∀ fd req, a ≠ .aiEnqueue fd req) : ∃ req, t.task = .stream req := by
  cases htask : t.task with
  | stream req => exact ⟨req, rfl⟩
  | business o hdr body =>
      have hpath := ht.path i t hi
      rw [hp, htask] at hpath
      obtain ⟨⟨fd, req, e⟩, -⟩ := hpath.guard (processBusiness_submits P o hdr body) ha
      exact absurd e (hne fd req)

/-! ## Turns -/

/-- **What a step does with the AI requests.** -/
inductive AiTurn (P : Params) (s : State) (l : Label) (s' : State) : Prop
  | keep (hp : s'.ai.pending = s.ai.pending) (hu : (s'.unfinished P).Subperm (s.unfinished P))
  | submit (o : Origin) (fd : Int) (req : StreamRequest)
      (hn : s.next l = some (o, .aiEnqueue fd req)) (hp : s'.ai.pending = s.ai.pending ++ [req])
      (hu : (s'.unfinished P).Subperm (s.unfinished P))
  | forget (req : StreamRequest) (hp : s.ai.pending = req :: s'.ai.pending)
      (hu : (s'.unfinished P).Subperm (s.unfinished P))
  | start (req : StreamRequest) (hp : s.ai.pending = req :: s'.ai.pending)
      (hs : s.starts l = some req)
      (he : ((s.net.ctxs req.origin.ctx).fd, req) ∈ s'.ai.active)
      (hu : (s'.unfinished P).Subperm (req :: s.unfinished P))

theorem unfinished_subperm (hh : s'.ai.handoff = s.ai.handoff) (hq : s'.tasks = s.tasks)
    (hr : ∀ i, s'.running i = none ∨ s'.running i = s.running i) :
    (s'.unfinished P).Subperm (s.unfinished P) := by
  unfold State.unfinished
  rw [hh, hq]
  exact (List.subperm_append_left _).mpr (filterMap_sublist _ hr).subperm

theorem dequeue_unfinished {i : ℕ} {script : Script} {t : Task} {rest : List Task}
    (hlt : i < P.poolThreads) (hi : s.threads i = none) (hq : s.tasks = t :: rest) :
    ({ s with
        tasks := rest
        threads := Function.update s.threads i (some ⟨t, script, [], t.prog P script⟩) }
      : State).unfinished P |>.Subperm (s.unfinished P) := by
  have hnone : s.running i = none := by simp [State.running, hi]
  cases t with
  | business o hdr body =>
      have htasks : s.tasks.filterMap Task.request = rest.filterMap Task.request := by
        simp only [hq, List.filterMap_cons, Task.request]
      unfold State.unfinished
      rw [htasks]
      refine (List.subperm_append_left _).mpr (filterMap_sublist _ fun j => ?_).subperm
      by_cases hj : j = i
      · subst hj
        refine .inl ?_
        simp only [State.running, Function.update_self, Option.bind_some, Thread.stream]
        split <;> rfl
      · exact .inr (by simp only [State.running, Function.update_of_ne hj])
  | stream req =>
      have hrun : ({ s with
            tasks := rest
            threads := Function.update s.threads i
              (some ⟨.stream req, script, [], (Task.stream req).prog P script⟩) } : State).running =
          Function.update s.running i (some req) := by
        funext j
        by_cases hj : j = i
        · subst hj
          rw [Function.update_self]
          exact running_eq_some.mpr ⟨_, _, _, Function.update_self .., rfl, rfl⟩
        · simp only [State.running, Function.update_of_ne hj]
      simp only [State.unfinished, hrun, hq, List.filterMap_cons, Task.request]
      refine ((filterMap_range_update s.running hlt hnone req).append_left _).subperm.trans ?_
      simp only [List.append_assoc]
      refine (List.Perm.append_left _ ?_).subperm
      exact List.perm_middle

theorem aiTurn_of_call {i : ℕ} {e : Ext} {t : Thread} {a : Call} {k : Reply a → Prog Reply Unit}
    {r : Reply a} {s₁ : State} (hi : s.threads i = some t) (hp : t.prog = .call a k)
    (ha : act P t.task.origin a e s = some (r, s₁)) (hai : s'.ai = s₁.ai) (hq : s'.tasks = s₁.tasks)
    (hth : s'.threads = Function.update s₁.threads i
      (some { t with hist := t.hist ++ [⟨a, r⟩], prog := k r })) :
    AiTurn P s (.thread i e) s' := by
  have he := act_effect ha
  obtain ⟨hthreads, htasks, -⟩ := effect_threads he
  rw [htasks] at hq
  have hrun : ∀ j, s'.running j = none ∨ s'.running j = s.running j := by
    intro j
    by_cases hj : j = i
    · subst hj
      simp only [State.running, hth, Function.update_self, Option.bind_some, hi, Thread.stream, hp]
      cases k r with
      | ret x => exact .inl rfl
      | call b k' => exact .inr rfl
    · exact .inr (by simp only [State.running, hth, Function.update_of_ne hj, hthreads])
  cases he with
  | ai _ ai' h =>
      rcases h with ⟨fd, req, rfl, rfl⟩ | ⟨rfl, rfl⟩ | ⟨x, rfl, rfl⟩
      · have hhand : s'.ai.handoff = s.ai.handoff := by rw [hai, (enqueue_rest s.ai fd req).1]
        have hu := unfinished_subperm (P := P) hhand hq hrun
        dsimp only [AIManager.enqueue] at hai
        split_ifs at hai
        · exact .keep (by rw [hai]) hu
        · exact .keep (by rw [hai]) hu
        · exact .submit _ fd req (next_thread e hi hp) (by rw [hai]) hu
      · exact .keep (by rw [hai]) (unfinished_subperm (by rw [hai]) hq hrun)
      · have hrest := eraseStream_rest s.ai (s.net.ctxs x).fd
        exact .keep (by rw [hai, hrest.1]) (unfinished_subperm (by rw [hai, hrest.2.1]) hq hrun)
  | _ =>
      exact .keep (congrArg AIManager.pending hai)
        (unfinished_subperm (congrArg AIManager.handoff hai) hq hrun)

theorem aiTurn_of_move (h : Move P s l s') : AiTurn P s l s' := by
  cases h with
  | call i e t a k r s₁ hi hp ha => exact aiTurn_of_call hi hp ha rfl rfl rfl
  | dequeue i script t rest hlt hi hq => exact .keep rfl (dequeue_unfinished hlt hi hq)
  | finish i e t hi hp =>
      refine .keep rfl (unfinished_subperm rfl rfl fun j => ?_)
      by_cases hj : j = i
      · subst hj
        exact .inl (by simp [State.running])
      · exact .inr (by simp only [State.running, Function.update_of_ne hj])
  | read c d hdr body ts hd hev hfr hts =>
      refine .keep rfl ?_
      rcases hts with rfl | rfl
      · exact List.Subperm.refl _
      · simp only [State.unfinished, List.filterMap_append, List.filterMap_cons, Task.request,
          List.filterMap_nil, List.append_nil]
        exact List.Subperm.refl _
  | expire req rest now w f hq hw ho hx hy => exact .forget req hq (List.Subperm.refl _)
  | forget req rest now hq => exact .forget req hq (List.Subperm.refl _)
  | activate req rest now hq hn hfd =>
      refine .start req hq (by simp only [State.starts, hq, hn, hfd, or_self, if_false])
        (List.mem_append_right _ List.mem_cons_self) ?_
      simp only [State.unfinished, AIManager.activate, Option.toList_some, List.append_assoc,
        List.singleton_append]
      exact (List.subperm_cons req).mpr (List.sublist_append_right _ _).subperm
  | dispatch req ts hh hts =>
      refine .keep rfl ?_
      simp only [State.unfinished, hh, Option.toList_none, Option.toList_some, List.nil_append]
      rcases hts with rfl | rfl
      · exact (List.subperm_append_right _).mpr (List.sublist_append_right [req] _).subperm
      · simp only [List.filterMap_append, List.filterMap_cons, Task.request, List.filterMap_nil]
        exact (List.perm_append_comm.append_right _).subperm
  | _ => exact .keep rfl (List.Subperm.refl _)

/-- The requests that wait or stream: what there was, or one that is being submitted. -/
theorem carried_back (h : Move P s l s') {r : StreamRequest}
    (hr : r ∈ s'.ai.pending ++ s'.unfinished P) :
    r ∈ s.ai.pending ++ s.unfinished P ∨ ∃ o fd, s.next l = some (o, .aiEnqueue fd r) := by
  have back : ∀ {us : List StreamRequest}, (s'.unfinished P).Subperm us → r ∈ s'.ai.pending ∨ r ∈ us :=
    fun hu => (List.mem_append.mp hr).imp_right fun hm => hu.subset hm
  simp only [List.mem_append]
  cases aiTurn_of_move h with
  | keep hp hu =>
      rw [← hp]
      exact .inl (back hu)
  | submit o fd req hn hp hu =>
      rcases back hu with hr | hr
      · rw [hp, List.mem_append, List.mem_singleton] at hr
        rcases hr with hr | rfl
        · exact .inl (.inl hr)
        · exact .inr ⟨o, fd, hn⟩
      · exact .inl (.inr hr)
  | forget req hp hu =>
      rw [hp]
      exact .inl ((back hu).imp_left (List.mem_cons_of_mem _))
  | start req hp hs he hu =>
      rw [hp]
      left
      rcases back hu with hr | hr
      · exact .inl (List.mem_cons_of_mem _ hr)
      · rcases List.mem_cons.mp hr with rfl | hr
        · exact .inl List.mem_cons_self
        · exact .inr hr

/-! ## One request for a packet -/

/-- The packet has been handed to the AI manager, or never will be: it is not on the pool, and a thread
at work on it has made its submission. -/
structure Submitted (s : State) (pid : ℕ) : Prop where
  lt : pid < s.nextPid
  task : ∀ o hdr body, .business o hdr body ∈ s.tasks → o.pid ≠ pid
  thread : ∀ i t o hdr body, s.threads i = some t → t.task = .business o hdr body → o.pid = pid →
    ¬ Unsubmitted t.hist

theorem nextPid_le (h : Move P s l s') : s.nextPid ≤ s'.nextPid := by
  rcases move_pid h with ⟨e, -⟩ | e <;> omega

theorem submitted_move {pid : ℕ} (hs : Submitted s pid) (h : Move P s l s') : Submitted s' pid := by
  have hlt := hs.lt
  refine ⟨lt_of_lt_of_le hlt (nextPid_le h), fun o hdr body ht => ?_,
    fun i t' o hdr body hi htask he => ?_⟩
  · rcases move_tasks h with e | ⟨t, e⟩ | ⟨t, e, hnew⟩
    · exact hs.task o hdr body (by rwa [e] at ht)
    · exact hs.task o hdr body (by rw [e]; exact List.mem_cons_of_mem _ ht)
    · rw [e, List.mem_append, List.mem_singleton] at ht
      rcases ht with ht | ht
      · exact hs.task o hdr body ht
      · rcases hnew with ⟨hdr', body', c, x, rfl⟩ | ⟨req, rfl⟩
        · obtain ⟨rfl, -, -⟩ := Task.business.inj ht
          exact Nat.ne_of_gt hlt
        · cases ht
  · rcases move_thread h hi with hi | ⟨-, t, ht, script, rfl⟩ | ⟨e, t, a, k, r, -, hi₀, -, rfl, -⟩
    · exact hs.thread i t' o hdr body hi htask he
    · obtain rfl : t = .business o hdr body := htask
      exact absurd he (hs.task o hdr body ht)
    · intro hu
      exact hs.thread i t o hdr body hi₀ htask he fun ev hev => hu ev (List.mem_append_left _ hev)

/-- **Every packet has at most one request, at one place.** -/
structure Distinct (P : Params) (s : State) : Prop where
  threads : ∀ i j t t' o o' hdr hdr' body body', s.threads i = some t → s.threads j = some t' →
    t.task = .business o hdr body → t'.task = .business o' hdr' body' → o.pid = o'.pid → i = j
  nodup : ((s.ai.pending ++ s.unfinished P).map fun r => r.origin.pid).Nodup
  submitted : ∀ r ∈ s.ai.pending ++ s.unfinished P, Submitted s r.origin.pid

theorem unfinished_init : (State.init P db).unfinished P = [] := by
  simp only [State.unfinished, State.init, Option.toList_none, List.filterMap_nil, List.append_nil,
    List.nil_append, List.filterMap_eq_nil_iff]
  exact fun _ _ => rfl

theorem Distinct.unfinished_nodup (hd : Distinct P s) : (s.unfinished P).Nodup :=
  (List.Nodup.of_map _ hd.nodup).sublist (List.sublist_append_right _ _)

theorem distinct_init : Distinct P (State.init P db) := by
  refine ⟨fun i j t t' o o' hdr hdr' body body' hi => ?_, ?_, fun r hr => ?_⟩
  · cases hi
  · rw [unfinished_init]
    exact List.nodup_nil
  · rw [unfinished_init] at hr
    cases hr

/-- A packet that is taken off the queue was received after those at work. -/
theorem distinct_threads_move (hf : Fifo s) (hd : Distinct P s) (h : Move P s l s') (i j : ℕ)
    (t t' : Thread) (o o' : Origin) (hdr hdr' : PacketHeader) (body body' : Bytes)
    (hi : s'.threads i = some t) (hj : s'.threads j = some t') (ht : t.task = .business o hdr body)
    (ht' : t'.task = .business o' hdr' body') (he : o.pid = o'.pid) : i = j := by
  have old : ∀ {i : ℕ} {t : Thread} {o : Origin} {hdr : PacketHeader} {body : Bytes} {task : Task}
      {rest : List Task}, s.threads i = some t → t.task = .business o hdr body →
      s.tasks = task :: rest → ∀ {o' : Origin} {hdr' : PacketHeader} {body' : Bytes},
      task = .business o' hdr' body' → o.pid < o'.pid := by
    intro i t o hdr body task rest hi ht hq o' hdr' body' htask
    have hb := hf.ahead i t hi task (by rw [hq]; exact List.mem_cons_self)
    rw [ht, htask] at hb
    exact hb
  cases h with
  | dequeue n script task rest hlt hn hq =>
      simp only [Function.update_apply] at hi hj
      split_ifs at hi hj with e₁ e₂ e₂
      · rw [e₁, e₂]
      · obtain rfl := Option.some.inj hi
        have := old hj ht' hq ht
        omega
      · obtain rfl := Option.some.inj hj
        have := old hi ht hq ht'
        omega
      · exact hd.threads i j t t' o o' hdr hdr' body body' hi hj ht ht' he
  | finish n e t₁ hn hp =>
      simp only [Function.update_apply] at hi hj
      split_ifs at hi hj with e₁ e₂
      exact hd.threads i j t t' o o' hdr hdr' body body' hi hj ht ht' he
  | call n e t₁ a k r s₁ hn hp ha =>
      have back : ∀ {i : ℕ} {t : Thread}, (Function.update s₁.threads n
          (some { t₁ with hist := t₁.hist ++ [⟨a, r⟩], prog := k r })) i = some t →
          ∃ t₀, s.threads i = some t₀ ∧ t₀.task = t.task := by
        intro i t hi
        rw [(effect_threads (act_effect ha)).1, Function.update_apply] at hi
        split_ifs at hi with e₁
        · obtain rfl := Option.some.inj hi
          exact ⟨t₁, by rw [e₁, hn], rfl⟩
        · exact ⟨t, hi, rfl⟩
      obtain ⟨t₀, hi₀, h₀⟩ := back hi
      obtain ⟨t₀', hj₀, h₀'⟩ := back hj
      exact hd.threads i j t₀ t₀' o o' hdr hdr' body body' hi₀ hj₀ (h₀.trans ht) (h₀'.trans ht') he
  | _ => exact hd.threads i j t t' o o' hdr hdr' body body' hi hj ht ht' he

/-- The packet of a request that is being submitted has no other request, and will have none. -/
theorem submit_fresh (ht : Traced P s) (hf : Fifo s) (hd : Distinct P s) (h : Move P s l s')
    {o : Origin} {fd : Int} {req : StreamRequest} (hn : s.next l = some (o, .aiEnqueue fd req)) :
    ¬ Submitted s req.origin.pid ∧ Submitted s' req.origin.pid := by
  obtain ⟨i, e, t, k, rfl, hi, rfl, hp⟩ := next_cases hn
  have ho : req.origin = t.task.origin := ht.guard hi hp
  have hpath := ht.path i t hi
  rw [hp] at hpath
  cases htask : t.task with
  | stream req' =>
      rw [htask] at hpath
      exact absurd (hpath.guard (processStreamRequest_calls t.script)) id
  | business o hdr body =>
      rw [htask] at hpath
      have hu : Unsubmitted t.hist := (hpath.guard (processBusiness_submits P o hdr body) rfl).2
      have hpid : o.pid = req.origin.pid := by rw [ho, htask]; rfl
      refine ⟨fun hs => hs.thread i t o hdr body hi htask hpid hu, ?_⟩
      obtain ⟨r, s₁, ha, rfl⟩ := move_call h hi hp
      obtain ⟨hthreads, htasks, -⟩ := effect_threads (act_effect ha)
      have hlt : req.origin.pid < s.nextPid := by
        rw [ho]
        exact hf.lt _ (ht.thread i t hi).received
      refine ⟨lt_of_lt_of_le hlt (nextPid_le h), fun o' hdr' body' hm he => ?_,
        fun j t' o' hdr' body' hj htask' he hu' => ?_⟩
      · dsimp only at hm
        rw [htasks] at hm
        have hb := hf.ahead i t hi _ hm
        rw [htask] at hb
        exact Nat.ne_of_lt hb (hpid.trans he.symm)
      · have hij := distinct_threads_move hf hd h i j _ t' o o' hdr hdr' body body'
          (Function.update_self ..) hj htask htask' (hpid.trans he.symm)
        subst hij
        dsimp only at hj
        rw [Function.update_self] at hj
        obtain rfl := Option.some.inj hj
        cases hu' ⟨.aiEnqueue fd req, r⟩ (by simp)

theorem distinct_move (ht : Traced P s) (hf : Fifo s) (hd : Distinct P s) (h : Move P s l s') :
    Distinct P s' := by
  -- what is left of the requests of the state before
  have less : (s'.ai.pending ++ s'.unfinished P).Subperm (s.ai.pending ++ s.unfinished P) →
      Distinct P s' := by
    intro hsub
    refine ⟨distinct_threads_move hf hd h, ?_, fun r hr => ?_⟩
    · obtain ⟨l₁, hperm, hsl⟩ := hsub
      exact (hperm.map _).nodup_iff.mp ((hsl.map _).nodup hd.nodup)
    · exact submitted_move (hd.submitted r (hsub.subset hr)) h
  cases aiTurn_of_move h with
  | keep hp hu => exact less (by rw [hp]; exact (List.subperm_append_left _).mpr hu)
  | forget req hp hu =>
      refine less ?_
      rw [hp]
      exact ((List.subperm_append_left _).mpr hu).trans (List.sublist_cons_self req _).subperm
  | start req hp hs he hu =>
      refine less (((List.subperm_append_left _).mpr hu).trans ?_)
      rw [hp]
      exact List.perm_middle.subperm
  | submit o fd req hn hp hu =>
      obtain ⟨hnew, hdone⟩ := submit_fresh ht hf hd h hn
      have hsub : (s'.ai.pending ++ s'.unfinished P).Subperm
          (req :: (s.ai.pending ++ s.unfinished P)) := by
        rw [hp, List.append_assoc, List.singleton_append]
        refine ((List.subperm_append_left _).mpr ((List.subperm_cons req).mpr hu)).trans ?_
        exact List.perm_middle.subperm
      have hnd : ((req :: (s.ai.pending ++ s.unfinished P)).map fun r => r.origin.pid).Nodup := by
        rw [List.map_cons, List.nodup_cons]
        refine ⟨fun hm => ?_, hd.nodup⟩
        obtain ⟨r, hr, he⟩ := List.mem_map.mp hm
        exact hnew (he ▸ hd.submitted r hr)
      refine ⟨distinct_threads_move hf hd h, ?_, fun r hr => ?_⟩
      · obtain ⟨l₁, hperm, hsl⟩ := hsub
        exact (hperm.map _).nodup_iff.mp ((hsl.map _).nodup hnd)
      · rcases List.mem_cons.mp (hsub.subset hr) with rfl | hr
        · exact hdone
        · exact submitted_move (hd.submitted r hr) h

/-- **In every state that a run reaches, every packet has at most one request, at one place.** -/
theorem distinct_of_run (h : RunTo P db C s) : Distinct P s :=
  run_invariant h (Distinct P) distinct_init fun _ _ _ hr _ _ hd hm =>
    distinct_move (traced_of_run hr) (fifo_of_run hr) hd hm

theorem running_inj (ht : Traced P s) (hd : Distinct P s) {i j : ℕ} {req req' : StreamRequest}
    (hi : s.running i = some req) (hj : s.running j = some req')
    (he : req.origin.pid = req'.origin.pid) : i = j := by
  have hlt : ∀ {i : ℕ} {req : StreamRequest}, s.running i = some req → i < P.poolThreads := by
    intro i req hi
    obtain ⟨t, -, -, hi, -⟩ := running_eq_some.mp hi
    exact ht.lt i t hi
  have hnd : ((List.range P.poolThreads).filterMap s.running).Pairwise
      fun r r' => r.origin.pid ≠ r'.origin.pid := by
    refine List.pairwise_map.mp (List.Nodup.sublist (List.Sublist.map _ ?_) hd.nodup)
    exact (List.sublist_append_right _ _).trans (List.sublist_append_right _ _)
  have ordered : ∀ {i j : ℕ} {req req' : StreamRequest}, i < j → s.running i = some req →
      s.running j = some req' → req.origin.pid ≠ req'.origin.pid := by
    intro i j req req' hij hi hj
    have hpair := List.pairwise_iff_getElem.mp (List.pairwise_filterMap.mp hnd) i j
      (by simpa using hlt hi) (by simpa using hlt hj) hij
    simp only [List.getElem_range] at hpair
    exact hpair req hi req' hj
  rcases Nat.lt_trichotomy i j with hij | rfl | hij
  · exact absurd he (ordered hij hi hj)
  · rfl
  · exact absurd he.symm (ordered hij hj hi)

end AuraChat
