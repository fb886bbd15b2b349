import AuraChat.Model.Sample
import AuraChat.Safety.Requests

set_option autoImplicit false

/-!
# The slots of the AI manager

`active_streams_` has an entry for each of the `max_concurrent_` slots in use. The scheduler enters a
request under the descriptor that its context has then. The entry is erased under the descriptor that
the context has when the stream ends, by `cancel_request` for the uid of a connection that closes, or by
another request that is entered under the same descriptor.

So an entry can outlive its stream: the connection is gone when the stream ends, or the pool refuses the
task (`slot_leaked`). And an entry can go before its stream, which then runs beside those that the
scheduler counts (`bound_exceeded`).

* `State.ending`, `State.refused`: the request that a step is done with;
* `ReleasesSlot`, **`slots_held`**: no entry outlives its stream when the ends of streams find their
  entries;
* `State.Evicts`, `KeepsSlots`, **`unfinished_le`**: the bound holds when no entry goes before its stream.
-/

namespace AuraChat

open Interleave

variable {P : Params} {db : Store} {C : Label → State → Prop} {s s' : State} {l : Label}

/-! ## The ends of requests -/

/-- The request whose stream ends with a step, in the critical section that erases its entry. -/
def State.ending (s : State) : Label → Option StreamRequest
  | .thread i _ => match s.threads i with
      | some ⟨.stream req, _, _, .call (.eraseStream _) _⟩ => some req
      | _ => none
  | _ => none

/-- The request that the pool refuses. -/
def State.refused (s : State) : Label → Option StreamRequest
  | .dispatch => if 200000 < s.tasks.length then s.ai.handoff else none
  | _ => none

/-- The uid whose requests `cancel_request` erases in a step. -/
def State.cancels (s : State) : Label → Option Int
  | .close w => match (s.net.workers w).busy.bind s.net.conns with
      | some ⟨_, _, _, .cancel uid⟩ => some uid
      | _ => none
  | _ => none

theorem ending_eq_some {req : StreamRequest} (h : s.ending l = some req) :
    ∃ i e t x k, l = .thread i e ∧ s.threads i = some t ∧ t.task = .stream req ∧
      t.prog = .call (.eraseStream x) k := by
  cases l with
  | thread i e =>
      simp only [State.ending] at h
      split at h
      · rename_i req' script hist x k hi
        obtain rfl := Option.some.inj h
        exact ⟨i, e, _, x, k, rfl, hi, rfl, rfl⟩
      · cases h
  | _ => cases h

theorem ending_of_call {i : ℕ} (e : Ext) {t : Thread} {x : ℕ}
    {k : Reply (.eraseStream x) → Prog Reply Unit} {req : StreamRequest} (hi : s.threads i = some t)
    (htask : t.task = .stream req) (hp : t.prog = .call (.eraseStream x) k) :
    s.ending (.thread i e) = some req := by
  obtain ⟨task, script, hist, prog⟩ := t
  obtain rfl : task = .stream req := htask
  obtain rfl : prog = .call (.eraseStream x) k := hp
  simp only [State.ending, hi]

theorem step_schedule {now : Int} (h : step P (.schedule now) s = some s') :
    s.ai.handoff = none ∧ s.ai.active.length < P.cfg.aiMaxConcurrent := by
  simp only [step] at h
  split at h
  · split_ifs at h with hlt
    exact ⟨‹_›, hlt⟩
  · cases h

theorem step_dispatch (h : step P .dispatch s = some s') {req : StreamRequest}
    (hh : s.ai.handoff = some req) : .stream req ∈ s'.tasks ∨ s.refused .dispatch = some req := by
  simp only [step, hh, State.enqueue] at h
  split_ifs at h with hlt
  · exact .inr (by simp [State.refused, hlt, hh])
  · obtain rfl := Option.some.inj h
    exact .inl (by simp)

/-- The end of a stream takes it off the unfinished requests. -/
theorem ending_unfinished (ht : Traced P s) (h : Move P s l s') {req : StreamRequest}
    (he : s.ending l = some req) :
    (s.unfinished P).Perm (req :: s'.unfinished P) ∧
      s'.ai = s.ai.eraseStream (s.net.ctxs req.origin.ctx).fd := by
  obtain ⟨i, e, t, x, k, rfl, hi, htask, hp⟩ := ending_eq_some he
  obtain ⟨r, s₁, ha, hs'⟩ := move_call h hi hp
  obtain ⟨hg, hend⟩ := stream_call ht hi hp htask r
  have hx : x = req.origin.ctx := hg.2.2.1 x rfl
  have hret : k r = .ret () := by
    rcases hend with ⟨-, hk⟩ | ⟨hne, -⟩
    · exact hk
    · exact absurd rfl (hne x)
  simp only [act, Option.some.injEq, Prod.mk.injEq] at ha
  obtain ⟨-, rfl⟩ := ha
  have hai : s'.ai = s.ai.eraseStream (s.net.ctxs req.origin.ctx).fd := by rw [hs', hx]
  have htasks : s'.tasks = s.tasks := by rw [hs']
  have hnone : s'.running i = none := by simp [State.running, hs', hret, Thread.stream]
  have hrun : s.running = Function.update s'.running i (some req) := by
    funext j
    by_cases hj : j = i
    · subst hj
      rw [Function.update_self]
      exact running_eq_some.mpr ⟨t, _, k, hi, htask, hp⟩
    · simp only [State.running, hs', Function.update_of_ne hj]
  have hhand : s'.ai.handoff = s.ai.handoff := by rw [hai, (eraseStream_rest s.ai _).2.1]
  refine ⟨?_, hai⟩
  unfold State.unfinished
  rw [hrun, hhand, htasks]
  exact ((filterMap_range_update _ (ht.lt i t hi) hnone req).append_left _).trans List.perm_middle

/-- **A scheduled request stays unfinished until its stream ends or the pool refuses it.** -/
theorem unfinished_kept (ht : Traced P s) (ht' : Traced P s') (hstep : step P l s = some s')
    (h : Move P s l s') {req : StreamRequest} (hr : req ∈ s.unfinished P) :
    req ∈ s'.unfinished P ∨ s.refused l = some req ∨ s.ending l = some req := by
  rw [mem_unfinished ht] at hr
  rw [mem_unfinished ht']
  rcases hr with hh | hm | ⟨i, hi⟩
  · cases h with
    | activate req' rest now hq hn hfd =>
        rw [(step_schedule hstep).1] at hh
        cases hh
    | dispatch req' ts hh' hts =>
        rcases step_dispatch hstep hh with hm | hm
        · exact .inl (.inr (.inl hm))
        · exact .inr (.inl hm)
    | call i e t a k r s₁ hi hp ha =>
        refine .inl (.inl ?_)
        cases act_effect ha with
        | ai _ ai' h =>
            rcases h with ⟨fd, req', rfl, rfl⟩ | ⟨rfl, rfl⟩ | ⟨x, rfl, rfl⟩
            · exact (enqueue_rest s.ai fd req').1.trans hh
            · exact hh
            · exact (eraseStream_rest s.ai _).2.1.trans hh
        | _ => exact hh
    | _ => exact .inl (.inl hh)
  · cases h with
    | dequeue i script t rest hlt hi hq =>
        rw [hq, List.mem_cons] at hm
        rcases hm with rfl | hm
        · exact .inl (.inr (.inr ⟨i, running_eq_some.mpr
            ⟨_, _, _, Function.update_self .., rfl, rfl⟩⟩))
        · exact .inl (.inr (.inl hm))
    | read c d hdr body ts hd hev hfr hts =>
        rcases hts with rfl | rfl
        · exact .inl (.inr (.inl hm))
        · exact .inl (.inr (.inl (List.mem_append_left _ hm)))
    | dispatch req' ts hh hts =>
        rcases hts with rfl | rfl
        · exact .inl (.inr (.inl hm))
        · exact .inl (.inr (.inl (List.mem_append_left _ hm)))
    | call i e t a k r s₁ hi hp ha =>
        rw [← (effect_threads (act_effect ha)).2.1] at hm
        exact .inl (.inr (.inl hm))
    | _ => exact .inl (.inr (.inl hm))
  · obtain ⟨t, a, k, hi, htask, hp⟩ := running_eq_some.mp hi
    -- the thread goes on, unless this step ends its stream
    have stays : s'.threads i = s.threads i → ∃ i, s'.running i = some req := fun e =>
      ⟨i, running_eq_some.mpr ⟨t, a, k, e.trans hi, htask, hp⟩⟩
    cases h with
    | dequeue j script t' rest hlt hj hq =>
        have hij : i ≠ j := by
          rintro rfl
          rw [hj] at hi
          cases hi
        exact .inl (.inr (.inr (stays (Function.update_of_ne hij ..))))
    | finish j e t' hj hp' =>
        have hij : i ≠ j := by
          rintro rfl
          obtain rfl := Option.some.inj (hi.symm.trans hj)
          rw [hp] at hp'
          cases hp'
        exact .inl (.inr (.inr (stays (Function.update_of_ne hij ..))))
    | call j e t' a' k' r s₁ hj hp' ha =>
        have hthreads := (effect_threads (act_effect ha)).1
        by_cases hij : i = j
        · subst hij
          obtain rfl := Option.some.inj (hi.symm.trans hj)
          rcases (stream_call ht hj hp' htask r).2 with ⟨rfl, -⟩ | ⟨-, b, k'', hk⟩
          · exact .inr (.inr (ending_of_call e hj htask hp'))
          · exact .inl (.inr (.inr ⟨i, running_eq_some.mpr
              ⟨_, b, k'', Function.update_self .., htask, hk⟩⟩))
        · refine .inl (.inr (.inr (stays ?_)))
          dsimp only
          rw [Function.update_of_ne hij, hthreads]
    | _ => exact .inl (.inr (.inr (stays rfl)))

/-! ## Entries -/

/-- An entry is there because it was or because this step has entered a request, under the descriptor of
its context. -/
theorem move_entry (h : Move P s l s') {p : Int × StreamRequest} (hp : p ∈ s'.ai.active) :
    p ∈ s.ai.active ∨ (s'.ai.handoff = some p.2 ∧ s.starts l = some p.2 ∧
      p.1 = (s.net.ctxs p.2.origin.ctx).fd ∧ 0 ≤ p.1) := by
  rcases move_active h hp with hp | hs
  · exact .inl hp
  cases h with
  | activate req rest now hq hn hfd =>
      simp only [AIManager.activate, List.mem_append, List.mem_filter, List.mem_singleton] at hp
      rcases hp with ⟨hp, -⟩ | rfl
      · exact .inl hp
      · exact .inr ⟨rfl, hs, rfl, Int.not_lt.mp hfd⟩
  | expire | forget => exact .inl hp
  | _ => cases hs

/-- The step takes the entry out of `active_streams_`, and not because its own stream ends. -/
def State.Evicts (s : State) (l : Label) (p : Int × StreamRequest) : Prop :=
  s.cancels l = some p.2.uid ∨
  (∃ req ∈ s.starts l, p.1 = (s.net.ctxs req.origin.ctx).fd) ∨
  ∃ req ∈ s.ending l, p.1 = (s.net.ctxs req.origin.ctx).fd ∧ p.2 ≠ req

instance (s : State) (l : Label) (p : Int × StreamRequest) : Decidable (s.Evicts l p) := by
  unfold State.Evicts; infer_instance

theorem cancels_eq (hwf : s.net.WF P) {c : ℕ} {d : Conn} {uid : Int} (hd : s.net.conns c = some d)
    (hp : d.phase = .cancel uid) : s.cancels (.close d.worker) = some uid := by
  have hb : (s.net.workers d.worker).busy = some c :=
    (hwf.busy d.worker c).mpr ⟨d, hd, rfl, by simp [hp], by simp [hp]⟩
  obtain ⟨w, fd, x, ph⟩ := d
  obtain rfl : ph = .cancel uid := hp
  simp only [State.cancels, hb, Option.bind_some, hd]

/-- **An entry stays until its stream ends or a step evicts it.** -/
theorem entry_kept (hwf : s.net.WF P) (ht : Traced P s) (h : Move P s l s') {p : Int × StreamRequest}
    (hp : p ∈ s.ai.active) : p ∈ s'.ai.active ∨ s.Evicts l p ∨ s.ending l = some p.2 := by
  cases h with
  | call i e t a k r s₁ hi hpr ha =>
      cases act_effect ha with
      | ai _ ai' h =>
          rcases h with ⟨fd, req', rfl, rfl⟩ | ⟨rfl, rfl⟩ | ⟨x, rfl, rfl⟩
          · exact .inl (by rw [← (enqueue_rest s.ai fd req').2] at hp; exact hp)
          · exact .inl hp
          · obtain ⟨req, htask⟩ := ht.stream_of_call hi hpr rfl (by simp)
            have hend := ending_of_call e hi htask hpr
            have hx : x = req.origin.ctx := (stream_call ht hi hpr htask r).1.2.2.1 x rfl
            by_cases hreq : p.2 = req
            · exact .inr (.inr (by rw [hreq]; exact hend))
            by_cases hfd : p.1 = (s.net.ctxs x).fd
            · exact .inr (.inl (.inr (.inr ⟨req, hend, by rw [← hx]; exact hfd, hreq⟩)))
            · refine .inl ?_
              dsimp only [AIManager.eraseStream]
              split_ifs
              · exact List.mem_filter.mpr ⟨hp, by simpa using hfd⟩
              · exact hp
      | _ => exact .inl hp
  | cancel c d uid hd hph =>
      by_cases hu : p.2.uid = uid
      · exact .inr (.inl (.inl (by rw [cancels_eq hwf hd hph, hu])))
      · exact .inl (List.mem_filter.mpr ⟨hp, by simpa using hu⟩)
  | activate req rest now hq hn hfd =>
      by_cases he : p.1 = (s.net.ctxs req.origin.ctx).fd
      · refine .inr (.inl (.inr (.inl ⟨req, ?_, he⟩)))
        simp only [State.starts, hq, hn, hfd, or_self, if_false, Option.mem_def]
      · refine .inl (List.mem_append_left _ (List.mem_filter.mpr ⟨hp, by simpa using he⟩))
  | _ => exact .inl hp

/-! ## No entry outlives its stream -/

/-- A step that ends a stream finds the entry of the request, if it has one, under the descriptor that
the context has now, and the pool does not refuse a request that has an entry. -/
def ReleasesSlot (l : Label) (s : State) : Prop :=
  (∀ req ∈ s.ending l, ∀ p ∈ s.ai.active, p.2 = req → p.1 = (s.net.ctxs req.origin.ctx).fd) ∧
    ∀ req ∈ s.refused l, ∀ p ∈ s.ai.active, p.2 ≠ req

instance (l : Label) (s : State) : Decidable (ReleasesSlot l s) := by
  unfold ReleasesSlot; infer_instance

/-- Every entry is that of an unfinished request. -/
structure Held (P : Params) (s : State) : Prop where
  key : ∀ p ∈ s.ai.active, 0 ≤ p.1
  entry : ∀ p ∈ s.ai.active, p.2 ∈ s.unfinished P

theorem held_move (ht : Traced P s) (ht' : Traced P s') (hC : ReleasesSlot l s)
    (hstep : step P l s = some s') (h : Move P s l s') (hh : Held P s) : Held P s' := by
  refine ⟨fun p hp => ?_, fun p hp => ?_⟩
  · rcases move_entry h hp with hp | ⟨-, -, -, h0⟩
    · exact hh.key p hp
    · exact h0
  · rcases move_entry h hp with hold | ⟨hnew, -⟩
    · rcases unfinished_kept ht ht' hstep h (hh.entry p hold) with hu | href | hend
      · exact hu
      · exact absurd rfl (hC.2 p.2 href p hold)
      · -- the entry is erased under the descriptor that it has
        have hfd := hC.1 p.2 hend p hold rfl
        have hkey := hh.key p hold
        rw [(ending_unfinished ht h hend).2, ← hfd, AIManager.eraseStream, if_pos hkey] at hp
        exact absurd rfl (of_decide_eq_true (List.mem_filter.mp hp).2)
    · exact (mem_unfinished ht').mpr (.inl hnew)

/-- **No slot is leaked** in a run whose ends of streams find their entries: every entry belongs to a
request that the scheduler is about to put on the pool, that waits there, or that a thread is at work
on. -/
theorem slots_held (h : RunTo P db ReleasesSlot s) :
    ∀ p ∈ s.ai.active, s.ai.handoff = some p.2 ∨ .stream p.2 ∈ s.tasks ∨
      ∃ i, s.running i = some p.2 := by
  have hh : Held P s := by
    refine h.invariant_reach (Held P) ⟨fun p hp => ?_, fun p hp => ?_⟩ fun l s s' hr hC hh hs => ?_
    · cases hp
    · cases hp
    · exact held_move (traced_of_run hr) (traced_of_run (hr.tail hC hs)) hC hs
        (move_of_step (wf_of_run hr) hs) hh
  exact fun p hp => (mem_unfinished (traced_of_run h)).mp (hh.entry p hp)

/-- A client asks the AI user something and stays; the stream is at work. -/
theorem slots_held_sample : ∃ s, RunTo Sample.params Sample.db ReleasesSlot s ∧
    ∃ p ∈ s.ai.active, p.1 = 5 ∧
      (s.ai.handoff = some p.2 ∨ .stream p.2 ∈ s.tasks ∨ ∃ i, s.running i = some p.2) := by
  obtain ⟨s, hr, p, hp, h5⟩ := Sample.exists_run ReleasesSlot
    (Sample.connect 5 ++ Sample.ask 0 0 ++ Sample.serve 0 2)
    (fun s => ∃ p ∈ s.ai.active, p.1 = 5) ⟨_, rfl, by decide⟩
  exact ⟨s, hr, p, hp, h5, slots_held hr p hp⟩

/-- A client that is not logged in asks the AI user something and closes the connection while the stream
is at work. `cancel_request` is not called, the stream ends without a descriptor, and the entry stays. -/
theorem slot_leaked : ∃ s, RunTo Sample.params Sample.db (fun _ _ => True) s ∧
    ∃ p ∈ s.ai.active, ¬ (s.ai.handoff = some p.2 ∨ .stream p.2 ∈ s.tasks ∨
      ∃ i, s.running i = some p.2) := by
  obtain ⟨s, hr, p, hp, hu⟩ := Sample.exists_run (fun _ _ => True)
    (Sample.connect 5 ++ Sample.ask 0 0 ++ Sample.serve 0 2 ++ Sample.disconnect 0 false ++
      List.replicate 3 (.thread 0 {}))
    (fun s => ∃ p ∈ s.ai.active, p.2 ∉ s.unfinished Sample.params) ⟨_, rfl, by decide⟩
  exact ⟨s, hr, p, hp, fun h => hu ((mem_unfinished (traced_of_run hr)).mpr h)⟩

/-! ## The bound -/

/-- No entry of an unfinished request is evicted. -/
def KeepsSlots (P : Params) (l : Label) (s : State) : Prop :=
  ∀ p ∈ s.ai.active, p.2 ∈ s.unfinished P → ¬ s.Evicts l p

instance (P : Params) (l : Label) (s : State) : Decidable (KeepsSlots P l s) := by
  unfold KeepsSlots; infer_instance

/-- Every unfinished request has an entry, and there are no more entries than slots. -/
structure Counted (P : Params) (s : State) : Prop where
  entry : ∀ req ∈ s.unfinished P, ∃ p ∈ s.ai.active, p.2 = req
  le : s.ai.active.length ≤ P.cfg.aiMaxConcurrent

theorem active_length (hstep : step P l s = some s') (h : Move P s l s')
    (hle : s.ai.active.length ≤ P.cfg.aiMaxConcurrent) :
    s'.ai.active.length ≤ P.cfg.aiMaxConcurrent := by
  cases h with
  | call i e t a k r s₁ hi hpr ha =>
      cases act_effect ha with
      | ai _ ai' h =>
          rcases h with ⟨fd, req', rfl, rfl⟩ | ⟨rfl, rfl⟩ | ⟨x, rfl, rfl⟩
          · dsimp only
            rw [(enqueue_rest s.ai fd req').2]
            exact hle
          · exact hle
          · dsimp only [AIManager.eraseStream]
            split_ifs
            · exact (List.length_filter_le _ _).trans hle
            · exact hle
      | _ => exact hle
  | cancel c d uid hd hph => exact (List.length_filter_le _ _).trans hle
  | activate req rest now hq hn hfd =>
      have hlt := (step_schedule hstep).2
      have hf := List.length_filter_le
        (fun p : Int × StreamRequest => p.1 ≠ (s.net.ctxs req.origin.ctx).fd) s.ai.active
      simp only [AIManager.activate, List.length_append, List.length_singleton]
      omega
  | _ => exact hle

theorem counted_move (hwf : s.net.WF P) (ht : Traced P s) (hd : Distinct P s)
    (hC : KeepsSlots P l s) (hstep : step P l s = some s') (h : Move P s l s') (hc : Counted P s) :
    Counted P s' := by
  refine ⟨fun req hr => ?_, active_length hstep h hc.le⟩
  have old : req ∈ s.unfinished P → ∃ p ∈ s'.ai.active, p.2 = req := by
    intro hold
    obtain ⟨p, hp, rfl⟩ := hc.entry req hold
    rcases entry_kept hwf ht h hp with hp | hev | hend
    · exact ⟨p, hp, rfl⟩
    · exact absurd hev (hC p hp hold)
    · -- the request has ended, and there was one of it
      have hcons := (ending_unfinished ht h hend).1.nodup_iff.mp hd.unfinished_nodup
      exact absurd hr (List.nodup_cons.mp hcons).1
  cases aiTurn_of_move h with
  | keep hp hu => exact old (hu.subset hr)
  | submit o fd req' hn hp hu => exact old (hu.subset hr)
  | forget req' hp hu => exact old (hu.subset hr)
  | start req' hp hs he hu =>
      rcases List.mem_cons.mp (hu.subset hr) with rfl | hr
      · exact ⟨_, he, rfl⟩
      · exact old hr

/-- **At most `max_concurrent_` scheduled requests are unfinished**, in a run in which no entry of an
unfinished request is evicted. -/
theorem unfinished_le (h : RunTo P db (KeepsSlots P) s) :
    (s.unfinished P).length ≤ P.cfg.aiMaxConcurrent := by
  have hc : Counted P s := by
    refine h.invariant_reach (Counted P) ⟨fun req hr => ?_, Nat.zero_le _⟩
      fun l s s' hr hC hc hs => ?_
    · rw [unfinished_init] at hr
      cases hr
    · exact counted_move (wf_of_run hr) (traced_of_run hr) (distinct_of_run hr) hC hs
        (move_of_step (wf_of_run hr) hs) hc
  have hsub : s.unfinished P ⊆ s.ai.active.map Prod.snd := by
    intro req hr
    obtain ⟨p, hp, rfl⟩ := hc.entry req hr
    exact List.mem_map_of_mem hp
  calc (s.unfinished P).length ≤ (s.ai.active.map Prod.snd).length := 
        ((distinct_of_run h).unfinished_nodup.subperm hsub).length_le
    _ = s.ai.active.length := List.length_map _
    _ ≤ P.cfg.aiMaxConcurrent := hc.le

/-- With one slot, one request is at work and another waits. -/
theorem unfinished_le_sample :
    ∃ s, RunTo (Sample.slots 1) Sample.db (KeepsSlots (Sample.slots 1)) s ∧
      (s.unfinished (Sample.slots 1)).length = 1 ∧ s.ai.pending.length = 1 ∧
      (s.unfinished (Sample.slots 1)).length ≤ (Sample.slots 1).cfg.aiMaxConcurrent := by
  obtain ⟨s, hr, hu, hp⟩ := Sample.exists_run_slots 1 (KeepsSlots (Sample.slots 1))
    (Sample.connect 5 ++ Sample.connect 6 ++ Sample.ask 0 0 ++ Sample.serve 0 2 ++ Sample.ask 1 1)
    (fun s => (s.unfinished (Sample.slots 1)).length = 1 ∧ s.ai.pending.length = 1)
    ⟨_, rfl, by decide⟩
  exact ⟨s, hr, hu, hp, unfinished_le hr⟩

/-- With one slot, user `a` asks the AI user something and closes the connection while the stream is at
work. `cancel_request` erases the entry, and the request of another client is scheduled beside it. -/
theorem bound_exceeded : ∃ s, RunTo (Sample.slots 1) Sample.db (fun _ _ => True) s ∧
    (Sample.slots 1).cfg.aiMaxConcurrent < (s.unfinished (Sample.slots 1)).length := by
  obtain ⟨s, hr, hu⟩ := Sample.exists_run_slots 1 (fun _ _ => True)
    (Sample.connect 5 ++ Sample.connect 6 ++ [Sample.packet 0 .login Sample.loginA] ++
      Sample.work 0 7 ++ Sample.ask 0 0 ++ Sample.serve 0 2 ++ Sample.disconnect 0 true ++
      Sample.ask 1 1 ++ [.schedule 0])
    (fun s => 1 < (s.unfinished (Sample.slots 1)).length) ⟨_, rfl, by decide⟩
  exact ⟨s, hr, hu⟩

end AuraChat
