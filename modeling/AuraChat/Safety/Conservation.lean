import AuraChat.Lib.Lists
import AuraChat.Model.Sample
import AuraChat.Server.Trace

set_option autoImplicit false

/-!
# No packet is lost

A packet that `handle_read` has cut off waits on the pool, is at work on a pool thread, or is finished.
A `Ledger` is the server with the tasks that have been finished.

* `Ledger.places`: the tasks that wait, that are at work and that are finished;
* `Turn`, `turn_of_step`: what a step does with the tasks;
* **`packets_conserved`**: while the pool has room, each packet is at exactly one place, once;
  `packet_refused`: without room it is at none.
-/

namespace AuraChat

open Interleave

variable {P : Params} {db : Store} {s s' : State} {l : Label}

/-! ## The places of a task -/

/-- The tasks that pool threads are at work on. -/
def State.atWork (P : Params) (s : State) : List Task :=
  (List.range P.poolThreads).filterMap fun i => (s.threads i).map Thread.task

/-- The task that a step finishes. -/
def State.finishes (s : State) : Label → Option Task
  | .thread i _ => match s.threads i with
      | some ⟨task, _, _, .ret _⟩ => some task
      | _ => none
  | _ => none

/-- The server, and the tasks that its pool has finished. -/
structure Ledger where
  server : State
  finished : List Task

def Ledger.step (P : Params) (l : Label) (g : Ledger) : Option Ledger :=
  (AuraChat.step P l g.server).map fun s => ⟨s, (g.server.finishes l).toList ++ g.finished⟩

/-- The states that a run reaches, from a start on the store `db`. -/
abbrev LedgerRunTo (P : Params) (db : Store) (C : Label → Ledger → Prop) (g : Ledger) : Prop :=
  Reach (Ledger.step P) C ⟨State.init P db, []⟩ g

/-- **The tasks that wait, that are at work and that are finished.** -/
def Ledger.places (P : Params) (g : Ledger) : List Task :=
  g.server.tasks ++ g.server.atWork P ++ g.finished

/-- The pool takes the task of every packet that is cut off. -/
def QueueHasRoom : Label → Ledger → Prop
  | .read _ _ _, g => g.server.tasks.length ≤ 200000
  | _, _ => True

instance (l : Label) (g : Ledger) : Decidable (QueueHasRoom l g) := by
  unfold QueueHasRoom; split <;> infer_instance

/-- The tasks of the packets that were received. -/
def receivedTasks (log : List Entry) : List Task :=
  log.filterMap fun
    | .received o hdr body => some (.business o hdr body)
    | _ => none

theorem mem_receivedTasks {log : List Entry} {o : Origin} {hdr : PacketHeader} {body : Bytes} :
    .business o hdr body ∈ receivedTasks log ↔ .received o hdr body ∈ log := by
  constructor
  · intro h
    obtain ⟨e, he, heq⟩ := List.mem_filterMap.mp h
    split at heq
    · obtain ⟨rfl, rfl, rfl⟩ := Task.business.inj (Option.some.inj heq)
      exact he
    · cases heq
  · exact fun h => List.mem_filterMap.mpr ⟨_, h, rfl⟩

/-! ## What a step does with the tasks -/

theorem atWork_take {f : ℕ → Option Thread} {i : ℕ} (hlt : i < P.poolThreads) (hi : f i = none)
    (t : Thread) :
    ((List.range P.poolThreads).filterMap fun j => (Function.update f i (some t) j).map
      Thread.task).Perm
      (t.task :: (List.range P.poolThreads).filterMap fun j => (f j).map Thread.task) := by
  have hupd : (fun j => (Function.update f i (some t) j).map Thread.task) =
      Function.update (fun j => (f j).map Thread.task) i (some t.task) := by
    funext j
    simp only [Function.update_apply]
    split_ifs <;> rfl
  rw [hupd]
  exact filterMap_range_update _ hlt (by rw [hi]; rfl) _

theorem atWork_same {f : ℕ → Option Thread} {i : ℕ} {t : Thread} (hi : f i = some t) (t' : Thread)
    (ht : t'.task = t.task) : (fun j => (Function.update f i (some t') j).map Thread.task) =
      fun j => (f j).map Thread.task := by
  funext j
  simp only [Function.update_apply]
  split_ifs with h
  · rw [h, hi, Option.map_some, Option.map_some, ht]
  · rfl

/-- **What a step does with the tasks**: it moves them, puts an AI request on the pool, or hands a packet
over. -/
inductive Turn (P : Params) (l : Label) (g g' : Ledger) : Prop
  | moved (hp : (g'.places P).Perm (g.places P))
      (hr : receivedTasks g'.server.log = receivedTasks g.server.log)
      (hn : g.server.nextPid = g'.server.nextPid)
  | stream (req : StreamRequest) (hp : (g'.places P).Perm (.stream req :: g.places P))
      (hr : receivedTasks g'.server.log = receivedTasks g.server.log)
      (hn : g.server.nextPid = g'.server.nextPid)
  | packet (c : ℕ) (d : Conn) (hdr : PacketHeader) (body : Bytes) (hl : l = .read c hdr body)
      (hp : g.server.tasks.length ≤ 200000 →
        (g'.places P).Perm (.business ⟨g.server.nextPid, c, d.ctx⟩ hdr body :: g.places P))
      (hr : receivedTasks g'.server.log =
        .business ⟨g.server.nextPid, c, d.ctx⟩ hdr body :: receivedTasks g.server.log)
      (hn : g'.server.nextPid = g.server.nextPid + 1)

theorem effect_received {o : Origin} {a : Call} (h : Effect P o s a s') :
    receivedTasks s'.log = receivedTasks s.log ∧ s'.nextPid = s.nextPid := by
  cases h <;> exact ⟨rfl, rfl⟩

theorem turn_of_step (hwf : s.net.WF P) (ht : Traced P s) {done : List Task}
    (hs : step P l s = some s') : Turn P l ⟨s, done⟩ ⟨s', (s.finishes l).toList ++ done⟩ := by
  have hm := move_of_step hwf hs
  cases hm with
  | read c d hdr body ts hd hev hfr hts =>
      refine .packet c d hdr body rfl (fun hroom => ?_) rfl rfl
      have hts' : ts = s.tasks ++ [.business ⟨s.nextPid, c, d.ctx⟩ hdr body] := by
        simp only [step, hd, if_pos (And.intro hev hfr), State.enqueue] at hs
        rw [if_neg (Nat.not_lt.mpr hroom)] at hs
        exact (congrArg State.tasks (Option.some.inj hs)).symm
      rw [hts']
      simp only [Ledger.places, State.finishes, Option.toList_none, List.nil_append,
        List.append_assoc, List.singleton_append]
      exact List.perm_middle
  | dequeue i script t rest hlt hi hq =>
      refine .moved ?_ rfl rfl
      simp only [Ledger.places, State.finishes, Option.toList_none, List.nil_append, hq,
        State.atWork]
      have hperm := (((atWork_take hlt hi ⟨t, script, [], t.prog P script⟩).append_left rest).trans
        List.perm_middle).append_right done
      exact hperm
  | finish i e t hi hp =>
      refine .moved ?_ rfl rfl
      obtain ⟨task, script, hist, prog⟩ := t
      obtain rfl : prog = .ret () := hp
      simp only [Ledger.places, State.finishes, hi, Option.toList_some, List.append_assoc,
        List.singleton_append, State.atWork]
      refine List.Perm.append_left _ ?_
      have htake := atWork_take (P := P) (ht.lt i _ hi) (Function.update_self i none s.threads)
        ⟨task, script, hist, .ret ()⟩
      rw [Function.update_idem, ← hi, Function.update_eq_self] at htake
      exact List.perm_middle.trans (htake.symm.append_right done)
  | call i e t a k r s₁ hi hp ha =>
      obtain ⟨hthreads, htasks, -⟩ := effect_threads (act_effect ha)
      obtain ⟨hrec, hpid⟩ := effect_received (act_effect ha)
      have hnone : s.finishes (.thread i e) = none := by
        obtain ⟨task, script, hist, prog⟩ := t
        obtain rfl : prog = .call a k := hp
        simp only [State.finishes, hi]
      refine .moved ?_ hrec hpid.symm
      simp only [Ledger.places, hnone, Option.toList_none, List.nil_append, htasks, State.atWork,
        hthreads]
      rw [atWork_same hi { t with hist := t.hist ++ [⟨a, r⟩], prog := k r } rfl]
  | dispatch req ts hh hts =>
      rcases hts with rfl | rfl
      · exact .moved (.refl _) rfl rfl
      · refine .stream req ?_ rfl rfl
        simp only [Ledger.places, State.finishes, Option.toList_none, List.nil_append,
          List.append_assoc, List.singleton_append]
        exact List.perm_middle
  | _ => exact .moved (.refl _) rfl rfl

/-! ## Conservation -/

/-- Each packet that was received has its own number, and its task is at one place. -/
structure Conserved (P : Params) (g : Ledger) : Prop where
  lt : ∀ o hdr body, .received o hdr body ∈ g.server.log → o.pid < g.server.nextPid
  nodup : (receivedTasks g.server.log).Nodup
  count : ∀ o hdr body, (g.places P).count (.business o hdr body) =
    (receivedTasks g.server.log).count (.business o hdr body)

theorem conserved_turn {g g' : Ledger} (h : Conserved P g) (hroom : QueueHasRoom l g)
    (ht : Turn P l g g') : Conserved P g' := by
  cases ht with
  | moved hp hr hn =>
      refine ⟨fun o hdr body ho => ?_, hr ▸ h.nodup, fun o hdr body => ?_⟩
      · rw [← mem_receivedTasks, hr, mem_receivedTasks] at ho
        exact hn ▸ h.lt o hdr body ho
      · rw [hp.count_eq, hr]
        exact h.count o hdr body
  | stream req hp hr hn =>
      refine ⟨fun o hdr body ho => ?_, hr ▸ h.nodup, fun o hdr body => ?_⟩
      · rw [← mem_receivedTasks, hr, mem_receivedTasks] at ho
        exact hn ▸ h.lt o hdr body ho
      · rw [hp.count_eq, hr, List.count_cons_of_ne (by simp)]
        exact h.count o hdr body
  | packet c d hdr body hl hp hr hn =>
      subst hl
      refine ⟨fun o hdr' body' ho => ?_, ?_, fun o hdr' body' => ?_⟩
      · rw [← mem_receivedTasks, hr] at ho
        rw [hn]
        rcases List.mem_cons.mp ho with e | ho
        · obtain ⟨rfl, -, -⟩ := Task.business.inj e
          exact Nat.lt_succ_self _
        · exact Nat.lt_succ_of_lt (h.lt o hdr' body' (mem_receivedTasks.mp ho))
      · -- no packet received so far has the new number
        rw [hr]
        refine List.nodup_cons.mpr ⟨fun hmem => ?_, h.nodup⟩
        exact Nat.lt_irrefl _ (h.lt _ _ _ (mem_receivedTasks.mp hmem))
      · rw [(hp hroom).count_eq, hr, List.count_cons, List.count_cons, h.count o hdr' body']

theorem run_of_ledgerRun {C : Label → Ledger → Prop} {g : Ledger} (h : LedgerRunTo P db C g) :
    RunTo P db (fun _ _ => True) g.server := by
  refine h.map Ledger.server fun l g g' _ hs => ?_
  obtain ⟨s', hs', rfl⟩ := Option.map_eq_some_iff.mp hs
  exact .tail .refl trivial hs'

/-- **No packet is lost while the pool has room.** In a run in which a packet is cut off only while at
most 200000 tasks are queued, every packet that was received waits, is at work or is finished: its task
is at exactly one of these places, once. -/
theorem packets_conserved {g : Ledger} (h : LedgerRunTo P db QueueHasRoom g) (o : Origin)
    (hdr : PacketHeader) (body : Bytes) (hr : .received o hdr body ∈ g.server.log) :
    (g.places P).count (.business o hdr body) = 1 := by
  have hinv : Conserved P g := by
    refine h.invariant_reach (Conserved P) ⟨nofun, List.nodup_nil, fun o hdr body => ?_⟩ ?_
    · have hnone : (Ledger.places P ⟨State.init P db, []⟩) = [] := by
        simp [Ledger.places, State.init, State.atWork]
      rw [hnone]
      rfl
    · intro l g g' hg hroom hi hs
      obtain ⟨s', hs', rfl⟩ := Option.map_eq_some_iff.mp hs
      have hrun := run_of_ledgerRun hg
      exact conserved_turn hi hroom (turn_of_step (wf_of_run hrun) (traced_of_run hrun) hs')
  rw [hinv.count]
  exact List.count_eq_one_of_mem hinv.nodup (mem_receivedTasks.mpr hr)

theorem Sample.exists_ledgerRun (C : Label → Ledger → Prop) [∀ l g, Decidable (C l g)]
    (ls : List Label) (p : Ledger → Prop)
    (h : ∃ g ∈ runAll (Ledger.step params) C ls ⟨State.init params Sample.db, []⟩, p g) :
    ∃ g, LedgerRunTo params Sample.db C g ∧ p g :=
  exists_reach ls h

/-- Two heartbeats: one has been answered, the other one waits. -/
theorem packets_conserved_sample : ∃ g, LedgerRunTo Sample.params Sample.db QueueHasRoom g ∧
    g.finished = [.business ⟨0, 0, 2⟩ (Sample.header .heartbeat [] 1) []] ∧
    (g.places Sample.params).count (.business ⟨1, 0, 2⟩ (Sample.header .heartbeat [] 1) []) = 1 := by
  obtain ⟨g, hr, hf, hm⟩ := Sample.exists_ledgerRun QueueHasRoom
    (Sample.connect 5 ++ [Sample.packet 0 .heartbeat [], Sample.packet 0 .heartbeat []] ++
      Sample.work 0 3)
    (fun g => g.finished = [.business ⟨0, 0, 2⟩ (Sample.header .heartbeat [] 1) []] ∧
      .business ⟨1, 0, 2⟩ (Sample.header .heartbeat [] 1) [] ∈ receivedTasks g.server.log) (by decide)
  exact ⟨g, hr, hf, packets_conserved hr _ _ _ (mem_receivedTasks.mp hm)⟩

/-- `n` heartbeats wait on the pool, and no thread has taken one. -/
structure Waiting (n : ℕ) (g : Ledger) : Prop where
  conn : ∃ d, g.server.net.conns 0 = some d ∧ g.server.atEvents d
  tasks : g.server.tasks.length = n
  idle : ∀ i, g.server.threads i = none
  finished : g.finished = []
  old : ∀ t ∈ g.server.tasks, t.origin.pid < g.server.nextPid

theorem Waiting.read {n : ℕ} {g : Ledger} (h : Waiting n g) :
    ∃ g' o, Ledger.step Sample.params (Sample.packet 0 .heartbeat []) g = some g' ∧
      .received o (Sample.header .heartbeat [] 1) [] ∈ g'.server.log ∧
      o.conn = 0 ∧ o.pid = g.server.nextPid ∧
      (n ≤ 200000 → Waiting (n + 1) g') ∧ (200000 < n → Waiting n g' ∧ g'.server.tasks = g.server.tasks) := by
  obtain ⟨d, hd, hev⟩ := h.conn
  have hfr : (Sample.header .heartbeat [] 1).Framed [] := by decide
  let o : Origin := ⟨g.server.nextPid, 0, d.ctx⟩
  let s' : State := { g.server with
    nextPid := g.server.nextPid + 1
    log := .received o (Sample.header .heartbeat [] 1) [] :: g.server.log }
  refine ⟨⟨s'.enqueue (.business o (Sample.header .heartbeat [] 1) []), g.finished⟩, o, ?_, ?_, rfl, rfl,
    fun hn => ?_, fun hn => ?_⟩
  · simp only [Ledger.step, Sample.packet, step, hd, if_pos (And.intro hev hfr)]
    rfl
  · unfold State.enqueue
    split_ifs <;> exact List.mem_cons_self
  · have htake : s'.enqueue (.business o (Sample.header .heartbeat [] 1) []) =
        { s' with tasks := s'.tasks ++ [.business o (Sample.header .heartbeat [] 1) []] } := by
      rw [State.enqueue, if_neg]
      exact Nat.not_lt.mpr (h.tasks.trans_le hn)
    rw [htake]
    refine ⟨⟨d, hd, hev⟩, ?_, h.idle, h.finished,
      List.forall_mem_append.mpr ⟨fun t ht => ?_, List.forall_mem_singleton.mpr (Nat.lt_succ_self _)⟩⟩
    · simp [s', h.tasks]
    · exact Nat.lt_succ_of_lt (h.old t ht)
  · have hfull : s'.enqueue (.business o (Sample.header .heartbeat [] 1) []) = s' := by
      rw [State.enqueue, if_pos]
      exact hn.trans_eq h.tasks.symm
    rw [hfull]
    exact ⟨⟨⟨d, hd, hev⟩, h.tasks, h.idle, h.finished, fun t ht => Nat.lt_succ_of_lt (h.old t ht)⟩, rfl⟩

theorem exists_waiting (n : ℕ) (hn : n ≤ 200001) :
    ∃ g, LedgerRunTo Sample.params Sample.db (fun _ _ => True) g ∧ Waiting n g := by
  induction n with
  | zero =>
      obtain ⟨g, hr, ⟨d, hd, hev⟩, ht, hidle, hf⟩ := Sample.exists_ledgerRun (fun _ _ => True)
        (Sample.connect 5) (fun g => (∃ d ∈ g.server.net.conns 0, g.server.atEvents d) ∧
          g.server.tasks = [] ∧ (∀ i < Sample.params.poolThreads, (g.server.threads i).isNone) ∧
          g.finished = []) (by decide)
      refine ⟨g, hr, ⟨d, hd, hev⟩, by rw [ht]; rfl, fun i => ?_, hf, by rw [ht]; nofun⟩
      cases hi : g.server.threads i with
      | none => rfl
      | some t =>
          have hlt := (traced_of_run (run_of_ledgerRun hr)).lt i t hi
          have hnone := hidle i hlt
          rw [hi] at hnone
          cases hnone
  | succ n ih =>
      obtain ⟨g, hr, hg⟩ := ih (Nat.le_of_succ_le hn)
      obtain ⟨g', o, hs, -, -, -, hroom, -⟩ := hg.read
      exact ⟨g', hr.tail trivial hs, hroom (Nat.le_of_succ_le_succ hn)⟩

/-- **A packet that a full pool refuses is lost**: with 200001 heartbeats waiting, the next one is cut off
its connection, which stays open, and is nowhere. -/
theorem packet_refused : ∃ g, LedgerRunTo Sample.params Sample.db (fun _ _ => True) g ∧
    ∃ o hdr body, .received o hdr body ∈ g.server.log ∧
      (∃ d, g.server.net.conns o.conn = some d ∧ d.phase = .opened) ∧
      (g.places Sample.params).count (.business o hdr body) = 0 := by
  obtain ⟨g, hr, hg⟩ := exists_waiting 200001 (Nat.le_refl _)
  obtain ⟨g', o, hs, hrec, hc, hpid, -, hfull⟩ := hg.read
  obtain ⟨hg', htasks⟩ := hfull (Nat.lt_succ_self _)
  refine ⟨g', hr.tail trivial hs, o, _, _, hrec, ?_, List.count_eq_zero.mpr fun hmem => ?_⟩
  · obtain ⟨d, hd, hev⟩ := hg'.conn
    exact ⟨d, hc ▸ hd, hev.1⟩
  · have hplaces : g'.places Sample.params = g.server.tasks := by
      simp [Ledger.places, State.atWork, hg'.idle, hg'.finished, htasks]
    rw [hplaces] at hmem
    have hlt := hg.old _ hmem
    change o.pid < g.server.nextPid at hlt
    rw [hpid] at hlt
    exact Nat.lt_irrefl _ hlt

end AuraChat
