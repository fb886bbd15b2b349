import AuraChat.Lib.Lists
import AuraChat.Lib.Tickets
import AuraChat.Server.Timers
import Mathlib.Data.Prod.Lex
import Mathlib.Logic.Relation
import Mathlib.Order.OrderIsoNat

set_option autoImplicit false

/-!
# The contract of the timers

`AddTimer`, `DelTimer` and `CheckTimer` are called in any order, also from inside the callbacks of timers
that have fired. A timer is a ticket: adding it issues the ticket, firing or deleting it ends the ticket.

* `timerLedger`: the calls as a ledger of tickets;
* `TimerRun.Sound`, `TimerRun.Sound.step`: the set of timers holds the live tickets, in their order;
* `LoopStep`, `EndlessLoop`: `while(timer_.CheckTimer());` with callbacks that add no timers;
* **`timer_contract`**: the contract;
* **`WorkerLoop.timersRun`**: the timers of a worker are under this contract.
-/

namespace AuraChat

open Interleave Tickets

variable {φ : Type}

/-! ## The order -/

namespace TimerNodeBase

variable {a b c : TimerNodeBase}

theorem before_iff : a.before b = true ↔ a.expire < b.expire ∨ (a.expire = b.expire ∧ a.id < b.id) := by
  unfold before
  split_ifs with h
  · rw [decide_eq_true_iff]
    omega
  · rw [decide_eq_true_iff]
    omega

theorem before_trans (h : a.before b = true) (h' : b.before c = true) : a.before c = true := by
  rw [before_iff] at *
  omega

end TimerNodeBase

/-- The order of `timermap_`. -/
def Timer.Ascending (l : List (TimerNode φ)) : Prop :=
  l.Pairwise fun a b => a.before b.toTimerNodeBase = true

theorem Timer.ascending_setInsert {n : TimerNode φ} {l : List (TimerNode φ)} (h : Timer.Ascending l)
    (hn : ∀ m ∈ l, m.id ≠ n.id) : Timer.Ascending (setInsert n l) := by
  induction l with
  | nil => exact List.pairwise_singleton _ n
  | cons m ms ih =>
      obtain ⟨hm, hms⟩ := List.pairwise_cons.mp h
      have hn' : ∀ m' ∈ ms, m'.id ≠ n.id := fun m' hm' => hn m' (List.mem_cons_of_mem m hm')
      rw [setInsert]
      split_ifs with h1 h2
      · refine List.pairwise_cons.mpr ⟨fun a ha => ?_, h⟩
        rcases List.mem_cons.mp ha with rfl | ha
        · exact h1
        · exact TimerNodeBase.before_trans h1 (hm a ha)
      · refine List.pairwise_cons.mpr ⟨fun a ha => ?_, ih hms hn'⟩
        rcases List.mem_cons.mp ((setInsert_perm hn').mem_iff.mp ha) with rfl | ha
        · exact h2
        · exact hm a ha
      · exact h

/-! ## The ledger -/

/-- Adding a timer issues a ticket. Firing it ends the ticket, and so does `DelTimer` that returns `true`. -/
def timerLedger : Ledger (TimerEvent φ) TimerNodeBase where
  issued
    | .added n => some n.toTimerNodeBase
    | _ => none
  ended
    | .fired n _ => some n.toTimerNodeBase
    | .deleted node true => some node
    | _ => none

/-- The timer that an event fires. -/
def TimerEvent.firedNode : TimerEvent φ → Option TimerNodeBase
  | .fired n _ => some n.toTimerNodeBase
  | _ => none

namespace TimerRun

/-- The set of timers holds the live tickets, in their order, and the ids count up. -/
structure Sound (r : TimerRun φ) : Prop where
  ascending : Timer.Ascending r.timer.timermap
  ids : (r.timer.timermap.map fun n => n.id).Nodup
  proper : timerLedger.Proper r.log
  live : ∀ node, timerLedger.Live r.log node ↔ ∃ n ∈ r.timer.timermap, n.toTimerNodeBase = node
  issued : ∀ node ∈ r.log.filterMap timerLedger.issued, node.id ≤ r.timer.gid
  added : ∀ n ∈ r.timer.timermap, .added n ∈ r.log
  fired : ∀ n now, .fired n now ∈ r.log → .added n ∈ r.log ∧ n.expire ≤ now

variable {r r' : TimerRun φ}

theorem Sound.start (now : Int) : Sound ({ now := now } : TimerRun φ) where
  ascending := .nil
  ids := .nil
  proper := Ledger.proper_nil
  live node := by simp [Ledger.Live]
  issued node h := by cases h
  added n h := by cases h
  fired n now h := by cases h

theorem Sound.id_le (h : Sound r) {n : TimerNode φ} (hn : n ∈ r.timer.timermap) : n.id ≤ r.timer.gid := by
  have hlive := (h.live n.toTimerNodeBase).mpr ⟨n, hn, rfl⟩
  exact h.issued _ hlive.1

theorem Sound.congr (h : Sound r) (ht : r'.timer = r.timer) (hlog : r'.log = r.log) : Sound r' where
  ascending := by rw [ht]; exact h.ascending
  ids := by rw [ht]; exact h.ids
  proper := by rw [hlog]; exact h.proper
  live := by rw [ht, hlog]; exact h.live
  issued := by rw [ht, hlog]; exact h.issued
  added := by rw [ht, hlog]; exact h.added
  fired := by rw [hlog]; exact h.fired

theorem Sound.fired_concat (h : Sound r) {e : TimerEvent φ}
    (he : ∀ n now, e = .fired n now → .added n ∈ r.log ∧ n.expire ≤ now) (n : TimerNode φ) (now : Int)
    (hn : .fired n now ∈ r.log ++ [e]) : .added n ∈ r.log ++ [e] ∧ n.expire ≤ now := by
  have hold : .added n ∈ r.log ∧ n.expire ≤ now := by
    rcases List.mem_append.mp hn with hn | hn
    · exact h.fired n now hn
    · exact he n now (List.mem_singleton.mp hn).symm
  exact ⟨List.mem_append_left _ hold.1, hold.2⟩

theorem Sound.issued_concat (h : Sound r) {e : TimerEvent φ} (hi : timerLedger.issued e = none) :
    ∀ node ∈ (r.log ++ [e]).filterMap timerLedger.issued, node.id ≤ r.timer.gid := by
  rw [List.filterMap_append, List.filterMap_cons_none hi, List.filterMap_nil, List.append_nil]
  exact h.issued

/-- A timer with the next id is added. -/
theorem Sound.add (h : Sound r) {n : TimerNode φ} (hid : n.id = r.timer.gid + 1) :
    Sound { r with
      timer := ⟨r.timer.gid + 1, Timer.setInsert n r.timer.timermap⟩
      log := r.log ++ [.added n] } := by
  have hnew : ∀ m ∈ r.timer.timermap, m.id ≠ n.id := by
    intro m hm
    have hle := h.id_le hm
    omega
  have hperm := Timer.setInsert_perm hnew
  have hproper : timerLedger.Proper (r.log ++ [.added n]) := by
    refine Ledger.proper_concat.mpr ⟨h.proper, fun k hk hmem => ?_, fun k hk => by cases hk⟩
    obtain rfl := Option.some.inj hk
    have hle := h.issued _ hmem
    omega
  constructor
  case ascending => exact Timer.ascending_setInsert h.ascending hnew
  case ids =>
    refine (hperm.map _).nodup_iff.mpr (List.nodup_cons.mpr ⟨fun hmem => ?_, h.ids⟩)
    obtain ⟨m, hm, hm'⟩ := List.mem_map.mp hmem
    exact hnew m hm hm'
  case proper => exact hproper
  case live =>
    intro node
    show timerLedger.Live (r.log ++ [.added n]) node ↔ _
    rw [Ledger.live_issue hproper rfl rfl, h.live]
    simp only [hperm.mem_iff, List.mem_cons, exists_eq_or_imp]
    exact or_congr_left eq_comm
  case issued =>
    intro node hnode
    show node.id ≤ r.timer.gid + 1
    rw [List.filterMap_append, List.mem_append] at hnode
    rcases hnode with hnode | hnode
    · exact Int.le_add_one (h.issued node hnode)
    · rw [List.mem_singleton.mp hnode]
      omega
  case added =>
    intro m hm
    rcases List.mem_cons.mp (hperm.mem_iff.mp hm) with rfl | hm
    · exact List.mem_append_right _ List.mem_cons_self
    · exact List.mem_append_left _ (h.added m hm)
  case fired => exact h.fired_concat fun m t hm => by cases hm

theorem Sound.remove (h : Sound r) {l : List (TimerNode φ)} {node : TimerNodeBase} {e : TimerEvent φ}
    (hsub : l.Sublist r.timer.timermap)
    (hmem : ∀ m, m ∈ l ↔ m ∈ r.timer.timermap ∧ m.toTimerNodeBase ≠ node)
    (hlive : timerLedger.Live r.log node) (hi : timerLedger.issued e = none)
    (he : timerLedger.ended e = some node)
    (hfired : ∀ n now, e = .fired n now → .added n ∈ r.log ∧ n.expire ≤ now) :
    Sound { r with timer := { r.timer with timermap := l }, log := r.log ++ [e] } := by
  constructor
  case ascending => exact h.ascending.sublist hsub
  case ids => exact h.ids.sublist (hsub.map _)
  case proper =>
    refine Ledger.proper_concat.mpr ⟨h.proper, fun k hk => ?_, fun k hk => ?_⟩
    · rw [hi] at hk
      cases hk
    · rw [he] at hk
      exact Option.some.inj hk ▸ hlive
  case live =>
    intro k
    show timerLedger.Live (r.log ++ [e]) k ↔ _
    rw [Ledger.live_end hi he, h.live]
    simp only [hmem]
    constructor
    · rintro ⟨⟨n, hn, rfl⟩, hne⟩
      exact ⟨n, ⟨hn, hne⟩, rfl⟩
    · rintro ⟨n, ⟨hn, hne⟩, rfl⟩
      exact ⟨⟨n, hn, rfl⟩, hne⟩
  case issued => exact h.issued_concat hi
  case added =>
    intro m hm
    exact List.mem_append_left _ (h.added m ((hmem m).mp hm).1)
  case fired => exact h.fired_concat hfired

theorem Sound.notFound (h : Sound r) (node : TimerNodeBase) :
    Sound { r with log := r.log ++ [.deleted node false] } := by
  have hi : timerLedger.issued (.deleted node false : TimerEvent φ) = none := rfl
  have he : timerLedger.ended (.deleted node false : TimerEvent φ) = none := rfl
  constructor
  case ascending => exact h.ascending
  case ids => exact h.ids
  case proper =>
    exact Ledger.proper_concat.mpr ⟨h.proper, (fun k hk => by cases hk), fun k hk => by cases hk⟩
  case live =>
    intro k
    exact (Ledger.live_other hi he).trans (h.live k)
  case issued => exact h.issued_concat hi
  case added =>
    intro m hm
    exact List.mem_append_left _ (h.added m hm)
  case fired => exact h.fired_concat fun m t hm => by cases hm

/-! ## Calls -/

theorem Sound.delTimer_iff (h : Sound r) (node : TimerNodeBase) :
    (r.timer.delTimer node).2 = true ↔ timerLedger.Live r.log node := by
  rw [h.live, Timer.delTimer, List.any_eq_true]
  simp only [decide_eq_true_eq]

theorem mem_delTimer (t : Timer φ) (node : TimerNodeBase) (n : TimerNode φ) :
    n ∈ (t.delTimer node).1.timermap ↔ n ∈ t.timermap ∧ n.toTimerNodeBase ≠ node := by
  rw [Timer.delTimer, List.mem_filter, decide_eq_true_eq]

theorem Sound.delTimer (h : Sound r) (node : TimerNodeBase) :
    Sound { r with
      timer := (r.timer.delTimer node).1
      log := r.log ++ [.deleted node (r.timer.delTimer node).2] } := by
  by_cases hdel : (r.timer.delTimer node).2 = true
  · have hlive := (h.delTimer_iff node).mp hdel
    rw [hdel]
    exact h.remove List.filter_sublist (mem_delTimer r.timer node) hlive rfl rfl fun n now hn => by cases hn
  · -- no timer is filtered out
    have hsame : (r.timer.delTimer node).1 = r.timer := by
      have hall : ∀ n ∈ r.timer.timermap, decide (n.toTimerNodeBase ≠ node) = true := by
        intro n hn
        rw [decide_eq_true_iff]
        intro heq
        exact hdel ((h.delTimer_iff node).mpr ((h.live node).mpr ⟨n, hn, heq⟩))
      rw [Timer.delTimer, List.filter_eq_self.mpr hall]
    rw [hsame, Bool.eq_false_iff.mpr hdel]
    exact h.notFound node

theorem checkTimer_some {t t' : Timer φ} {now : Int} {n : TimerNode φ}
    (h : t.checkTimer now = some (n, t')) :
    t.timermap = n :: t'.timermap ∧ t'.gid = t.gid ∧ n.expire ≤ now := by
  unfold Timer.checkTimer at h
  split at h
  · cases h
  · rename_i m ms hmap
    split_ifs at h with hdue
    obtain ⟨rfl, rfl⟩ := Prod.mk.inj (Option.some.inj h)
    exact ⟨hmap, rfl, hdue⟩

theorem Sound.checkTimer (h : Sound r) {t : Timer φ} {now : Int} {n : TimerNode φ}
    (hn : r.timer.checkTimer now = some (n, t)) :
    Sound { r with timer := t, log := r.log ++ [.fired n now] } := by
  obtain ⟨hmap, hgid, hdue⟩ := checkTimer_some hn
  have hfirst : n ∈ r.timer.timermap := by
    rw [hmap]
    exact List.mem_cons_self
  have hids := h.ids
  rw [hmap, List.map_cons, List.nodup_cons] at hids
  have hmem : ∀ m, m ∈ t.timermap ↔ m ∈ r.timer.timermap ∧ m.toTimerNodeBase ≠ n.toTimerNodeBase := by
    intro m
    rw [hmap, List.mem_cons]
    constructor
    · intro hm
      refine ⟨.inr hm, fun heq => hids.1 ?_⟩
      exact List.mem_map.mpr ⟨m, hm, congrArg TimerNodeBase.id heq⟩
    · rintro ⟨rfl | hm, hne⟩
      · exact absurd rfl hne
      · exact hm
  have hlive := (h.live n.toTimerNodeBase).mpr ⟨n, hfirst, rfl⟩
  have hsub : t.timermap.Sublist r.timer.timermap := by
    rw [hmap]
    exact List.sublist_cons_self n _
  have heq : t = ⟨r.timer.gid, t.timermap⟩ := by rw [← hgid]
  rw [heq]
  refine h.remove hsub hmem hlive rfl rfl fun m now' he => ?_
  cases he
  exact ⟨h.added n hfirst, hdue⟩

/-- What a call or a return does. -/
inductive Effect (r : TimerRun φ) : TimerMove φ → TimerRun φ → Prop
  | add (now msec : Int) (func : φ) (hnow : r.now ≤ now) :
      Effect r (.addTimer now msec func)
        { r with
          timer := (r.timer.addTimer now msec func).1
          now := now
          log := r.log ++ [.added ⟨(r.timer.addTimer now msec func).2, func⟩] }
  | delete (node : TimerNodeBase) :
      Effect r (.delTimer node)
        { r with
          timer := (r.timer.delTimer node).1
          log := r.log ++ [.deleted node (r.timer.delTimer node).2] }
  | idle (now : Int) (hnow : r.now ≤ now) (hcheck : r.timer.checkTimer now = none) :
      Effect r (.checkTimer now) { r with now := now }
  | fire (now : Int) (hnow : r.now ≤ now) (n : TimerNode φ) (t : Timer φ)
      (hcheck : r.timer.checkTimer now = some (n, t)) :
      Effect r (.checkTimer now) ⟨t, now, n :: r.callbacks, r.log ++ [.fired n now]⟩
  | returns (n : TimerNode φ) (outer : List (TimerNode φ)) (hcallbacks : r.callbacks = n :: outer) :
      Effect r .callbackReturns { r with callbacks := outer }

theorem effect_of_step {m : TimerMove φ} (hs : step m r = some r') : Effect r m r' := by
  cases m with
  | addTimer now msec func =>
      simp only [step] at hs
      split_ifs at hs with hnow
      obtain rfl := Option.some.inj hs
      exact .add now msec func (Int.not_lt.mp hnow)
  | delTimer node =>
      obtain rfl := Option.some.inj hs
      exact .delete node
  | checkTimer now =>
      simp only [step] at hs
      split_ifs at hs with hnow
      split at hs
      · rename_i hcheck
        obtain rfl := Option.some.inj hs
        exact .idle now (Int.not_lt.mp hnow) hcheck
      · rename_i n t hcheck
        obtain rfl := Option.some.inj hs
        exact .fire now (Int.not_lt.mp hnow) n t hcheck
  | callbackReturns =>
      simp only [step] at hs
      split at hs
      · cases hs
      · rename_i n outer hcallbacks
        obtain rfl := Option.some.inj hs
        exact .returns n outer hcallbacks

/-- **Every call keeps the set of timers sound.** -/
theorem Sound.step (h : Sound r) {m : TimerMove φ} (hs : step m r = some r') : Sound r' := by
  cases effect_of_step hs with
  | add now msec func =>
      have hadd : Sound _ := h.add (n := ⟨⟨now + msec, r.timer.gid + 1⟩, func⟩) rfl
      exact hadd.congr rfl rfl
  | delete node => exact h.delTimer node
  | idle now => exact h.congr rfl rfl
  | fire now _ n t hcheck => exact (h.checkTimer hcheck).congr rfl rfl
  | returns => exact h.congr rfl rfl

end TimerRun

/-! ## The loop -/

/-- A call that adds no timer, at a fixed time. -/
def TimerMove.AddsNone (now : Int) : TimerMove φ → Prop
  | .addTimer _ _ _ => False
  | .checkTimer t => t = now
  | .delTimer _ | .callbackReturns => True

/-- A step of `while(timer_.CheckTimer());`, which is called inside of `depth` callbacks, at a fixed time: the
loop fires a timer, or a callback that it runs makes a call or returns. The callbacks add no timers. -/
def LoopStep (now : Int) (depth : ℕ) (r r' : TimerRun φ) : Prop :=
  (r.callbacks.length = depth ∧ (r.timer.checkTimer now).isSome ∧
      TimerRun.step (.checkTimer now) r = some r') ∨
    (depth < r.callbacks.length ∧ ∃ m : TimerMove φ, m.AddsNone now ∧ TimerRun.step m r = some r')

/-- A run of the loop that does not end, though no callback goes on for ever without a return and without
firing another timer. -/
structure EndlessLoop (now : Int) (depth : ℕ) (rs : ℕ → TimerRun φ) : Prop where
  step : ∀ i, LoopStep now depth (rs i) (rs (i + 1))
  returns : ∀ i, depth < (rs i).callbacks.length → ∃ j, i ≤ j ∧ (rs j).callbacks ≠ (rs i).callbacks

namespace TimerRun

variable {r r' : TimerRun φ} {now : Int} {depth : ℕ}

/-- What gets less in the loop: the timers, and then the callbacks. -/
def loopMeasure (r : TimerRun φ) : ℕ ×ₗ ℕ := toLex (r.timer.timermap.length, r.callbacks.length)

theorem loopMeasure_taken {n : TimerNode φ} {t : Timer φ} (hcheck : r.timer.checkTimer now = some (n, t))
    (now' : Int) (cs : List (TimerNode φ)) (log : List (TimerEvent φ)) :
    loopMeasure ⟨t, now', cs, log⟩ < r.loopMeasure := by
  rw [loopMeasure, loopMeasure, Prod.Lex.toLex_lt_toLex, (checkTimer_some hcheck).1]
  exact .inl (Nat.lt_succ_self _)

theorem loopMeasure_fire (hdue : (r.timer.checkTimer now).isSome)
    (hs : step (.checkTimer now) r = some r') : r'.loopMeasure < r.loopMeasure := by
  cases effect_of_step hs with
  | idle _ _ hcheck =>
      rw [hcheck] at hdue
      cases hdue
  | fire _ _ n t hcheck => exact loopMeasure_taken hcheck _ _ _

/-- A call that adds no timer leaves less, or it leaves the callbacks as they are. -/
theorem loopMeasure_step {m : TimerMove φ} (hm : m.AddsNone now) (hs : step m r = some r') :
    r'.loopMeasure < r.loopMeasure ∨
      (r'.loopMeasure ≤ r.loopMeasure ∧ r'.callbacks = r.callbacks) := by
  cases effect_of_step hs with
  | add => cases hm
  | delete node =>
      refine .inr ⟨?_, rfl⟩
      have hle : (r.timer.delTimer node).1.timermap.length ≤ r.timer.timermap.length :=
        List.length_filter_le _ _
      rw [loopMeasure, loopMeasure, Prod.Lex.toLex_le_toLex]
      rcases Nat.lt_or_eq_of_le hle with hlt | heq
      · exact .inl hlt
      · exact .inr ⟨heq, Nat.le_refl _⟩
  | idle => exact .inr ⟨le_refl _, rfl⟩
  | fire _ _ n t hcheck => exact .inl (loopMeasure_taken hcheck _ _ _)
  | returns n outer hcallbacks =>
      refine .inl ?_
      rw [loopMeasure, loopMeasure, Prod.Lex.toLex_lt_toLex, hcallbacks]
      exact .inr ⟨rfl, Nat.lt_succ_self _⟩

/-- **The loop ends.** -/
theorem not_endlessLoop (rs : ℕ → TimerRun φ) : ¬ EndlessLoop now depth rs := by
  intro ⟨hstep, hreturns⟩
  have hone : ∀ i, (rs (i + 1)).loopMeasure < (rs i).loopMeasure ∨ (depth < (rs i).callbacks.length ∧
      (rs (i + 1)).loopMeasure ≤ (rs i).loopMeasure ∧ (rs (i + 1)).callbacks = (rs i).callbacks) := by
    intro i
    rcases hstep i with ⟨-, hdue, hs⟩ | ⟨hlt, m, hm, hs⟩
    · exact .inl (loopMeasure_fire hdue hs)
    · exact (loopMeasure_step hm hs).imp id fun h => ⟨hlt, h⟩
  have hanti : Antitone fun i => (rs i).loopMeasure := by
    apply antitone_nat_of_succ_le
    intro i
    rcases hone i with h | ⟨-, h, -⟩
    · exact le_of_lt h
    · exact h
  -- from some step on nothing gets less, so that one callback goes on
  obtain ⟨i, hi⟩ := WellFoundedLT.antitone_chain_condition hanti
  have hstay : ∀ j, i ≤ j → depth < (rs j).callbacks.length ∧ (rs (j + 1)).callbacks = (rs j).callbacks := by
    intro j hj
    have heq : (rs (j + 1)).loopMeasure = (rs j).loopMeasure :=
      (hi (j + 1) (Nat.le_succ_of_le hj)).symm.trans (hi j hj)
    rcases hone j with h | ⟨hlt, -, hsame⟩
    · rw [heq] at h
      exact absurd h (lt_irrefl _)
    · exact ⟨hlt, hsame⟩
  have hsame : ∀ j, i ≤ j → (rs j).callbacks = (rs i).callbacks := by
    intro j hj
    induction j, hj using Nat.le_induction with
    | base => rfl
    | succ j hj ih => exact (hstay j hj).2.trans ih
  obtain ⟨j, hj, hne⟩ := hreturns i (hstay i (Nat.le_refl i)).1
  exact hne (hsame j hj)

theorem Sound.none_due (h : Sound r) (hnone : r.timer.checkTimer now = none) :
    ∀ n ∈ r.timer.timermap, now < n.expire := by
  have hasc := h.ascending
  unfold Timer.checkTimer at hnone
  split at hnone
  · rename_i hmap
    rw [hmap]
    exact fun n hn => absurd hn List.not_mem_nil
  · rename_i n ns hmap
    split_ifs at hnone with hdue
    rw [hmap] at hasc ⊢
    obtain ⟨hfirst, -⟩ := List.pairwise_cons.mp hasc
    intro m hm
    rcases List.mem_cons.mp hm with rfl | hm
    · omega
    · have hbefore := TimerNodeBase.before_iff.mp (hfirst m hm)
      omega

theorem Sound.loopStep (h : Sound r) (hnow : r.now ≤ now) (hdepth : depth ≤ r.callbacks.length)
    (hs : LoopStep now depth r r') : Sound r' ∧ r'.now ≤ now ∧ depth ≤ r'.callbacks.length := by
  rcases hs with ⟨-, -, hs⟩ | ⟨hlt, m, hm, hs⟩
  · refine ⟨h.step hs, ?_⟩
    cases effect_of_step hs with
    | idle => exact ⟨le_refl _, hdepth⟩
    | fire => exact ⟨le_refl _, Nat.le_succ_of_le hdepth⟩
  · refine ⟨h.step hs, ?_⟩
    cases effect_of_step hs with
    | add => cases hm
    | delete => exact ⟨hnow, hdepth⟩
    | idle => exact ⟨le_of_eq hm, hdepth⟩
    | fire => exact ⟨le_of_eq hm, Nat.le_succ_of_le hdepth⟩
    | returns n outer hcallbacks =>
        rw [hcallbacks] at hlt
        exact ⟨hnow, Nat.le_of_lt_succ hlt⟩

/-- **Where the loop cannot go on, it has ended, and no timer is due.** -/
theorem Sound.loop_end (h : Sound r) (hnow : r.now ≤ now)
    (hloop : Relation.ReflTransGen (LoopStep now r.callbacks.length) r r')
    (hend : ∀ r'', ¬ LoopStep now r.callbacks.length r' r'') :
    r'.callbacks.length = r.callbacks.length ∧ ∀ n ∈ r'.timer.timermap, now < n.expire := by
  have hkeep : Sound r' ∧ r'.now ≤ now ∧ r.callbacks.length ≤ r'.callbacks.length := by
    clear hend
    induction hloop with
    | refl => exact ⟨h, hnow, Nat.le_refl _⟩
    | tail _ hs ih => exact ih.1.loopStep ih.2.1 ih.2.2 hs
  obtain ⟨hsound, hnow', hdepth⟩ := hkeep
  have hlen : r'.callbacks.length = r.callbacks.length := by
    by_contra hne
    have hlt : r.callbacks.length < r'.callbacks.length := by omega
    cases hcallbacks : r'.callbacks with
    | nil =>
        rw [hcallbacks] at hlt
        exact Nat.not_lt_zero _ hlt
    | cons n outer =>
        refine hend { r' with callbacks := outer } (.inr ⟨hlt, .callbackReturns, trivial, ?_⟩)
        simp only [TimerRun.step, hcallbacks]
  refine ⟨hlen, hsound.none_due ?_⟩
  cases hcheck : r'.timer.checkTimer now with
  | none => rfl
  | some fired =>
      have hs : ∃ r'', TimerRun.step (.checkTimer now) r' = some r'' := by
        simp only [TimerRun.step, hcheck, if_neg (Int.not_lt.mpr hnow')]
        exact ⟨_, rfl⟩
      obtain ⟨r'', hs⟩ := hs
      exact absurd (.inl ⟨hlen, by rw [hcheck]; rfl, hs⟩) (hend r'')

end TimerRun

/-! ## The contract -/

/-- What holds of a timer and of the calls that were made on it. -/
structure TimerContract (r : TimerRun φ) : Prop where
  /-- Live timers have distinct ids. -/
  ids : (r.timer.timermap.map fun n => n.id).Nodup
  /-- The timers in the set are the live ones: those that were added, and neither fired nor deleted. -/
  live : ∀ node, timerLedger.Live r.log node ↔ ∃ n ∈ r.timer.timermap, n.toTimerNodeBase = node
  /-- A timer fires at most once. -/
  firesOnce : (r.log.filterMap TimerEvent.firedNode).Nodup
  /-- A timer that fires has been added, and its time has come. -/
  fires : ∀ n now, .fired n now ∈ r.log → .added n ∈ r.log ∧ n.expire ≤ now
  /-- A timer does not fire after `DelTimer` on its handle has returned `true`. -/
  notAfter : ∀ pre node post, r.log = pre ++ .deleted node true :: post →
    ∀ n now, .fired n now ∈ post → n.toTimerNodeBase ≠ node
  /-- `DelTimer` returns `true` exactly on live timers. -/
  deletes : ∀ node, (r.timer.delTimer node).2 = true ↔ timerLedger.Live r.log node
  /-- `DelTimer` removes the timer with this handle and no other. -/
  removes : ∀ node n, n ∈ (r.timer.delTimer node).1.timermap ↔
    n ∈ r.timer.timermap ∧ n.toTimerNodeBase ≠ node
  /-- A timer that fires is the least of the live ones by `(expire, id)`. -/
  first : ∀ now n t, r.timer.checkTimer now = some (n, t) → n ∈ r.timer.timermap ∧
    ∀ m ∈ r.timer.timermap, m ≠ n → n.expire < m.expire ∨ (n.expire = m.expire ∧ n.id < m.id)
  /-- `while(timer_.CheckTimer());` ends if the callbacks add no timers, and leaves no timer that is due. -/
  loop : ∀ now, r.now ≤ now →
    (∀ rs : ℕ → TimerRun φ, rs 0 = r → ¬ EndlessLoop now r.callbacks.length rs) ∧
    ∀ r', Relation.ReflTransGen (LoopStep now r.callbacks.length) r r' →
      (∀ r'', ¬ LoopStep now r.callbacks.length r' r'') →
      r'.callbacks.length = r.callbacks.length ∧ ∀ n ∈ r'.timer.timermap, now < n.expire

theorem firedNode_or_ended (e : TimerEvent φ) :
    e.firedNode = none ∨ e.firedNode = timerLedger.ended e := by
  cases e with
  | added n => exact .inl rfl
  | deleted node ok => exact .inl rfl
  | fired n now => exact .inr rfl

/-- **The timer contract**, for every sequence of calls with a clock that does not go back. -/
theorem timer_contract {now : Int} {r : TimerRun φ}
    (h : Reach TimerRun.step (fun _ _ => True) { now := now } r) : TimerContract r := by
  have hsound : r.Sound :=
    h.invariant TimerRun.Sound (TimerRun.Sound.start now) fun _ _ _ _ hs hstep => hs.step hstep
  have honce := hsound.proper.ended_nodup
  constructor
  case ids => exact hsound.ids
  case live => exact hsound.live
  case firesOnce => exact honce.sublist (filterMap_sublist r.log firedNode_or_ended)
  case fires => exact hsound.fired
  case notAfter =>
    intro pre node post hlog n t hn heq
    have hended : timerLedger.ended (.deleted node true : TimerEvent φ) = some node := rfl
    rw [hlog, List.filterMap_append, List.filterMap_cons_some hended] at honce
    have hpost := (List.nodup_append.mp honce).2.1
    refine (List.nodup_cons.mp hpost).1 (List.mem_filterMap.mpr ⟨_, hn, ?_⟩)
    exact congrArg some heq
  case deletes => exact hsound.delTimer_iff
  case removes => exact TimerRun.mem_delTimer r.timer
  case first =>
    intro t n timer hcheck
    obtain ⟨hmap, -, -⟩ := TimerRun.checkTimer_some hcheck
    have hasc := hsound.ascending
    rw [hmap] at hasc ⊢
    refine ⟨List.mem_cons_self, fun m hm hne => ?_⟩
    have hm' := (List.mem_cons.mp hm).resolve_left hne
    exact TimerNodeBase.before_iff.mp ((List.pairwise_cons.mp hasc).1 m hm')
  case loop =>
    intro t ht
    exact ⟨fun rs _ => TimerRun.not_endlessLoop rs, fun r' => hsound.loop_end ht⟩

/-- Two timers that are due at the same time: the callback of the first one deletes the second one. -/
theorem timer_contract_sample : ∃ r : TimerRun ℕ,
    r.log = [.added ⟨⟨5, 1⟩, 7⟩, .added ⟨⟨5, 2⟩, 8⟩, .fired ⟨⟨5, 1⟩, 7⟩ 5, .deleted ⟨5, 2⟩ true,
      .deleted ⟨5, 1⟩ false] ∧ TimerContract r := by
  let moves : List (TimerMove ℕ) := [.addTimer 0 5 7, .addTimer 0 5 8, .checkTimer 5, .delTimer ⟨5, 2⟩,
    .checkTimer 5, .callbackReturns, .delTimer ⟨5, 1⟩]
  have hrun : ∃ r ∈ runAll TimerRun.step (fun _ _ => True) moves { now := 0 },
      r.log = [.added ⟨⟨5, 1⟩, 7⟩, .added ⟨⟨5, 2⟩, 8⟩, .fired ⟨⟨5, 1⟩, 7⟩ 5, .deleted ⟨5, 2⟩ true,
        .deleted ⟨5, 1⟩ false] := by decide
  obtain ⟨r, hreach, hlog⟩ := exists_reach moves hrun
  exact ⟨r, hlog, timer_contract hreach⟩

/-! ## The timers of a worker -/

namespace WorkerLoop

/-- The timers of the worker come from a run of calls, inside of some callbacks. -/
def TimersRun (w : WorkerLoop) (callbacks : List (TimerNode Heartbeat)) : Prop :=
  ∃ r : TimerRun Heartbeat, Reach TimerRun.step (fun _ _ => True) {} r ∧ r.timer = w.timer ∧
    r.now ≤ w.now ∧ r.callbacks = callbacks

theorem timerInvariant_run (H : Int) : TimerInvariant H fun t now cs =>
    ∃ r : TimerRun Heartbeat, Reach TimerRun.step (fun _ _ => True) {} r ∧ r.timer = t ∧
      r.now ≤ now ∧ r.callbacks = cs where
  later := by
    rintro t now now' cs ⟨r, hr, hrt, hrnow, hrcs⟩ hle
    exact ⟨r, hr, hrt, Int.le_trans hrnow hle, hrcs⟩
  add := by
    rintro t now cs func ⟨r, hr, rfl, hrnow, hrcs⟩
    have hadd : TimerRun.step (.addTimer now (H * 1000) func) r = some _ := if_neg (Int.not_lt.mpr hrnow)
    exact ⟨_, hr.tail trivial hadd, rfl, Int.le_refl _, hrcs⟩
  delete := by
    rintro t now cs node ⟨r, hr, rfl, hrnow, hrcs⟩
    exact ⟨_, hr.tail (l := .delTimer node) trivial rfl, rfl, hrnow, hrcs⟩
  fire := by
    rintro t t' now cs n ⟨r, hr, rfl, hrnow, hrcs⟩ hcheck
    have hfire : TimerRun.step (.checkTimer now) r =
        some ⟨t', now, n :: r.callbacks, r.log ++ [.fired n now]⟩ := by
      simp only [TimerRun.step, if_neg (Int.not_lt.mpr hrnow), hcheck]
    exact ⟨_, hr.tail trivial hfire, rfl, Int.le_refl _, by rw [hrcs]⟩
  returns := by
    rintro t now cs n ⟨r, hr, hrt, hrnow, hrcs⟩
    have hreturn : TimerRun.step .callbackReturns r = some { r with callbacks := cs } := by
      simp only [TimerRun.step, hrcs]
    exact ⟨_, hr.tail trivial hreturn, hrt, hrnow, rfl⟩

/-- **The timers of a worker come from a run of calls**, all callbacks of which have returned. -/
theorem timersRun {H : Int} {w : WorkerLoop} (hr : RunTo H w) : TimersRun w [] :=
  (timerInvariant_run H).run ⟨{}, .refl, rfl, Int.le_refl _, rfl⟩ hr

end WorkerLoop

end AuraChat
