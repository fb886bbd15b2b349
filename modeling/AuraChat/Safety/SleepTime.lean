import AuraChat.Model.Protocol
import AuraChat.Safety.TimerContract
import Mathlib.Order.Bounds.Defs

set_option autoImplicit false

/-!
# The sleep of the loop

`TimeToSleep` gives `epoll_wait` the milliseconds until the earliest timer is due, cast from `int64_t` to
`int`. Heartbeat timers are due at most `HEARTBEAT_SEC` seconds after the time that they are armed.

* `Timer.SleepsUntilDue`, **`Timer.sleepsUntilDue_iff`**: which times the cast leaves sound;
* `WorkerLoop.timerInvariant_within`: how far ahead the timers of a worker are due;
* **`sleep_sound_iff`**: in every state exactly if the interval fits.
-/

namespace AuraChat

open Interleave

namespace Timer

variable {φ : Type} {t : Timer φ} {now e : Int}

/-- The earliest timer is due at the time `e`. -/
def Earliest (t : Timer φ) (e : Int) : Prop := IsLeast {x | ∃ n ∈ t.timermap, n.expire = x} e

/-- What the loop asks of the time it sleeps, when the earliest timer is due at `e`. -/
def SleepsUntilDue (t : Timer φ) (now e : Int) : Prop :=
  0 ≤ (t.timeToSleep now).toInt ∧ (t.timeToSleep now).toInt ≤ max 0 (e - now) ∧
    (t.timeToSleep now = 0 ↔ (t.checkTimer now).isSome)

/-- The time is over, or what the cast leaves of the milliseconds is positive. -/
def Sleepable (left : Int) : Prop := left ≤ 0 ∨ (0 < left % 4294967296 ∧ left % 4294967296 < 2147483648)

theorem toInt_ofInt_cases (x : Int) :
    (x % 4294967296 < 2147483648 ∧ (Int32.ofInt x).toInt = x % 4294967296) ∨
      (2147483648 ≤ x % 4294967296 ∧ (Int32.ofInt x).toInt = x % 4294967296 - 4294967296) := by
  rw [Int32.toInt_ofInt, Int.bmod_def]
  simp only [Int32.size]
  omega

theorem earliest_cons {n : TimerNode φ} {ns : List (TimerNode φ)} (hmap : t.timermap = n :: ns)
    (hasc : Ascending t.timermap) (he : t.Earliest e) : n.expire = e := by
  rw [hmap] at hasc
  have hle : n.expire ≤ e := by
    obtain ⟨m, hm, rfl⟩ := he.1
    rw [hmap] at hm
    rcases List.mem_cons.mp hm with rfl | hm
    · exact Int.le_refl _
    · have hbefore := TimerNodeBase.before_iff.mp ((List.pairwise_cons.mp hasc).1 m hm)
      omega
  exact Int.le_antisymm hle (he.2 ⟨n, by rw [hmap]; exact List.mem_cons_self, rfl⟩)

theorem earliest_singleton {n : TimerNode φ} (hmap : t.timermap = [n]) : t.Earliest n.expire := by
  refine ⟨⟨n, by rw [hmap]; exact List.mem_cons_self, rfl⟩, ?_⟩
  rintro x ⟨m, hm, rfl⟩
  rw [hmap] at hm
  rw [List.mem_singleton.mp hm]

/-- **Which times the cast leaves sound.** -/
theorem sleepsUntilDue_iff (hasc : Ascending t.timermap) (he : t.Earliest e) :
    t.SleepsUntilDue now e ↔ Sleepable (e - now) := by
  cases hmap : t.timermap with
  | nil =>
      obtain ⟨m, hm, -⟩ := he.1
      rw [hmap] at hm
      cases hm
  | cons n ns =>
      obtain rfl := earliest_cons hmap hasc he
      have hcheck : (t.checkTimer now).isSome ↔ n.expire ≤ now := by
        simp only [checkTimer, hmap]
        split_ifs with h
        · exact iff_of_true rfl h
        · exact iff_of_false Bool.false_ne_true h
      simp only [SleepsUntilDue, hcheck, timeToSleep, hmap, Sleepable]
      by_cases hdue : 0 < n.expire - now
      · -- the cast is zero where its value is
        rw [if_pos hdue, ← Int32.toInt_inj, Int32.toInt_zero]
        have hcast := toInt_ofInt_cases (n.expire - now)
        omega
      · rw [if_neg hdue, Int32.toInt_zero]
        simp only [true_iff]
        omega

theorem mem_setInsert {n m : TimerNode φ} {l : List (TimerNode φ)} (h : m ∈ setInsert n l) :
    m = n ∨ m ∈ l := by
  induction l with
  | nil => exact .inl (List.mem_singleton.mp h)
  | cons a l ih =>
      rw [setInsert] at h
      split_ifs at h
      · exact List.mem_cons.mp h
      · rcases List.mem_cons.mp h with rfl | h
        · exact .inr List.mem_cons_self
        · exact (ih h).imp_right (List.mem_cons_of_mem a)
      · exact .inr h

end Timer

namespace WorkerLoop

variable {w : WorkerLoop}

theorem timerInvariant_within (H : Int) :
    TimerInvariant H fun t now _ => ∀ n ∈ t.timermap, n.expire ≤ now + H * 1000 where
  later h hle n hn := Int.le_trans (h n hn) (Int.add_le_add_right hle _)
  add func h n hn := by
    rcases Timer.mem_setInsert hn with rfl | hn
    · exact Int.le_refl _
    · exact h n hn
  delete node h n hn := h n (List.mem_filter.mp hn).1
  fire h hcheck n hn := by
    obtain ⟨hmap, -, -⟩ := TimerRun.checkTimer_some hcheck
    exact h n (by rw [hmap]; exact List.mem_cons_of_mem _ hn)
  returns _ h := h

theorem exists_left {H : Int} (hH : 2147483 < H) :
    ∃ w, RunTo H w ∧ w.timer.Earliest (w.now + 2147483648) := by
  have hwait : ((H * 1000 - 2147483648).toNat : Int) = H * 1000 - 2147483648 :=
    Int.toNat_of_nonneg (by omega)
  obtain ⟨w, hr, htimers, hnow⟩ := exists_run H [.accept 0, .functor, .tick (H * 1000 - 2147483648).toNat]
    (fun w => w.timer.timermap = [⟨⟨0 + H * 1000, 1⟩, ⟨0, 0⟩⟩] ∧
      w.now = 0 + ((H * 1000 - 2147483648).toNat : Int)) ⟨_, rfl, rfl, rfl⟩
  have hdue : w.now + 2147483648 = 0 + H * 1000 := by omega
  refine ⟨w, hr, ?_⟩
  rw [hdue]
  exact Timer.earliest_singleton htimers

/-- **The loop sleeps until the earliest timer is due**, for every value of `HEARTBEAT_SEC` and in every
state that the loop of a worker reaches with timers armed, exactly if the milliseconds left are none, or
positive as an `int`. So it does in every state exactly if the interval is at most 2147483 seconds. -/
theorem sleep_sound_iff (heartbeatSec : Int32) :
    (∀ w, RunTo heartbeatSec.toInt w → ∀ e, w.timer.Earliest e →
      (w.timer.SleepsUntilDue w.now e ↔ Timer.Sleepable (e - w.now))) ∧
    ((∀ w, RunTo heartbeatSec.toInt w → ∀ e, w.timer.Earliest e → w.timer.SleepsUntilDue w.now e) ↔
      heartbeatSec.toInt ≤ 2147483) := by
  have hiff : ∀ w, RunTo heartbeatSec.toInt w → ∀ e, w.timer.Earliest e →
      (w.timer.SleepsUntilDue w.now e ↔ Timer.Sleepable (e - w.now)) := by
    intro w hr e he
    obtain ⟨r, hr', hrt, -⟩ := timersRun hr
    have hasc : Timer.Ascending w.timer.timermap := by
      rw [← hrt]
      exact (hr'.invariant TimerRun.Sound (TimerRun.Sound.start 0) fun _ _ _ _ h hs => h.step hs).ascending
    exact Timer.sleepsUntilDue_iff hasc he
  refine ⟨hiff, fun h => ?_, fun hle w hr e he => (hiff w hr e he).mpr ?_⟩
  · by_contra hlong
    obtain ⟨w, hr, he⟩ := exists_left (Int.not_le.mp hlong)
    have hleft := (hiff w hr _ he).mp (h w hr _ he)
    simp only [Timer.Sleepable] at hleft
    omega
  · obtain ⟨n, hn, rfl⟩ := he.1
    have hwithin := (timerInvariant_within heartbeatSec.toInt).run nofun hr n hn
    simp only [Timer.Sleepable]
    omega

/-- With `IM_HB_SEC=2147484` and `2 ^ 31` milliseconds left, `epoll_wait` gets a negative time: it waits
without an end. -/
theorem sleeps_forever : ¬ ∀ w, RunTo (heartbeatSec (some (bytes "2147484"))) w →
    ∀ e, w.timer.Earliest e → w.timer.SleepsUntilDue w.now e := by
  intro h
  obtain ⟨w, hr, htimers, hnow⟩ := exists_run (heartbeatSec (some (bytes "2147484")))
    [.accept 0, .functor, .tick 352]
    (fun w => w.timer.timermap = [⟨⟨2147484000, 1⟩, ⟨0, 0⟩⟩] ∧ w.now = 352) (by decide)
  obtain ⟨hpos, -⟩ := h w hr _ (Timer.earliest_singleton htimers)
  simp only [Timer.timeToSleep, htimers, hnow] at hpos
  exact absurd hpos (by decide)

end WorkerLoop

end AuraChat
