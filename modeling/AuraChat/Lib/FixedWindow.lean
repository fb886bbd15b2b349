import Mathlib.Data.List.Pairwise
import Mathlib.Tactic.Common

set_option autoImplicit false

/-!
# Fixed windows

A limiter with fixed windows lets the first `L` events of each window pass. The windows start more than `W`
apart, each with an event.

* `Window`, `Window.verdicts`: the events of a window, and which of them pass;
* `Separated`: the starts of the windows;
* **`countP_passed_le`**: an interval of the length `W` has at most `2 * L` events that pass.
-/

namespace FixedWindow

/-- A window: its first event, which starts it, and those after it. -/
structure Window where
  start : Int
  later : List Int
  deriving DecidableEq, Repr

/-- The first `L` events pass. -/
def passFirst (L : ℕ) (times : List Int) : List (Int × Bool) :=
  (times.take L).map (·, true) ++ (times.drop L).map (·, false)

namespace Window

def times (w : Window) : List Int := w.start :: w.later

def verdicts (L : ℕ) (w : Window) : List (Int × Bool) := passFirst L w.times

end Window

/-- The windows start more than `W` apart. -/
def Separated (W : Int) (ws : List Window) : Prop := ws.Pairwise fun w w' => W < w'.start - w.start

/-- The event passes, in the interval from `a` to `b`. -/
def passedIn (a b : Int) (e : Int × Bool) : Bool := a ≤ e.1 && e.1 ≤ b && e.2

variable {L : ℕ} {W a b : Int} {w : Window} {ws : List Window} {times : List Int}

theorem passFirst_cons_pos (h : 0 < L) (t : Int) (times : List Int) :
    passFirst L (t :: times) = (t, true) :: passFirst (L - 1) times := by
  obtain ⟨n, rfl⟩ : ∃ n, L = n + 1 := ⟨L - 1, by omega⟩
  rfl

theorem mem_times_of_verdicts {e : Int × Bool} (h : e ∈ w.verdicts L) : e.1 ∈ w.times := by
  obtain h | h := List.mem_append.mp h
  · obtain ⟨t, ht, rfl⟩ := List.mem_map.mp h
    exact List.mem_of_mem_take ht
  · obtain ⟨t, ht, rfl⟩ := List.mem_map.mp h
    exact List.mem_of_mem_drop ht

/-- At most `L` events of a window pass. -/
theorem countP_verdicts_le (a b : Int) (w : Window) : (w.verdicts L).countP (passedIn a b) ≤ L := by
  have hlate : ((w.times.drop L).map (·, false)).countP (passedIn a b) = 0 := by
    rw [List.countP_eq_zero]
    intro e he
    obtain ⟨t, -, rfl⟩ := List.mem_map.mp he
    simp [passedIn]
  rw [Window.verdicts, passFirst, List.countP_append, hlate, Nat.add_zero]
  refine Nat.le_trans List.countP_le_length ?_
  rw [List.length_map, List.length_take]
  exact Nat.min_le_left _ _

theorem start_le (h : w.times.Pairwise (· ≤ ·)) {t : Int} (ht : t ∈ w.times) : w.start ≤ t := by
  obtain rfl | ht := List.mem_cons.mp ht
  · exact Int.le_refl _
  · exact (List.pairwise_cons.mp h).1 t ht

/-- **At most `2 * L` events pass in an interval of the length `W`**: it meets at most two windows. -/
theorem countP_passed_le (hsep : Separated W ws) (hsorted : (ws.flatMap Window.times).Pairwise (· ≤ ·))
    (hb : b ≤ a + W) : (ws.flatMap (Window.verdicts L)).countP (passedIn a b) ≤ 2 * L := by
  induction ws with
  | nil => exact Nat.zero_le _
  | cons w ws ih =>
      rw [Separated, List.pairwise_cons] at hsep
      rw [List.flatMap_cons, List.pairwise_append] at hsorted
      rw [List.flatMap_cons, List.countP_append]
      by_cases hmeet : ∃ t ∈ w.times, a ≤ t
      · obtain ⟨t, ht, hat⟩ := hmeet
        have hfirst := countP_verdicts_le (L := L) a b w
        cases ws with
        | nil =>
            rw [List.flatMap_nil, List.countP_nil]
            omega
        | cons w' ws =>
            rw [List.pairwise_cons] at hsep
            have hsecond := countP_verdicts_le (L := L) a b w'
            -- the windows after the next one start behind the interval
            have hstart' : t ≤ w'.start := hsorted.2.2 t ht w'.start (by simp [Window.times])
            have hrest : (ws.flatMap (Window.verdicts L)).countP (passedIn a b) = 0 := by
              rw [List.countP_eq_zero]
              intro e he hpass
              obtain ⟨w'', hw'', he⟩ := List.mem_flatMap.mp he
              have hsorted'' := (List.pairwise_flatMap.mp hsorted.2.1).1 w'' (List.mem_cons_of_mem _ hw'')
              have hle := start_le hsorted'' (mem_times_of_verdicts he)
              have hgap := hsep.2.1 w'' hw''
              simp only [passedIn, Bool.and_eq_true, decide_eq_true_eq] at hpass
              omega
            rw [List.flatMap_cons, List.countP_append, hrest]
            omega
      · have hnone : (w.verdicts L).countP (passedIn a b) = 0 := by
          rw [List.countP_eq_zero]
          intro e he hpass
          simp only [passedIn, Bool.and_eq_true, decide_eq_true_eq] at hpass
          exact hmeet ⟨e.1, mem_times_of_verdicts he, hpass.1.1⟩
        rw [hnone, Nat.zero_add]
        exact ih hsep.2 hsorted.2.1

end FixedWindow
