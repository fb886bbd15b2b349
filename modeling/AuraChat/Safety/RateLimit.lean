import AuraChat.Lib.FixedWindow
import AuraChat.Model.Net
import Mathlib.Algebra.Ring.Int.Defs
import Mathlib.Algebra.Ring.Nat

set_option autoImplicit false

/-!
# The rate limit

The limiter of `process_business` counts the chat packets of a connection, also those that it rejects, and
starts again with the first packet more than a window after the one it started with.

* `rateRun`: the packets of a connection, one after another;
* `rateRun_windows`: they fall into windows, from each of which the first ones pass;
* **`rate_limited`**.
-/

namespace AuraChat

open FixedWindow

variable {cfg : Config} {c : ClientContext}

/-- The context after chat packets at these times. -/
def rateCtx (cfg : Config) (c : ClientContext) (times : List Int) : ClientContext :=
  times.foldl (fun c now => (c.rateTick cfg now).1) c

/-- The chat packets at these times, and whether they pass the limiter. -/
def rateRun (cfg : Config) : ClientContext → List Int → List (Int × Bool)
  | _, [] => []
  | c, now :: times => (now, !(c.rateTick cfg now).2) :: rateRun cfg (c.rateTick cfg now).1 times

/-! ## One packet -/

theorem rateTick_start {now : Int}
    (h : c.rateWindowStart = 0 ∨ cfg.rateLimitWindow < now - c.rateWindowStart) :
    (c.rateTick cfg now).1.rateWindowStart = now ∧ (c.rateTick cfg now).1.rateMsgCount = 1 ∧
      (c.rateTick cfg now).2 = decide (cfg.rateLimitMsgs < 1) := by
  rw [ClientContext.rateTick, if_pos h]
  exact ⟨rfl, rfl, rfl⟩

theorem rateTick_count {now : Int}
    (h : ¬ (c.rateWindowStart = 0 ∨ cfg.rateLimitWindow < now - c.rateWindowStart)) :
    (c.rateTick cfg now).1.rateWindowStart = c.rateWindowStart ∧
      (c.rateTick cfg now).1.rateMsgCount = c.rateMsgCount + 1 ∧
      (c.rateTick cfg now).2 = decide (cfg.rateLimitMsgs < c.rateMsgCount + 1) := by
  rw [ClientContext.rateTick, if_neg h]
  exact ⟨rfl, rfl, rfl⟩

/-- The number of packets that pass in a window. -/
def limit (cfg : Config) : ℕ := cfg.rateLimitMsgs.toNat

theorem passFirst_limit (hL : 0 ≤ cfg.rateLimitMsgs) (n : ℕ) (now : Int) (times : List Int) :
    passFirst (limit cfg - n) (now :: times) =
      (now, !decide (cfg.rateLimitMsgs < (n : Int) + 1)) :: passFirst (limit cfg - (n + 1)) times := by
  have hcast : (limit cfg : Int) = cfg.rateLimitMsgs := Int.toNat_of_nonneg hL
  by_cases h : n < limit cfg
  · rw [passFirst_cons_pos (by omega), Nat.sub_sub, decide_eq_false (by omega)]
    rfl
  · rw [Nat.sub_eq_zero_of_le (by omega), Nat.sub_eq_zero_of_le (by omega), decide_eq_true (by omega)]
    rfl

theorem passFirst_start (hL : 0 ≤ cfg.rateLimitMsgs) (now : Int) (times : List Int) :
    passFirst (limit cfg) (now :: times) =
      (now, !decide (cfg.rateLimitMsgs < 1)) :: passFirst (limit cfg - 1) times := by
  simpa using passFirst_limit hL 0 now times

/-! ## Windows -/

/-- In a window, `n` packets of which have come: those that follow belong to it, or to later windows. -/
theorem rateRun_windows (hL : 0 ≤ cfg.rateLimitMsgs) (hW : 0 ≤ cfg.rateLimitWindow) (times : List Int)
    (hpos : ∀ t ∈ times, 1 ≤ t) (n : ℕ) (hstart : c.rateWindowStart ≠ 0) (hcount : c.rateMsgCount = n) :
    ∃ later ws, times = later ++ ws.flatMap Window.times ∧
      rateRun cfg c times = passFirst (limit cfg - n) later ++ ws.flatMap (Window.verdicts (limit cfg)) ∧
      Separated cfg.rateLimitWindow (⟨c.rateWindowStart, later⟩ :: ws) ∧
      (∀ t ∈ later, t - c.rateWindowStart ≤ cfg.rateLimitWindow) ∧
      ∀ w ∈ ws, ∀ t ∈ w.later, t - w.start ≤ cfg.rateLimitWindow := by
  induction times generalizing c n with
  | nil => exact ⟨[], [], rfl, by simp [rateRun, passFirst], List.pairwise_singleton _ _, by simp, by simp⟩
  | cons now times ih =>
      obtain ⟨hnow, htimes⟩ := List.forall_mem_cons.mp hpos
      by_cases hnew : c.rateWindowStart = 0 ∨ cfg.rateLimitWindow < now - c.rateWindowStart
      · obtain ⟨hs, hc, hv⟩ := rateTick_start hnew
        obtain ⟨later, ws, rfl, hrun, hsep, hlater, hws⟩ := ih htimes 1 (by rw [hs]; omega) hc
        have hgap := hnew.resolve_left hstart
        rw [hs] at hsep hlater
        refine ⟨[], ⟨now, later⟩ :: ws, rfl, ?_, ?_, by simp, List.forall_mem_cons.mpr ⟨hlater, hws⟩⟩
        · have hnone : passFirst (limit cfg - n) [] = [] := by simp [passFirst]
          rw [rateRun, hrun, hv, List.flatMap_cons, Window.verdicts, Window.times, passFirst_start hL, hnone]
          rfl
        · refine List.pairwise_cons.mpr ⟨List.forall_mem_cons.mpr ⟨hgap, fun w hw => ?_⟩, hsep⟩
          have := (List.pairwise_cons.mp hsep).1 w hw
          dsimp only at this ⊢
          omega
      · obtain ⟨hs, hc, hv⟩ := rateTick_count hnew
        obtain ⟨later, ws, rfl, hrun, hsep, hlater, hws⟩ :=
          ih htimes (n + 1) (by rwa [hs]) (by rw [hc, hcount]; rfl)
        rw [hs] at hsep hlater
        have hsep' : Separated cfg.rateLimitWindow (⟨c.rateWindowStart, now :: later⟩ :: ws) :=
          List.pairwise_cons.mpr (List.pairwise_cons.mp hsep)
        refine ⟨now :: later, ws, rfl, ?_, hsep', List.forall_mem_cons.mpr ⟨?_, hlater⟩, hws⟩
        · rw [rateRun, hrun, hv, passFirst_limit hL, hcount]
          rfl
        · omega

/-! ## The bound -/

theorem rateMsgCount_le (h : 0 ≤ c.rateMsgCount) (times : List Int) :
    0 ≤ (rateCtx cfg c times).rateMsgCount ∧
      (rateCtx cfg c times).rateMsgCount ≤ c.rateMsgCount + times.length := by
  induction times generalizing c with
  | nil => exact ⟨h, by simp [rateCtx]⟩
  | cons now times ih =>
      have hone : 0 ≤ (c.rateTick cfg now).1.rateMsgCount ∧
          (c.rateTick cfg now).1.rateMsgCount ≤ c.rateMsgCount + 1 := by
        by_cases hnew : c.rateWindowStart = 0 ∨ cfg.rateLimitWindow < now - c.rateWindowStart
        · rw [(rateTick_start hnew).2.1]
          omega
        · rw [(rateTick_count hnew).2.1]
          omega
      obtain ⟨hnn, hle⟩ := ih hone.1
      refine ⟨hnn, ?_⟩
      have hrest : (rateCtx cfg c (now :: times)).rateMsgCount ≤
          (c.rateTick cfg now).1.rateMsgCount + times.length := hle
      rw [List.length_cons]
      omega

/-- **The rate limit.** For chat packets of one connection at times that do not decrease, fewer than `2 ^ 31`:
they fall into windows that start more than the length of a window apart; exactly the first packets of each
pass, up to the limit; so at most twice the limit pass in any interval of the length of a window. The counter
does not overflow. -/
theorem rate_limited (cfg : Config) (hL : 0 ≤ cfg.rateLimitMsgs) (hW : 0 ≤ cfg.rateLimitWindow)
    (c : ClientContext) (times : List Int) (hsorted : times.Pairwise (· ≤ ·)) (hpos : ∀ t ∈ times, 1 ≤ t)
    (hlen : times.length < 2 ^ 31) :
    (∃ ws : List Window, ws.flatMap Window.times = times ∧ Separated cfg.rateLimitWindow ws ∧
      (∀ w ∈ ws, ∀ t ∈ w.later, t - w.start ≤ cfg.rateLimitWindow) ∧
      rateRun cfg c.reset times = ws.flatMap (Window.verdicts (limit cfg))) ∧
    (∀ a, ((rateRun cfg c.reset times).countP (passedIn a (a + cfg.rateLimitWindow)) : Int) ≤
      2 * cfg.rateLimitMsgs) ∧
    ∀ before, before <+: times → (rateCtx cfg c.reset before).rateMsgCount < 2 ^ 31 := by
  have hwindows : ∃ ws : List Window, ws.flatMap Window.times = times ∧ Separated cfg.rateLimitWindow ws ∧
      (∀ w ∈ ws, ∀ t ∈ w.later, t - w.start ≤ cfg.rateLimitWindow) ∧
      rateRun cfg c.reset times = ws.flatMap (Window.verdicts (limit cfg)) := by
    cases times with
    | nil => exact ⟨[], rfl, .nil, by simp, rfl⟩
    | cons now times =>
        obtain ⟨hnow, htimes⟩ := List.forall_mem_cons.mp hpos
        obtain ⟨hs, hc, hv⟩ := @rateTick_start cfg c.reset now (.inl rfl)
        obtain ⟨later, ws, rfl, hrun, hsep, hlater, hws⟩ :=
          rateRun_windows hL hW times htimes 1 (by rw [hs]; omega) hc
        rw [hs] at hsep hlater
        refine ⟨⟨now, later⟩ :: ws, rfl, hsep, List.forall_mem_cons.mpr ⟨hlater, hws⟩, ?_⟩
        rw [rateRun, hrun, hv, List.flatMap_cons, Window.verdicts, Window.times, passFirst_start hL]
        rfl
  refine ⟨hwindows, fun a => ?_, fun before hbefore => ?_⟩
  · obtain ⟨ws, hws, hsep, -, hrun⟩ := hwindows
    rw [← hws] at hsorted
    have hle := countP_passed_le (L := limit cfg) hsep hsorted (Int.le_refl (a + cfg.rateLimitWindow))
    have hcast : (limit cfg : Int) = cfg.rateLimitMsgs := Int.toNat_of_nonneg hL
    rw [hrun]
    omega
  · have hle := (@rateMsgCount_le cfg c.reset (Int.le_refl 0) before).2
    have hshort := hbefore.length_le
    have hzero : c.reset.rateMsgCount = 0 := rfl
    omega

/-- With a limit of two in a window of one second, the third packet of a second is rejected. -/
theorem rate_limited_sample : ∃ cfg : Config,
    rateRun cfg {} [5, 5, 6, 7] = [(5, true), (5, true), (6, false), (7, true)] ∧
    ∀ a, ((rateRun cfg {} [5, 5, 6, 7]).countP (passedIn a (a + cfg.rateLimitWindow)) : Int) ≤ 4 := by
  let cfg : Config := { workerNum := 1, rateLimitMsgs := 2, rateLimitWindow := 1 }
  exact ⟨cfg, by decide, (rate_limited cfg (by decide) (by decide) {} [5, 5, 6, 7] (by decide) (by decide)
    (by decide)).2.1⟩

end AuraChat
