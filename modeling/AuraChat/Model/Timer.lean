import Mathlib.Tactic.Common

set_option autoImplicit false

/-!
# Timers

`timer.h`. The callback of a timer is a value of a type `φ`: what it does is up to whoever calls
`checkTimer`. The clock is `GetTick`, in milliseconds; it is read by the caller.

The calls that are made on a timer, from outside or from inside the callbacks, are the steps of a machine
(`TimerRun.step`).
-/

namespace AuraChat

/-- `TimerNodeBase`: what names a timer. -/
structure TimerNodeBase where
  expire : Int
  id : Int
  deriving DecidableEq, Repr

/-- The order of `timermap_`. -/
def TimerNodeBase.before (a b : TimerNodeBase) : Bool :=
  if a.expire ≠ b.expire then a.expire < b.expire else a.id < b.id

structure TimerNode (φ : Type) extends TimerNodeBase where
  func : φ
  deriving DecidableEq, Repr

/-- `timermap_`, in its order, and `gid`. -/
structure Timer (φ : Type) where
  gid : Int := 0
  timermap : List (TimerNode φ) := []
  deriving DecidableEq, Repr

namespace Timer

variable {φ : Type}

/-- `std::set::insert`: a node that is equivalent to one of the set is not added. -/
def setInsert (n : TimerNode φ) : List (TimerNode φ) → List (TimerNode φ)
  | [] => [n]
  | m :: ms =>
      if n.before m.toTimerNodeBase then n :: m :: ms
      else if m.before n.toTimerNodeBase then m :: setInsert n ms
      else m :: ms

/-- `Timer::AddTimer` at the time `now`. -/
def addTimer (t : Timer φ) (now msec : Int) (func : φ) : Timer φ × TimerNodeBase :=
  let node : TimerNode φ := ⟨⟨now + msec, t.gid + 1⟩, func⟩
  (⟨t.gid + 1, setInsert node t.timermap⟩, node.toTimerNodeBase)

/-- `Timer::DelTimer`: the node with this handle, of which a set has at most one, is erased. -/
def delTimer (t : Timer φ) (node : TimerNodeBase) : Timer φ × Bool :=
  ({ t with timermap := t.timermap.filter fun n => n.toTimerNodeBase ≠ node },
    t.timermap.any fun n => n.toTimerNodeBase = node)

/-- `Timer::CheckTimer` at the time `now`, up to the call of the callback: the first timer, if it is
due. -/
def checkTimer (t : Timer φ) (now : Int) : Option (TimerNode φ × Timer φ) :=
  match t.timermap with
  | [] => none
  | n :: ns => if n.expire ≤ now then some (n, { t with timermap := ns }) else none

/-- `Timer::TimeToSleep` at the time `now`. The cast to `int` keeps the value modulo `2 ^ 32`. -/
def timeToSleep (t : Timer φ) (now : Int) : Int32 :=
  match t.timermap with
  | [] => -1
  | n :: _ => if 0 < n.expire - now then Int32.ofInt (n.expire - now) else 0

end Timer

/-! ## Calls -/

/-- A call on a timer, with what it reads from `GetTick`, or the return of the callback that `CheckTimer`
called last. -/
inductive TimerMove (φ : Type)
  | addTimer (now msec : Int) (func : φ)
  | delTimer (node : TimerNodeBase)
  | checkTimer (now : Int)
  | callbackReturns
  deriving DecidableEq, Repr

inductive TimerEvent (φ : Type)
  | added (node : TimerNode φ)
  | deleted (node : TimerNodeBase) (ok : Bool)
  | fired (node : TimerNode φ) (now : Int)
  deriving DecidableEq, Repr

/-- A timer, the last value of `GetTick`, the callbacks that have not returned, the innermost first, and the
calls so far. -/
structure TimerRun (φ : Type) where
  timer : Timer φ := {}
  now : Int := 0
  callbacks : List (TimerNode φ) := []
  log : List (TimerEvent φ) := []
  deriving DecidableEq, Repr

/-- One call, or one return. The clock does not go back. Between a call of a callback and its return the
calls are those of the callback; an empty `func` returns at once. -/
def TimerRun.step {φ : Type} : TimerMove φ → TimerRun φ → Option (TimerRun φ)
  | .addTimer now msec func, r =>
      if now < r.now then none
      else
        let (timer, node) := r.timer.addTimer now msec func
        some { r with timer := timer, now := now, log := r.log ++ [.added ⟨node, func⟩] }
  | .delTimer node, r =>
      let (timer, ok) := r.timer.delTimer node
      some { r with timer := timer, log := r.log ++ [.deleted node ok] }
  | .checkTimer now, r =>
      if now < r.now then none
      else
        match r.timer.checkTimer now with
        | none => some { r with now := now }
        | some (node, timer) =>
            some
              { timer := timer
                now := now
                callbacks := node :: r.callbacks
                log := r.log ++ [.fired node now] }
  | .callbackReturns, r =>
      match r.callbacks with
      | [] => none
      | _ :: outer => some { r with callbacks := outer }

end AuraChat
