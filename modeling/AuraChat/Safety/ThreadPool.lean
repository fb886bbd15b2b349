import AuraChat.Lib.Settle
import AuraChat.Lib.WorkQueue
import AuraChat.Model.ThreadPool
import AuraChat.Server.Moves

set_option autoImplicit false

/-!
# Every task is started once, and none is slept through

* `Change`, `change_of_step`: what a step of the pool does;
* `Sound`, `sound_of_run`: the invariant; a thread sleeps only while there are as many others in front of
  the condition as there are tasks;
* **`pool_settles`**: what is left when nothing comes from outside;
* `PoolBook`, **`same_queue`**: the pool of the server model and the pool of `thread_pool.h` are the same work
  queue.
-/

namespace AuraChat

namespace Pool

open Interleave ThreadPool

variable {τ : Type} {n : ℕ} {p p' : ThreadPool τ} {l : Label τ} {C : Label τ → ThreadPool τ → Prop}

/-! ## Steps -/

theorem Spot.isAsleep_iff {x : Spot τ} : x.isAsleep = true ↔ x = .asleep := by
  cases x <;> simp [isAsleep]

theorem Spot.isLeft_iff {x : Spot τ} : x.isLeft = true ↔ x = .left := by
  cases x <;> simp [isLeft]

variable (n) in
inductive Change (p : ThreadPool τ) : Label τ → ThreadPool τ → Prop
  | refuse (t : τ) (woken : Option ℕ) (hfull : 200000 < p.tasks.length) : Change p (.enqueue t woken) p
  | push (t : τ) (hs : ¬ p.Sleepy n) (hroom : p.tasks.length ≤ 200000) :
      Change p (.enqueue t none) (p.push n t)
  | rouse (t : τ) (i : ℕ) (hi : i < n) (hs : p.threads i = .asleep) (hroom : p.tasks.length ≤ 200000) :
      Change p (.enqueue t (some i)) ((p.push n t).setThread i .looking)
  | take (i : ℕ) (t : τ) (rest : List τ) (hi : i < n) (hl : p.threads i = .looking)
      (ht : p.tasks = t :: rest) : Change p (.look i) (p.take i t rest)
  | leave (i : ℕ) (hi : i < n) (hl : p.threads i = .looking) (ht : p.tasks = []) (hs : p.stop = true) :
      Change p (.look i) (p.setThread i .left)
  | sleep (i : ℕ) (hi : i < n) (hl : p.threads i = .looking) (ht : p.tasks = []) (hs : p.stop = false) :
      Change p (.look i) (p.setThread i .asleep)
  | wakeUp (i : ℕ) (hi : i < n) (hs : p.threads i = .asleep) :
      Change p (.wakeUp i) (p.setThread i .looking)
  | finish (i : ℕ) (t : τ) (ht : p.threads i = .running t) : Change p (.finish i) (p.setThread i .looking)
  | stop (hd : p.dtor = .none) : Change p .stop { p with stop := true, dtor := .stopped }
  | notifyAll (hd : p.dtor = .stopped) :
      Change p .notifyAll { p with threads := fun i => (p.threads i).wake, dtor := .notified }
  | join (hd : p.dtor = .notified) (hl : p.AllLeft n) : Change p .join { p with dtor := .returned }

theorem change_of_step (h : ThreadPool.step n l p = some p') : Change n p l p' := by
  cases l with
  | enqueue t woken =>
      simp only [ThreadPool.step] at h
      by_cases hd : p.dtor = .returned
      case pos => rw [if_pos hd] at h; cases h
      rw [if_neg hd] at h
      by_cases hfull : 200000 < p.tasks.length
      · rw [if_pos hfull] at h
        obtain rfl := Option.some.inj h
        exact .refuse t woken hfull
      rw [if_neg hfull] at h
      cases woken with
      | none =>
          dsimp only at h
          split_ifs at h with hs
          obtain rfl := Option.some.inj h
          exact .push t hs (Nat.not_lt.mp hfull)
      | some i =>
          dsimp only at h
          split_ifs at h with hs
          obtain rfl := Option.some.inj h
          exact .rouse t i hs.1 (Spot.isAsleep_iff.mp hs.2) (Nat.not_lt.mp hfull)
  | look i =>
      rw [ThreadPool.step] at h
      split at h
      case h_1 hl =>
        by_cases hi : i < n
        case neg => rw [if_neg hi] at h; cases h
        rw [if_pos hi] at h
        split at h
        case h_1 t rest ht =>
          obtain rfl := Option.some.inj h
          exact .take i t rest hi hl ht
        case h_2 ht =>
          split_ifs at h with hs
          · obtain rfl := Option.some.inj h
            exact .leave i hi hl ht hs
          · obtain rfl := Option.some.inj h
            exact .sleep i hi hl ht (Bool.eq_false_iff.mpr hs)
      all_goals cases h
  | wakeUp i =>
      rw [ThreadPool.step] at h
      split_ifs at h with hs
      obtain rfl := Option.some.inj h
      exact .wakeUp i hs.1 (Spot.isAsleep_iff.mp hs.2)
  | finish i =>
      rw [ThreadPool.step] at h
      split at h
      case h_1 t ht =>
        obtain rfl := Option.some.inj h
        exact .finish i t ht
      all_goals cases h
  | stop =>
      rw [ThreadPool.step] at h
      split_ifs at h with hd
      obtain rfl := Option.some.inj h
      exact .stop hd
  | notifyAll =>
      rw [ThreadPool.step] at h
      split_ifs at h with hd
      obtain rfl := Option.some.inj h
      exact .notifyAll hd
  | join =>
      rw [ThreadPool.step] at h
      split_ifs at h with hd
      obtain rfl := Option.some.inj h
      exact .join hd.1 hd.2

/-! ## The invariant -/

/-- One for a thread in front of the condition. -/
def Spot.looks : Spot τ → ℕ
  | looking => 1
  | asleep | running _ | left => 0

variable (n) in
/-- The threads in front of the condition. -/
def lookers (p : ThreadPool τ) : ℕ := ∑ i ∈ Finset.range n, (p.threads i).looks

theorem lookers_setThread {i : ℕ} (hi : i < n) (x : Spot τ) (p : ThreadPool τ) :
    lookers n (p.setThread i x) + (p.threads i).looks = lookers n p + x.looks :=
  sum_update hi p.threads Spot.looks x

variable (n) in
structure Sound (p : ThreadPool τ) : Prop where
  order : p.accepted = p.started ++ p.tasks
  room : p.tasks.length ≤ 200001
  /-- A thread sleeps only while the others see to the tasks. -/
  roused : p.Sleepy n → p.tasks.length ≤ lookers n p
  stopped : p.dtor ≠ .none ↔ p.stop = true
  awake : p.dtor = .notified ∨ p.dtor = .returned → ¬ p.Sleepy n
  left : ∀ i < n, p.threads i = .left → p.stop = true
  running : ∀ i t, p.threads i = .running t → i < n
  late : p.late ≠ [] → p.AllLeft n
  rest : p.AllLeft n → p.tasks = p.late
  joined : p.dtor = .returned → p.AllLeft n

theorem sound_init : Sound n ({} : ThreadPool τ) where
  order := rfl
  room := Nat.zero_le _
  roused _ := Nat.zero_le _
  stopped := by simp
  awake h := by simp at h
  left i _ h := by cases h
  running i t h := by cases h
  late h := absurd rfl h
  rest _ := rfl
  joined h := by cases h

theorem Sound.not_allLeft {i : ℕ} (hi : i < n) (hx : p.threads i ≠ .left) : ¬ p.AllLeft n :=
  fun h => hx (Spot.isLeft_iff.mp (h i hi))

theorem setThread_of_ne {i j : ℕ} (h : j ≠ i) (x : Spot τ) : (p.setThread i x).threads j = p.threads j := by
  simp [setThread, h]

@[simp] theorem setThread_self (i : ℕ) (x : Spot τ) : (p.setThread i x).threads i = x := by
  simp [setThread]

theorem allLeft_setThread {i : ℕ} (hi : i < n) {x : Spot τ} (h : (p.setThread i x).AllLeft n) : x = .left := by
  have hx := Spot.isLeft_iff.mp (h i hi)
  rwa [setThread_self] at hx

theorem sleepy_setThread {i : ℕ} {x : Spot τ} (hx : x ≠ .asleep) (h : (p.setThread i x).Sleepy n) :
    p.Sleepy n := by
  obtain ⟨j, hj, hs⟩ := h
  have hji : j ≠ i := by
    rintro rfl
    rw [setThread_self] at hs
    exact hx (Spot.isAsleep_iff.mp hs)
  exact ⟨j, hj, setThread_of_ne hji x ▸ hs⟩

theorem running_setThread (h : Sound n p) {i : ℕ} (hi : i < n) (x : Spot τ) :
    ∀ j t, (p.setThread i x).threads j = .running t → j < n := by
  intro j t hj
  by_cases e : j = i
  · exact e ▸ hi
  · rw [setThread_of_ne e] at hj
    exact h.running j t hj

theorem left_setThread (h : Sound n p) {i : ℕ} {x : Spot τ} (hx : x ≠ .left) :
    ∀ j < n, (p.setThread i x).threads j = .left → p.stop = true := by
  intro j hj hl
  have e : j ≠ i := by
    rintro rfl
    rw [setThread_self] at hl
    exact hx hl
  rw [setThread_of_ne e] at hl
  exact h.left j hj hl

theorem Sound.look (h : Sound n p) {i : ℕ} (hi : i < n) (hx : p.threads i ≠ .left) :
    Sound n (p.setThread i .looking) where
  order := h.order
  room := h.room
  roused hs := by
    have hlook := lookers_setThread hi .looking p
    have hle := h.roused (sleepy_setThread (by simp) hs)
    have hone : (p.threads i).looks ≤ 1 := by cases p.threads i <;> simp [Spot.looks]
    have hself : (Spot.looking : Spot τ).looks = 1 := rfl
    show p.tasks.length ≤ _
    omega
  stopped := h.stopped
  awake hd hs := h.awake hd (sleepy_setThread (by simp) hs)
  left := left_setThread h (by simp)
  running := running_setThread h hi _
  late hl := absurd (h.late hl) (Sound.not_allLeft hi hx)
  rest hall := by cases allLeft_setThread hi hall
  joined hd := absurd (h.joined hd) (Sound.not_allLeft hi hx)

theorem push_late (hs : p.AllLeft n → p.tasks = p.late) (t : τ) :
    (p.AllLeft n → (p.push n t).tasks = (p.push n t).late) ∧
      ((p.push n t).late ≠ [] → p.late ≠ [] ∨ p.AllLeft n) := by
  by_cases hall : p.AllLeft n
  · refine ⟨fun _ => ?_, fun _ => .inr hall⟩
    simp only [push, if_pos hall, hs hall]
  · refine ⟨fun h => absurd h hall, fun h => .inl ?_⟩
    simpa only [push, if_neg hall] using h

theorem sound_push (h : Sound n p) (t : τ) (hroom : p.tasks.length ≤ 200000)
    (hroused : p.Sleepy n → p.tasks.length + 1 ≤ lookers n p) : Sound n (p.push n t) where
  order := by
    show p.accepted ++ [t] = p.started ++ (p.tasks ++ [t])
    rw [h.order, List.append_assoc]
  room := by
    show (p.tasks ++ [t]).length ≤ _
    rw [List.length_append, List.length_singleton]
    exact Nat.succ_le_succ hroom
  roused hs := by
    show (p.tasks ++ [t]).length ≤ _
    rw [List.length_append, List.length_singleton]
    exact hroused hs
  stopped := h.stopped
  awake := h.awake
  left := h.left
  running := h.running
  late hl := ((push_late h.rest t).2 hl).elim h.late id
  rest := (push_late h.rest t).1
  joined := h.joined

/-- The thread that is woken up for a task makes up for it. -/
theorem sound_rouse (h : Sound n p) (t : τ) {i : ℕ} (hi : i < n) (hs : p.threads i = .asleep)
    (hroom : p.tasks.length ≤ 200000) : Sound n ((p.push n t).setThread i .looking) := by
  have hnl : p.threads i ≠ .left := by simp [hs]
  have hlook := h.look hi hnl
  have hroused : (p.setThread i .looking).Sleepy n →
      p.tasks.length + 1 ≤ lookers n (p.setThread i .looking) := by
    intro hsleepy
    have hlookers := lookers_setThread hi .looking p
    have hle := h.roused ⟨i, hi, by rw [hs]; rfl⟩
    have hzero : (p.threads i).looks = 0 := by rw [hs]; rfl
    have hone : (Spot.looking : Spot τ).looks = 1 := rfl
    omega
  have hpush := sound_push hlook t hroom hroused
  have hall : ¬ p.AllLeft n := Sound.not_allLeft hi hnl
  have hall' : ¬ (p.setThread i .looking).AllLeft n := fun h' => by cases allLeft_setThread hi h'
  have heq : (p.push n t).setThread i .looking = (p.setThread i .looking).push n t := by
    rw [push, push, if_neg hall, if_neg hall']
    rfl
  exact heq ▸ hpush

theorem sound_take (h : Sound n p) {i : ℕ} (hi : i < n) (hl : p.threads i = .looking) {t : τ} {rest : List τ}
    (ht : p.tasks = t :: rest) : Sound n (p.take i t rest) where
  order := by
    show p.accepted = (p.started ++ [t]) ++ rest
    rw [h.order, ht, List.append_assoc]
    rfl
  room := by
    have := h.room
    rw [ht, List.length_cons] at this
    exact Nat.le_of_succ_le this
  roused hs := by
    have hlookers := lookers_setThread hi (.running t) p
    have hle := h.roused (sleepy_setThread (x := .running t) (by simp) hs)
    have hone : (p.threads i).looks = 1 := by rw [hl]; rfl
    have hzero : (Spot.running t).looks = 0 := rfl
    rw [ht, List.length_cons] at hle
    show rest.length ≤ lookers n (p.setThread i (.running t))
    omega
  stopped := h.stopped
  awake hd hs := h.awake hd (sleepy_setThread (x := .running t) (by simp) hs)
  left := left_setThread h (x := .running t) (by simp)
  running := running_setThread h hi (.running t)
  late hlate := absurd (h.late hlate) (Sound.not_allLeft hi (by simp [hl]))
  rest hall := by cases allLeft_setThread (x := .running t) hi hall
  joined hd := absurd (h.joined hd) (Sound.not_allLeft hi (by simp [hl]))

theorem sound_leave (h : Sound n p) {i : ℕ} (hi : i < n) (hl : p.threads i = .looking) (ht : p.tasks = [])
    (hs : p.stop = true) : Sound n (p.setThread i .left) where
  order := h.order
  room := h.room
  roused _ := by
    show p.tasks.length ≤ _
    rw [ht]
    exact Nat.zero_le _
  stopped := h.stopped
  awake hd hsleepy := h.awake hd (sleepy_setThread (by simp) hsleepy)
  left _ _ _ := hs
  running := running_setThread h hi _
  late hlate := absurd (h.late hlate) (Sound.not_allLeft hi (by simp [hl]))
  rest _ := by
    show p.tasks = p.late
    rw [ht]
    by_contra hlate
    exact Sound.not_allLeft hi (by simp [hl]) (h.late (Ne.symm hlate))
  joined hd := absurd (h.joined hd) (Sound.not_allLeft hi (by simp [hl]))

theorem sound_sleep (h : Sound n p) {i : ℕ} (hi : i < n) (hl : p.threads i = .looking) (ht : p.tasks = [])
    (hs : p.stop = false) : Sound n (p.setThread i .asleep) where
  order := h.order
  room := h.room
  roused _ := by
    show p.tasks.length ≤ _
    rw [ht]
    exact Nat.zero_le _
  stopped := h.stopped
  awake hd _ := by
    have hstop : p.stop = true := h.stopped.mp fun e => by rcases hd with hd | hd <;> cases e.symm.trans hd
    rw [hs] at hstop
    cases hstop
  left := left_setThread h (by simp)
  running := running_setThread h hi _
  late hlate := absurd (h.late hlate) (Sound.not_allLeft hi (by simp [hl]))
  rest hall := by cases allLeft_setThread hi hall
  joined hd := absurd (h.joined hd) (Sound.not_allLeft hi (by simp [hl]))

theorem wake_not_asleep (x : Spot τ) : x.wake.isAsleep = false := by
  cases x <;> rfl

theorem wake_eq_iff {x y : Spot τ} (hy : y ≠ .looking) (hy' : y ≠ .asleep) : x.wake = y ↔ x = y := by
  cases x <;> simp [Spot.wake, hy.symm, hy'.symm]

theorem allLeft_wake : (∀ i < n, (p.threads i).wake.isLeft = true) ↔ p.AllLeft n :=
  forall₂_congr fun i _ => by rw [Spot.isLeft_iff, Spot.isLeft_iff, wake_eq_iff (by simp) (by simp)]

theorem sound_notifyAll (h : Sound n p) (hd : p.dtor = .stopped) :
    Sound n { p with threads := fun i => (p.threads i).wake, dtor := .notified } where
  order := h.order
  room := h.room
  roused := by
    rintro ⟨i, -, hs⟩
    rw [wake_not_asleep] at hs
    cases hs
  stopped := by simpa [hd] using h.stopped
  awake := by
    rintro - ⟨i, -, hs⟩
    rw [wake_not_asleep] at hs
    cases hs
  left i hi hl := h.left i hi ((wake_eq_iff (by simp) (by simp)).mp hl)
  running i t ht := h.running i t ((wake_eq_iff (by simp) (by simp)).mp ht)
  late hl := allLeft_wake.mpr (h.late hl)
  rest hall := h.rest (allLeft_wake.mp hall)
  joined hr := by cases hr

theorem sound_step (h : Sound n p) (hc : Change n p l p') : Sound n p' := by
  cases hc with
  | refuse => exact h
  | push t hs hroom => exact sound_push h t hroom fun hsleepy => absurd hsleepy hs
  | rouse t i hi hs hroom => exact sound_rouse h t hi hs hroom
  | take i t rest hi hl ht => exact sound_take h hi hl ht
  | leave i hi hl ht hs => exact sound_leave h hi hl ht hs
  | sleep i hi hl ht hs => exact sound_sleep h hi hl ht hs
  | wakeUp i hi hs => exact h.look hi (by simp [hs])
  | finish i t ht => exact h.look (h.running i t ht) (by simp [ht])
  | stop hd =>
      exact { h with
        stopped := by simp
        awake := by simp
        left := fun _ _ _ => rfl
        joined := by simp }
  | notifyAll hd => exact sound_notifyAll h hd
  | join hd hl =>
      exact { h with
        stopped := by simpa [hd] using h.stopped
        awake := fun _ => h.awake (.inl hd)
        joined := fun _ => hl }

theorem sound_of_run (h : Reach (ThreadPool.step n) C ({} : ThreadPool τ) p) : Sound n p :=
  h.invariant (Sound n) sound_init fun _ _ _ _ hp hs => sound_step hp (change_of_step hs)

/-! ## The end -/

/-- The steps that wait for nothing from outside: tasks return, and the destructor goes on once it has set
`stop_`. -/
def Label.Inside : Label τ → Prop
  | look _ | finish _ | notifyAll | join => True
  | enqueue _ _ | wakeUp _ | stop => False

/-- The steps that a thread takes before it sleeps or leaves. -/
def Spot.weight : Spot τ → ℕ
  | looking => 1
  | running _ => 2
  | asleep | left => 0

variable (n) in
def Dtor.weight : Dtor → ℕ
  | stopped => n + 2
  | notified => 1
  | none | returned => 0

variable (n) in
/-- The steps that are left. -/
def measure (p : ThreadPool τ) : ℕ :=
  3 * p.tasks.length + ∑ i ∈ Finset.range n, (p.threads i).weight + p.dtor.weight n

theorem weight_setThread {i : ℕ} (hi : i < n) (x : Spot τ) (p : ThreadPool τ) :
    ∑ j ∈ Finset.range n, ((p.setThread i x).threads j).weight + (p.threads i).weight =
      ∑ j ∈ Finset.range n, (p.threads j).weight + x.weight :=
  sum_update hi p.threads Spot.weight x

theorem weight_lt {i : ℕ} (hi : i < n) {x : Spot τ} (hx : x.weight < (p.threads i).weight) :
    ∑ j ∈ Finset.range n, ((p.setThread i x).threads j).weight <
      ∑ j ∈ Finset.range n, (p.threads j).weight := by
  have hw := weight_setThread hi x p
  omega

theorem weight_wake (p : ThreadPool τ) :
    ∑ j ∈ Finset.range n, (p.threads j).wake.weight ≤ ∑ j ∈ Finset.range n, (p.threads j).weight + n := by
  have hone : ∀ j ∈ Finset.range n, (p.threads j).wake.weight ≤ (p.threads j).weight + 1 := by
    intro j _
    cases p.threads j <;> simp [Spot.wake, Spot.weight]
  refine (Finset.sum_le_sum hone).trans (Nat.le_of_eq ?_)
  rw [Finset.sum_add_distrib, Finset.sum_const, Finset.card_range, smul_eq_mul, mul_one]

theorem measure_step (h : Sound n p) (hl : l.Inside) (hc : Change n p l p') : measure n p' < measure n p := by
  cases hc with
  | refuse | push | rouse | wakeUp | stop => cases hl
  | take i t rest hi hlook ht =>
      have hw := weight_setThread hi (.running t) p
      have hone : (p.threads i).weight = 1 := by rw [hlook]; rfl
      have htwo : (Spot.running t).weight = 2 := rfl
      have hlen : p.tasks.length = rest.length + 1 := by rw [ht]; rfl
      show 3 * rest.length + ∑ j ∈ Finset.range n, ((p.setThread i (.running t)).threads j).weight +
        p.dtor.weight n < 3 * p.tasks.length + ∑ j ∈ Finset.range n, (p.threads j).weight + p.dtor.weight n
      omega
  | leave i hi hlook _ _ =>
      have hlt : (Spot.left : Spot τ).weight < (p.threads i).weight := by rw [hlook]; exact Nat.one_pos
      exact Nat.add_lt_add_right (Nat.add_lt_add_left (weight_lt hi hlt) _) _
  | sleep i hi hlook _ _ =>
      have hlt : (Spot.asleep : Spot τ).weight < (p.threads i).weight := by rw [hlook]; exact Nat.one_pos
      exact Nat.add_lt_add_right (Nat.add_lt_add_left (weight_lt hi hlt) _) _
  | finish i t ht =>
      have hlt : (Spot.looking : Spot τ).weight < (p.threads i).weight := by rw [ht]; exact Nat.one_lt_two
      exact Nat.add_lt_add_right (Nat.add_lt_add_left (weight_lt (h.running i t ht) hlt) _) _
  | notifyAll hd =>
      have hw := weight_wake (n := n) p
      have hstopped : p.dtor.weight n = n + 2 := by rw [hd]; rfl
      have hnotified : Dtor.weight n .notified = 1 := rfl
      show 3 * p.tasks.length + ∑ j ∈ Finset.range n, (p.threads j).wake.weight + Dtor.weight n .notified <
        3 * p.tasks.length + ∑ j ∈ Finset.range n, (p.threads j).weight + p.dtor.weight n
      omega
  | join hd hl =>
      have hnotified : p.dtor.weight n = 1 := by rw [hd]; rfl
      have hreturned : Dtor.weight n .returned = 0 := rfl
      show 3 * p.tasks.length + ∑ j ∈ Finset.range n, (p.threads j).weight + Dtor.weight n .returned <
        3 * p.tasks.length + ∑ j ∈ Finset.range n, (p.threads j).weight + p.dtor.weight n
      omega

/-- In a pool that has settled, the threads sleep or have left. -/
theorem settled_threads (hs : Settled (ThreadPool.step n) (fun l _ => l.Inside) p) {i : ℕ} (hi : i < n) :
    p.threads i = .asleep ∨ p.threads i = .left := by
  cases hx : p.threads i with
  | asleep => exact .inl rfl
  | left => exact .inr rfl
  | running t =>
      have := hs (.finish i) trivial
      simp [ThreadPool.step, hx] at this
  | looking =>
      have := hs (.look i) trivial
      simp only [ThreadPool.step, hx, if_pos hi] at this
      cases ht : p.tasks with
      | nil =>
          rw [ht] at this
          by_cases hstop : p.stop = true <;> simp [hstop] at this
      | cons t rest =>
          rw [ht] at this
          cases this

theorem settled_end (h : Sound n p) (hs : Settled (ThreadPool.step n) (fun l _ => l.Inside) p) :
    p.dtor = .none ∧ (∀ i < n, p.threads i = .asleep) ∨ p.dtor = .returned ∧ p.AllLeft n := by
  have hthreads : ∀ i < n, p.threads i = .asleep ∨ p.threads i = .left := fun i => settled_threads hs
  cases hd : p.dtor with
  | none =>
      refine .inl ⟨rfl, fun i hi => (hthreads i hi).resolve_right fun hl => ?_⟩
      exact h.stopped.mpr (h.left i hi hl) hd
  | stopped =>
      have := hs .notifyAll trivial
      simp [ThreadPool.step, hd] at this
  | notified =>
      have hall : p.AllLeft n := by
        intro i hi
        refine Spot.isLeft_iff.mpr ((hthreads i hi).resolve_left fun ha => ?_)
        exact h.awake (.inl hd) ⟨i, hi, Spot.isAsleep_iff.mpr ha⟩
      have := hs .join trivial
      simp [ThreadPool.step, hd, hall] at this
  | returned => exact .inr ⟨rfl, h.joined hd⟩

/-- **No task is lost, and none is slept through.** In every run of the pool, a thread sleeps only while as
many threads look for tasks as there are tasks. Without new tasks its threads cannot go on for ever, however
they take turns. Where they stop, no task is running; if the destructor has not been entered, all threads
sleep and every accepted task has been run; if it has, it has returned, and every accepted task has been run
but those that were accepted when the last thread had left. -/
theorem pool_settles (h : Reach (ThreadPool.step n) C ({} : ThreadPool τ) p) :
    (p.Sleepy n → p.tasks.length ≤ lookers n p) ∧
      Acc (Succ (ThreadPool.step n) fun l _ => l.Inside) p ∧
      ∀ p', Reach (ThreadPool.step n) (fun l _ => l.Inside) p p' →
        Settled (ThreadPool.step n) (fun l _ => l.Inside) p' →
        (∀ i t, p'.threads i ≠ .running t) ∧
        (p'.dtor = .none ∧ (∀ i < n, p'.threads i = .asleep) ∧ (0 < n → p'.accepted = p'.started) ∨
          p'.dtor = .returned ∧ p'.AllLeft n ∧ p'.accepted = p'.started ++ p'.late) := by
  have hsound := sound_of_run h
  refine ⟨hsound.roused, ?_, fun p' hr hs => ?_⟩
  · refine acc_of_measure Nat.lt_wfRel.wf (measure n) (Sound n) (fun l p p' hp hl hs => ?_) hsound
    have hc := change_of_step hs
    exact ⟨sound_step hp hc, measure_step hp hl hc⟩
  · have hsound' : Sound n p' :=
      hr.invariant (Sound n) hsound fun _ _ _ _ hp hs => sound_step hp (change_of_step hs)
    refine ⟨fun i t ht => ?_, ?_⟩
    · rcases settled_threads hs (hsound'.running i t ht) with e | e <;> cases ht.symm.trans e
    rcases settled_end hsound' hs with ⟨hd, hall⟩ | ⟨hd, hall⟩
    · refine .inl ⟨hd, hall, fun hn => ?_⟩
      -- the first thread sleeps, and no other one is awake
      have hle := hsound'.roused ⟨0, hn, Spot.isAsleep_iff.mpr (hall 0 hn)⟩
      have hzero : lookers n p' = 0 := by
        refine Finset.sum_eq_zero fun i hi => ?_
        rw [hall i (Finset.mem_range.mp hi)]
        rfl
      have htasks : p'.tasks = [] := List.eq_nil_of_length_eq_zero (by omega)
      rw [hsound'.order, htasks, List.append_nil]
    · exact .inr ⟨hd, hall, by rw [hsound'.order, hsound'.rest hall]⟩

/-- Two threads and two tasks, and the destructor has been entered. -/
theorem pool_settles_sample : ∃ p : ThreadPool ℕ, Reach (ThreadPool.step 2) (fun _ _ => True) {} p ∧
    p.dtor = .stopped ∧ p.tasks = [8] ∧ Acc (Succ (ThreadPool.step 2) fun l _ => l.Inside) p := by
  have hrun : ∃ p : ThreadPool ℕ, Reach (ThreadPool.step 2) (fun _ _ => True) {} p ∧
      p.dtor = .stopped ∧ p.tasks = [8] :=
    exists_reach [.look 0, .enqueue 7 (some 0), .look 0, .enqueue 8 none, .stop] (by decide)
  obtain ⟨p, hr, hd, ht⟩ := hrun
  exact ⟨p, hr, hd, ht, (pool_settles hr).2.1⟩

/-! ## One queue in two models -/

/-- The task of a thread. -/
def Spot.task : Spot τ → Option τ
  | running t => some t
  | looking | asleep | left => none

theorem task_setThread (i : ℕ) (x : Spot τ) (p : ThreadPool τ) :
    (fun j => ((p.setThread i x).threads j).task) =
      Function.update (fun j => (p.threads j).task) i x.task := by
  funext j
  by_cases e : j = i
  · subst e
    rw [setThread_self, Function.update_self]
  · rw [setThread_of_ne e, Function.update_of_ne e]

/-- What the pool is a work queue with. -/
def queueOf (p : ThreadPool τ) : WorkQueue.Queue τ :=
  ⟨p.tasks, fun i => (p.threads i).task, p.accepted, p.started⟩

theorem queueOf_setThread {i : ℕ} {x : Spot τ} (hi : (p.threads i).task = none) (hx : x.task = none) :
    queueOf (p.setThread i x) = queueOf p := by
  have htask : (fun j => ((p.setThread i x).threads j).task) = fun j => (p.threads j).task := by
    rw [task_setThread, hx, ← hi]
    exact Function.update_eq_self i _
  unfold queueOf
  rw [htask]
  rfl

abbrev QueueTo (n : ℕ) (q q' : WorkQueue.Queue τ) : Prop :=
  Reach (WorkQueue.step n) (fun _ _ => True) q q'

/-- A step of the pool is a step of the work queue, or none. -/
theorem queue_change (hc : Change n p l p') : QueueTo n (queueOf p) (queueOf p') := by
  cases hc with
  | refuse => exact .refl
  | push t => exact .tail (l := .accept t) .refl trivial rfl
  | rouse t i hi hs hroom =>
      rw [queueOf_setThread (p := p.push n t) (show (p.threads i).task = none by rw [hs]; rfl) rfl]
      exact .tail (l := .accept t) .refl trivial rfl
  | take i t rest hi hl ht =>
      have hnone : (p.threads i).task = none := by rw [hl]; rfl
      refine .tail (l := .start i) .refl trivial ((WorkQueue.step_start hnone ht hi).trans ?_)
      unfold queueOf take
      rw [task_setThread]
      rfl
  | leave i hi hl ht hs => rw [queueOf_setThread (by rw [hl]; rfl) rfl]; exact .refl
  | sleep i hi hl ht hs => rw [queueOf_setThread (by rw [hl]; rfl) rfl]; exact .refl
  | wakeUp i hi hs => rw [queueOf_setThread (by rw [hs]; rfl) rfl]; exact .refl
  | finish i t ht =>
      have hsome : (p.threads i).task = some t := by rw [ht]; rfl
      refine .tail (l := .finish i) .refl trivial ((WorkQueue.step_finish hsome).trans ?_)
      unfold queueOf
      rw [task_setThread]
      rfl
  | stop => exact .refl
  | notifyAll hd =>
      have hwake : (fun i => (p.threads i).wake.task) = fun i => (p.threads i).task := by
        funext i
        cases p.threads i <;> rfl
      unfold queueOf
      rw [hwake]
      exact .refl
  | join => exact .refl

theorem queue_of_pool (h : Reach (ThreadPool.step n) C ({} : ThreadPool τ) p) : QueueTo n {} (queueOf p) :=
  h.map queueOf fun _ _ _ _ hs => queue_change (change_of_step hs)

end Pool

section Server

open Interleave

variable {P : Params} {db : Store} {C : Label → State → Prop} {s s' : State} {l : Label}

/-- The task that a step puts into the queue, which refuses it when it is full. -/
def State.accepted (s : State) (l : Label) : Option Task :=
  if 200000 < s.tasks.length then none else s.offers l

/-- The task that a step takes out of the queue. -/
def State.taken (s : State) : Label → Option Task
  | .dequeue _ _ => s.tasks.head?
  | _ => none

/-- The server, with the tasks that its pool has accepted and those that its threads have taken, in the order
of the steps. -/
structure PoolBook where
  server : State
  accepted : List Task := []
  started : List Task := []

namespace PoolBook

def step (P : Params) (l : Label) (b : PoolBook) : Option PoolBook :=
  (AuraChat.step P l b.server).map fun s =>
    ⟨s, b.accepted ++ (b.server.accepted l).toList, b.started ++ (b.server.taken l).toList⟩

abbrev RunTo (P : Params) (db : Store) (b : PoolBook) : Prop :=
  Reach (step P) (fun _ _ => True) { server := State.init P db } b

/-- What the server is a work queue with. -/
def queue (b : PoolBook) : WorkQueue.Queue Task :=
  ⟨b.server.tasks, fun i => (b.server.threads i).map (·.task), b.accepted, b.started⟩

end PoolBook

theorem running_update (f : ℕ → Option Thread) (i : ℕ) (t : Option Thread) :
    (fun j => (Function.update f i t j).map (·.task)) =
      Function.update (fun j => (f j).map (·.task)) i (t.map (·.task)) := by
  funext j
  by_cases e : j = i
  · subst e
    rw [Function.update_self, Function.update_self]
  · rw [Function.update_of_ne e, Function.update_of_ne e]

theorem tasks_offer (hs : step P l s = some s') (h : (∃ c hdr body, l = .read c hdr body) ∨ l = .dispatch) :
    s'.tasks = s.tasks ++ (s.accepted l).toList ∧ s'.threads = s.threads := by
  rcases h with ⟨c, hdr, body, rfl⟩ | rfl
  all_goals
    simp only [step] at hs
    split at hs
    · cases hs
  · split_ifs at hs
    obtain rfl := Option.some.inj hs
    rename_i d hd _
    simp only [State.enqueue, State.accepted, State.offers, hd]
    split_ifs
    · exact ⟨(List.append_nil _).symm, rfl⟩
    · exact ⟨rfl, rfl⟩
  · obtain rfl := Option.some.inj hs
    rename_i req hh
    simp only [State.enqueue, State.accepted, State.offers, hh]
    split_ifs
    · exact ⟨(List.append_nil _).symm, rfl⟩
    · exact ⟨rfl, rfl⟩

theorem queue_offer {b b' : PoolBook} (hl : b.server.taken l = none)
    (h : b'.server.tasks = b.server.tasks ++ (b.server.accepted l).toList ∧ b'.server.threads = b.server.threads)
    (hb : b'.accepted = b.accepted ++ (b.server.accepted l).toList ∧
      b'.started = b.started ++ (b.server.taken l).toList) : Pool.QueueTo P.poolThreads b.queue b'.queue := by
  obtain ⟨s', accepted', started'⟩ := b'
  obtain ⟨htasks, hthreads⟩ := h
  obtain ⟨rfl, rfl⟩ := hb
  unfold PoolBook.queue
  dsimp only at htasks hthreads ⊢
  rw [htasks, hthreads, hl, Option.toList_none, List.append_nil]
  cases b.server.accepted l with
  | none =>
      rw [Option.toList_none, List.append_nil, List.append_nil]
      exact .refl
  | some t => exact .tail (l := .accept t) .refl trivial rfl

/-- **A step of the server is a step of the work queue, or none.** -/
theorem queue_step (hwf : s.net.WF P) {accepted started : List Task} (hs : step P l s = some s') :
    Pool.QueueTo P.poolThreads (PoolBook.queue ⟨s, accepted, started⟩)
      (PoolBook.queue ⟨s', accepted ++ (s.accepted l).toList, started ++ (s.taken l).toList⟩) := by
  -- a step that offers no task, and takes none
  have quiet : ∀ {l : Label}, s.offers l = none → s.taken l = none → s'.tasks = s.tasks →
      (fun i => (s'.threads i).map (·.task)) = (fun i => (s.threads i).map (·.task)) →
      Pool.QueueTo P.poolThreads (PoolBook.queue ⟨s, accepted, started⟩)
        (PoolBook.queue ⟨s', accepted ++ (s.accepted l).toList, started ++ (s.taken l).toList⟩) := by
    intro l hoffer htaken htasks hthreads
    have haccepted : s.accepted l = none := by
      rw [State.accepted, hoffer]
      split_ifs <;> rfl
    rw [haccepted, htaken, Option.toList_none, List.append_nil, List.append_nil]
    unfold PoolBook.queue
    dsimp only
    rw [htasks, hthreads]
    exact .refl
  have hm := move_of_step hwf hs
  cases hm with
  | read c d hdr body =>
      exact queue_offer rfl (tasks_offer hs (.inl ⟨c, hdr, body, rfl⟩)) ⟨rfl, rfl⟩
  | dispatch req => exact queue_offer rfl (tasks_offer hs (.inr rfl)) ⟨rfl, rfl⟩
  | dequeue i script t rest hlt hi ht =>
      have hnone : (s.threads i).map (·.task) = none := by rw [hi]; rfl
      have haccepted : s.accepted (.dequeue i script) = none := by
        rw [State.accepted]
        split_ifs <;> rfl
      refine .tail (l := .start i) .refl trivial ((WorkQueue.step_start hnone ht hlt).trans ?_)
      unfold PoolBook.queue
      rw [running_update, haccepted, State.taken, ht, Option.toList_none, List.append_nil]
      rfl
  | finish i e t hi hp =>
      have hsome : (s.threads i).map (·.task) = some t.task := by rw [hi]; rfl
      have haccepted : s.accepted (.thread i e) = none := by
        rw [State.accepted]
        split_ifs <;> rfl
      have htaken : s.taken (.thread i e) = none := rfl
      refine .tail (l := .finish i) .refl trivial ((WorkQueue.step_finish hsome).trans ?_)
      unfold PoolBook.queue
      rw [running_update, haccepted, htaken, Option.toList_none, List.append_nil, List.append_nil]
      rfl
  | call i e t a k r s₁ hi hp ha =>
      obtain ⟨hthreads, htasks, -⟩ := effect_threads (act_effect ha)
      refine quiet rfl rfl htasks ?_
      rw [running_update, hthreads]
      refine Function.update_eq_self_iff.mpr ?_
      rw [hi]
      rfl
  | _ => exact quiet rfl rfl rfl rfl

theorem server_of_book {b : PoolBook} (h : PoolBook.RunTo P db b) : RunTo P db (fun _ _ => True) b.server := by
  refine h.map PoolBook.server fun l b b' _ hs => ?_
  obtain ⟨s', hs', rfl⟩ := Option.map_eq_some_iff.mp hs
  exact .tail .refl trivial hs'

theorem queue_of_book {b : PoolBook} (h : PoolBook.RunTo P db b) : Pool.QueueTo P.poolThreads {} b.queue := by
  refine h.invariant_reach (fun b => Pool.QueueTo P.poolThreads {} b.queue) .refl fun l b b' hr _ hb hs => ?_
  obtain ⟨s', hs', rfl⟩ := Option.map_eq_some_iff.mp hs
  exact hb.trans (queue_step (wf_of_run (server_of_book hr)) hs')

/-- Every run of the server can be booked. -/
theorem exists_book (h : RunTo P db C s) : ∃ b, PoolBook.RunTo P db b ∧ b.server = s :=
  h.invariant (fun s => ∃ b, PoolBook.RunTo P db b ∧ b.server = s) ⟨_, .refl, rfl⟩ fun l s s' _ hb hs => by
    obtain ⟨b, hr, rfl⟩ := hb
    exact ⟨_, hr.tail (l := l) trivial (by rw [PoolBook.step, hs]; rfl), rfl⟩

/-- **The queue of the server model is the queue of the pool.** What the server does with tasks in any run,
and what `thread_pool.h` does with its lock, its condition variable and its sleeping threads in any run, are
runs of the same work queue: the tasks that wait, those that the threads are at work on, and the histories of
the tasks accepted and of the tasks started are those of the work queue. So in both the tasks are started in
the order in which they were accepted, each of them once. -/
theorem same_queue (P : Params) :
    (∀ (db : Store) (C : Label → State → Prop) (s : State), RunTo P db C s →
      ∃ b, PoolBook.RunTo P db b ∧ b.server = s) ∧
    (∀ (db : Store) (b : PoolBook), PoolBook.RunTo P db b →
      Pool.QueueTo P.poolThreads {} b.queue ∧ b.accepted = b.started ++ b.server.tasks) ∧
    ∀ (C : Pool.Label Task → Pool.ThreadPool Task → Prop) (p : Pool.ThreadPool Task),
      Reach (Pool.ThreadPool.step P.poolThreads) C {} p →
      Pool.QueueTo P.poolThreads {} (Pool.queueOf p) ∧ p.accepted = p.started ++ p.tasks := by
  refine ⟨fun db C s h => exists_book h, fun db b h => ?_, fun C p h => ?_⟩
  · exact ⟨queue_of_book h, WorkQueue.inOrder (queue_of_book h)⟩
  · exact ⟨Pool.queue_of_pool h, WorkQueue.inOrder (Pool.queue_of_pool h)⟩

end Server

end AuraChat
