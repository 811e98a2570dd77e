import Mathlib.Logic.Function.Basic
import Hpblr.Lib.CondVar
import Hpblr.Lib.Transition

/-!
# The blocking queue and its threads

`BlockingQueue` as the code has it, run by any number of threads. A critical section is one step;
`close` sets the flag in one step and notifies in two more. A thread that waits on a condition
variable is asleep there until it is woken, and then runs its critical section again.

The state also keeps the history of the queue: which values were accepted, from which thread and in
which order, and which values were handed out.
-/

namespace Hpblr

variable {τ α : Type*} [DecidableEq τ]

/-- `BlockingQueue`. -/
structure BlockingQueue (τ α : Type*) where
  capacity : ℕ
  capacity_pos : 0 < capacity
  queue : List α := []
  closed : Bool := false
  notEmpty : CondVar τ := {}
  notFull : CondVar τ := {}

/-- What a call of a queue operation returns. -/
inductive QueueResult (α : Type*) where
  /-- `push` and `try_push`. -/
  | pushed (accepted : Bool)
  /-- `pop`: the value it handed out, or nothing for `false`. -/
  | popped (value : Option α)
  /-- `close`. -/
  | closed
  deriving DecidableEq

/-- Where a thread stands. In `push` and `pop` it is before its next critical section, or asleep. -/
inductive Activity (α : Type*) where
  | outside
  | push (value : α)
  | tryPush (value : α)
  | pop
  | close
  | notifyNotEmpty
  | notifyNotFull
  | returned (result : QueueResult α)
  deriving DecidableEq

/-- The thread is inside a call. -/
def Activity.InCall : Activity α → Prop
  | .outside | .returned _ => False
  | _ => True

instance (a : Activity α) : Decidable a.InCall := by
  cases a <;> unfold Activity.InCall <;> infer_instance

/-- The calls a thread can make. -/
inductive QueueCall (α : Type*) where
  | push (value : α)
  | tryPush (value : α)
  | pop
  | close
  deriving DecidableEq

/-- Where a call begins. -/
def QueueCall.entry : QueueCall α → Activity α
  | .push value => .push value
  | .tryPush value => .tryPush value
  | .pop => .pop
  | .close => .close

/-! ## The critical sections -/

namespace BlockingQueue

/-- The constructor: a capacity of zero counts as one. -/
def new (capacity : ℕ) : BlockingQueue τ α where
  capacity := if capacity = 0 then 1 else capacity
  capacity_pos := by
    by_cases hzero : capacity = 0
    · simp [hzero]
    · simpa [hzero] using Nat.pos_of_ne_zero hzero

/-- The critical section of `push`, from the entry or from the return of the wait: where the thread
stands afterwards, and the queue. -/
def push (q : BlockingQueue τ α) (t : τ) (value : α) (notified : Option τ) :
    Option (Activity α × BlockingQueue τ α) :=
  if t ∈ q.notFull.sleeping then none
  else
    let q := { q with notFull := q.notFull.resume t }
    if ¬ (q.closed ∨ q.queue.length < q.capacity) then
      some (.push value, { q with notFull := q.notFull.wait t })
    else if q.closed then
      some (.returned (.pushed false), q)
    else
      (q.notEmpty.notifyOne notified).map (fun notEmpty =>
        (.returned (.pushed true), { q with queue := q.queue ++ [value], notEmpty := notEmpty }))

/-- The critical section of `try_push`. -/
def tryPush (q : BlockingQueue τ α) (value : α) (notified : Option τ) :
    Option (Activity α × BlockingQueue τ α) :=
  if q.closed ∨ q.queue.length ≥ q.capacity then
    some (.returned (.pushed false), q)
  else
    (q.notEmpty.notifyOne notified).map (fun notEmpty =>
      (.returned (.pushed true), { q with queue := q.queue ++ [value], notEmpty := notEmpty }))

/-- The critical section of `pop`. -/
def pop (q : BlockingQueue τ α) (t : τ) (notified : Option τ) :
    Option (Activity α × BlockingQueue τ α) :=
  if t ∈ q.notEmpty.sleeping then none
  else
    let q := { q with notEmpty := q.notEmpty.resume t }
    if ¬ (q.closed ∨ q.queue ≠ []) then
      some (.pop, { q with notEmpty := q.notEmpty.wait t })
    else
      match q.queue with
      | [] => some (.returned (.popped none), q)
      | value :: queue =>
        (q.notFull.notifyOne notified).map (fun notFull =>
          (.returned (.popped (some value)), { q with queue := queue, notFull := notFull }))

/-- The critical section of `close`; the notifications follow as steps of their own. -/
def close (q : BlockingQueue τ α) : BlockingQueue τ α := { q with closed := true }

/-- A wake-up without a notification. A thread sleeps on one condition variable at most. -/
def wakeSpuriously (q : BlockingQueue τ α) (t : τ) : Option (BlockingQueue τ α) :=
  if t ∈ q.notFull.sleeping then some { q with notFull := q.notFull.wake t }
  else if t ∈ q.notEmpty.sleeping then some { q with notEmpty := q.notEmpty.wake t }
  else none

end BlockingQueue

/-! ## The queue with its threads -/

/-- The queue, where each thread stands, and the history. -/
structure QueueState (τ α : Type*) extends BlockingQueue τ α where
  activity : τ → Activity α
  /-- The values whose `push` or `try_push` returned true, with their threads, in the order in
  which the queue took them in. -/
  accepted : List (τ × α) := []
  /-- The values that `pop` handed out, in this order. -/
  handed : List α := []
  /-- Whether a call of `close` has returned. -/
  closeReturned : Bool := false

/-- What the threads do: call an operation, run the next step of the call, or wake up. A step that
notifies one thread names the sleeper it wakes. -/
inductive QueueLabel (τ α : Type*) where
  | call (t : τ) (c : QueueCall α)
  | run (t : τ) (notified : Option τ)
  | wake (t : τ)
  deriving DecidableEq

namespace QueueState

/-- A new queue that no thread has called. -/
def new (capacity : ℕ) : QueueState τ α :=
  { BlockingQueue.new capacity with activity := fun _ => .outside }

/-- The next step of a thread inside a call. -/
def runThread (s : QueueState τ α) (t : τ) (notified : Option τ) : Option (QueueState τ α) :=
  let at_ (a : Activity α) := Function.update s.activity t a
  match s.activity t with
  | .outside | .returned _ => none
  | .push value => do
    let (a, q) ← s.toBlockingQueue.push t value notified
    let accepted := match a with
      | .returned (.pushed true) => s.accepted ++ [(t, value)]
      | _ => s.accepted
    some { s with toBlockingQueue := q, activity := at_ a, accepted := accepted }
  | .tryPush value => do
    let (a, q) ← s.toBlockingQueue.tryPush value notified
    let accepted := match a with
      | .returned (.pushed true) => s.accepted ++ [(t, value)]
      | _ => s.accepted
    some { s with toBlockingQueue := q, activity := at_ a, accepted := accepted }
  | .pop => do
    let (a, q) ← s.toBlockingQueue.pop t notified
    let handed := match a with
      | .returned (.popped (some value)) => s.handed ++ [value]
      | _ => s.handed
    some { s with toBlockingQueue := q, activity := at_ a, handed := handed }
  | .close =>
    some { s with toBlockingQueue := s.toBlockingQueue.close, activity := at_ .notifyNotEmpty }
  | .notifyNotEmpty =>
    some { s with notEmpty := s.notEmpty.notifyAll, activity := at_ .notifyNotFull }
  | .notifyNotFull =>
    some { s with
      notFull := s.notFull.notifyAll, activity := at_ (.returned .closed), closeReturned := true }

/-- One step of the system; `none` when the label is not enabled. -/
def step (s : QueueState τ α) : QueueLabel τ α → Option (QueueState τ α)
  | .call t c =>
    if (s.activity t).InCall then none
    else some { s with activity := Function.update s.activity t c.entry }
  | .run t notified => s.runThread t notified
  | .wake t => do
    let q ← s.toBlockingQueue.wakeSpuriously t
    some { s with toBlockingQueue := q }

end QueueState

/-! ## What a step can do -/

/-- The steps of the system, one constructor for each way through a critical section. -/
inductive QueueMove (s : QueueState τ α) : QueueLabel τ α → QueueState τ α → Prop
  | call {t : τ} {c : QueueCall α} (houtside : ¬ (s.activity t).InCall) :
      QueueMove s (.call t c) { s with activity := Function.update s.activity t c.entry }
  | wakeNotFull {t : τ} (hasleep : t ∈ s.notFull.sleeping) :
      QueueMove s (.wake t) { s with notFull := s.notFull.wake t }
  | wakeNotEmpty {t : τ} (hasleep : t ∈ s.notEmpty.sleeping) :
      QueueMove s (.wake t) { s with notEmpty := s.notEmpty.wake t }
  | pushWaits {t : τ} {value : α} {n : Option τ} (hactivity : s.activity t = .push value)
      (hawake : t ∉ s.notFull.sleeping) (hopen : s.closed = false)
      (hfull : s.capacity ≤ s.queue.length) :
      QueueMove s (.run t n) { s with notFull := (s.notFull.resume t).wait t }
  | pushRefused {t : τ} {value : α} {n : Option τ} (hactivity : s.activity t = .push value)
      (hawake : t ∉ s.notFull.sleeping) (hclosed : s.closed = true) :
      QueueMove s (.run t n) { s with
        notFull := s.notFull.resume t
        activity := Function.update s.activity t (.returned (.pushed false)) }
  | pushed {t : τ} {value : α} {n : Option τ} {notEmpty : CondVar τ}
      (hactivity : s.activity t = .push value) (hawake : t ∉ s.notFull.sleeping)
      (hopen : s.closed = false) (hroom : s.queue.length < s.capacity)
      (hnotify : s.notEmpty.notifyOne n = some notEmpty) :
      QueueMove s (.run t n) { s with
        queue := s.queue ++ [value]
        notEmpty := notEmpty
        notFull := s.notFull.resume t
        activity := Function.update s.activity t (.returned (.pushed true))
        accepted := s.accepted ++ [(t, value)] }
  | tryPushRefused {t : τ} {value : α} {n : Option τ} (hactivity : s.activity t = .tryPush value)
      (hrefused : s.closed = true ∨ s.capacity ≤ s.queue.length) :
      QueueMove s (.run t n) { s with
        activity := Function.update s.activity t (.returned (.pushed false)) }
  | tryPushed {t : τ} {value : α} {n : Option τ} {notEmpty : CondVar τ}
      (hactivity : s.activity t = .tryPush value) (hopen : s.closed = false)
      (hroom : s.queue.length < s.capacity)
      (hnotify : s.notEmpty.notifyOne n = some notEmpty) :
      QueueMove s (.run t n) { s with
        queue := s.queue ++ [value]
        notEmpty := notEmpty
        activity := Function.update s.activity t (.returned (.pushed true))
        accepted := s.accepted ++ [(t, value)] }
  | popWaits {t : τ} {n : Option τ} (hactivity : s.activity t = .pop)
      (hawake : t ∉ s.notEmpty.sleeping) (hopen : s.closed = false) (hempty : s.queue = []) :
      QueueMove s (.run t n) { s with notEmpty := (s.notEmpty.resume t).wait t }
  | popDrained {t : τ} {n : Option τ} (hactivity : s.activity t = .pop)
      (hawake : t ∉ s.notEmpty.sleeping) (hclosed : s.closed = true) (hempty : s.queue = []) :
      QueueMove s (.run t n) { s with
        notEmpty := s.notEmpty.resume t
        activity := Function.update s.activity t (.returned (.popped none)) }
  | popped {t : τ} {value : α} {queue : List α} {n : Option τ} {notFull : CondVar τ}
      (hactivity : s.activity t = .pop) (hawake : t ∉ s.notEmpty.sleeping)
      (hqueue : s.queue = value :: queue) (hnotify : s.notFull.notifyOne n = some notFull) :
      QueueMove s (.run t n) { s with
        queue := queue
        notEmpty := s.notEmpty.resume t
        notFull := notFull
        activity := Function.update s.activity t (.returned (.popped (some value)))
        handed := s.handed ++ [value] }
  | closes {t : τ} {n : Option τ} (hactivity : s.activity t = .close) :
      QueueMove s (.run t n) { s with
        closed := true
        activity := Function.update s.activity t .notifyNotEmpty }
  | notifiesNotEmpty {t : τ} {n : Option τ} (hactivity : s.activity t = .notifyNotEmpty) :
      QueueMove s (.run t n) { s with
        notEmpty := s.notEmpty.notifyAll
        activity := Function.update s.activity t .notifyNotFull }
  | notifiesNotFull {t : τ} {n : Option τ} (hactivity : s.activity t = .notifyNotFull) :
      QueueMove s (.run t n) { s with
        notFull := s.notFull.notifyAll
        activity := Function.update s.activity t (.returned .closed)
        closeReturned := true }

namespace QueueState

/-- Every step of a thread inside a call is one of these moves. -/
private theorem runThread_move {s s' : QueueState τ α} {t : τ} {n : Option τ}
    (h : s.runThread t n = some s') : QueueMove s (.run t n) s' := by
  unfold runThread at h
  cases hactivity : s.activity t with
  | outside => simp [hactivity] at h
  | returned result => simp [hactivity] at h
  | push value =>
    simp only [hactivity, BlockingQueue.push] at h
    by_cases hasleep : t ∈ s.notFull.sleeping
    · simp [hasleep] at h
    · rw [if_neg hasleep] at h
      by_cases hready : s.closed = true ∨ s.queue.length < s.capacity
      · rw [if_neg (not_not.mpr hready)] at h
        by_cases hclosed : s.closed = true
        · rw [if_pos hclosed] at h
          cases h
          exact .pushRefused hactivity hasleep hclosed
        · rw [if_neg hclosed] at h
          have hopen : s.closed = false := by simpa using hclosed
          cases hnotify : s.notEmpty.notifyOne n with
          | none => simp [hnotify] at h
          | some notEmpty =>
            rw [hnotify] at h
            cases h
            exact .pushed hactivity hasleep hopen (hready.resolve_left hclosed) hnotify
      · rw [if_pos hready] at h
        obtain ⟨hopen, hfull⟩ := not_or.mp hready
        cases h
        rw [Function.update_eq_self_iff.mpr hactivity.symm]
        exact .pushWaits hactivity hasleep (by simpa using hopen) (Nat.not_lt.mp hfull)
  | tryPush value =>
    simp only [hactivity, BlockingQueue.tryPush] at h
    by_cases hrefused : s.closed = true ∨ s.queue.length ≥ s.capacity
    · rw [if_pos hrefused] at h
      cases h
      exact .tryPushRefused hactivity hrefused
    · rw [if_neg hrefused] at h
      obtain ⟨hopen, hroom⟩ := not_or.mp hrefused
      cases hnotify : s.notEmpty.notifyOne n with
      | none => simp [hnotify] at h
      | some notEmpty =>
        rw [hnotify] at h
        cases h
        exact .tryPushed hactivity (by simpa using hopen) (Nat.not_le.mp hroom) hnotify
  | pop =>
    simp only [hactivity, BlockingQueue.pop] at h
    by_cases hasleep : t ∈ s.notEmpty.sleeping
    · simp [hasleep] at h
    · rw [if_neg hasleep] at h
      by_cases hready : s.closed = true ∨ s.queue ≠ []
      · rw [if_neg (not_not.mpr hready)] at h
        split at h
        · rename_i hqueue
          cases h
          exact .popDrained hactivity hasleep (hready.resolve_right (not_not.mpr hqueue)) hqueue
        · rename_i value queue hqueue
          cases hnotify : s.notFull.notifyOne n with
          | none => simp [hnotify] at h
          | some notFull =>
            rw [hnotify] at h
            cases h
            exact .popped hactivity hasleep hqueue hnotify
      · rw [if_pos hready] at h
        obtain ⟨hopen, hempty⟩ := not_or.mp hready
        cases h
        rw [Function.update_eq_self_iff.mpr hactivity.symm]
        exact .popWaits hactivity hasleep (by simpa using hopen) (not_not.mp hempty)
  | close =>
    simp only [hactivity] at h
    cases h
    exact .closes hactivity
  | notifyNotEmpty =>
    simp only [hactivity] at h
    cases h
    exact .notifiesNotEmpty hactivity
  | notifyNotFull =>
    simp only [hactivity] at h
    cases h
    exact .notifiesNotFull hactivity

/-- Every step is one of the moves. -/
theorem step_move {s s' : QueueState τ α} {l : QueueLabel τ α} (h : s.step l = some s') :
    QueueMove s l s' := by
  cases l with
  | call t c =>
    by_cases hin : (s.activity t).InCall
    · simp [step, hin] at h
    · simp [step, hin] at h
      subst h
      exact .call hin
  | run t n => exact runThread_move h
  | wake t =>
    unfold step BlockingQueue.wakeSpuriously at h
    by_cases hfull : t ∈ s.notFull.sleeping
    · simp [hfull] at h
      subst h
      exact .wakeNotFull hfull
    · by_cases hempty : t ∈ s.notEmpty.sleeping
      · simp [hfull, hempty] at h
        subst h
        exact .wakeNotEmpty hempty
      · simp [hfull, hempty] at h

end QueueState

end Hpblr
