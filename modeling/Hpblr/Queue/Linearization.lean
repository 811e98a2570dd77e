import Hpblr.Lib.Linearization
import Hpblr.Queue.Channel

/-!
# The queue is linearizable

The atomic channel accepts, refuses and hands out in one instant. Every interleaving of `push`,
`try_push`, `pop` and `close`, with their waits, wake-ups and notifications, looks to its threads like
operations of the atomic channel that take effect one after the other, each between its call and its
return.
-/

namespace Hpblr

open Linearization

variable {τ α : Type*} [DecidableEq τ]

/-! ## The atomic channel -/

/-- The state of the atomic channel. -/
structure AtomicChannel (α : Type*) where
  queue : List α
  closed : Bool

/-- The operations of the atomic channel and their results. -/
inductive AtomicChannel.Step (capacity : ℕ) :
    AtomicObject (AtomicChannel α) (QueueCall α) (QueueResult α)
  /-- `push` waits until there is room. -/
  | pushed {queue : List α} {value : α} (hroom : queue.length < capacity) :
      Step capacity ⟨queue, false⟩ (.push value) (.pushed true) ⟨queue ++ [value], false⟩
  /-- It returns false only on a closed channel. -/
  | pushRefused {queue : List α} {value : α} :
      Step capacity ⟨queue, true⟩ (.push value) (.pushed false) ⟨queue, true⟩
  | tryPushed {queue : List α} {value : α} (hroom : queue.length < capacity) :
      Step capacity ⟨queue, false⟩ (.tryPush value) (.pushed true) ⟨queue ++ [value], false⟩
  /-- `try_push` returns false exactly on a closed or full channel. -/
  | tryPushRefused {c : AtomicChannel α} {value : α}
      (hrefused : c.closed = true ∨ capacity ≤ c.queue.length) :
      Step capacity c (.tryPush value) (.pushed false) c
  | popped {queue : List α} {value : α} {closed : Bool} :
      Step capacity ⟨value :: queue, closed⟩ .pop (.popped (some value)) ⟨queue, closed⟩
  /-- `pop` returns false only on a closed and empty channel. -/
  | popDrained : Step capacity ⟨[], true⟩ .pop (.popped none) ⟨[], true⟩
  | closes {c : AtomicChannel α} : Step capacity c .close .closed ⟨c.queue, true⟩

namespace QueueState

variable {s s' : QueueState τ α} {l : QueueLabel τ α}

/-! ## What a step is for the atomic channel -/

omit [DecidableEq τ] in
/-- The state of the atomic channel. -/
def abstract (s : QueueState τ α) : AtomicChannel α := ⟨s.queue, s.closed⟩

/-- Where a thread stands at the atomic channel. `close` has taken effect before it notifies. -/
def statusOf : Activity α → Status (QueueCall α) (QueueResult α)
  | .outside | .returned _ => .idle
  | .push value => .called (.push value)
  | .tryPush value => .called (.tryPush value)
  | .pop => .called .pop
  | .close => .called .close
  | .notifyNotEmpty | .notifyNotFull => .done .closed

omit [DecidableEq τ] in
def status (s : QueueState τ α) (t : τ) : Status (QueueCall α) (QueueResult α) :=
  statusOf (s.activity t)

/-- The actions of a thread that gets from one activity to another. `push`, `try_push` and `pop` take
effect in the critical section in which they return. -/
def actsOf (t : τ) : Activity α → Activity α → List (Action τ (QueueCall α) (QueueResult α))
  | .push value, .returned r => [.effect t (.push value) r, .ret t r]
  | .tryPush value, .returned r => [.effect t (.tryPush value) r, .ret t r]
  | .pop, .returned r => [.effect t .pop r, .ret t r]
  | .close, .notifyNotEmpty => [.effect t .close .closed]
  | .notifyNotFull, .returned r => [.ret t r]
  | _, _ => []

omit [DecidableEq τ] in
/-- The actions in a step. -/
def acts (s : QueueState τ α) (l : QueueLabel τ α) (s' : QueueState τ α) :
    List (Action τ (QueueCall α) (QueueResult α)) :=
  match l with
  | .call t c => [.call t c]
  | .run t _ => actsOf t (s.activity t) (s'.activity t)
  | .wake _ => []

omit [DecidableEq τ] in
/-- What is seen of a step from outside: a call, or that a thread that runs has returned. -/
def seen (_ : QueueState τ α) (l : QueueLabel τ α) (s' : QueueState τ α) :
    List (Action τ (QueueCall α) (QueueResult α)) :=
  match l with
  | .call t c => [.call t c]
  | .run t _ =>
    match s'.activity t with
    | .returned result => [.ret t result]
    | _ => []
  | .wake _ => []

/-- The history of a run: its calls and returns, in their order. -/
def history (s : QueueState τ α) (labels : List (QueueLabel τ α)) :
    List (Action τ (QueueCall α) (QueueResult α)) :=
  Transition.observe step seen s labels

/-- The status of the threads after one of them has moved. -/
theorem status_update {f : τ → Activity α} {t : τ} {a : Activity α} :
    (fun u => statusOf (Function.update f t a u)) =
      Function.update (fun u => statusOf (f u)) t (statusOf a) := by
  funext u
  by_cases heq : u = t
  · subst heq
    rw [Function.update_self, Function.update_self]
  · rw [Function.update_of_ne heq, Function.update_of_ne heq]

/-- A critical section in which an operation takes effect and returns. -/
theorem acts_return {t : τ} {op : QueueCall α} {result : QueueResult α}
    (hcalled : s.status t = .called op)
    (hactivity : s'.activity = Function.update s.activity t (.returned result))
    (hstep : AtomicChannel.Step s.capacity s.abstract op result s'.abstract) :
    Acts (AtomicChannel.Step s.capacity) (s.status, s.abstract)
      [.effect t op result, .ret t result] (s'.status, s'.abstract) := by
  have hreturn : Act (AtomicChannel.Step s.capacity)
      (Function.update s.status t (.done result), s'.abstract) (.ret t result)
      (Function.update (Function.update s.status t (.done result)) t .idle, s'.abstract) :=
    .ret (Function.update_self ..)
  have hafter : s'.status = Function.update s.status t .idle := by
    have hidle : statusOf (.returned result : Activity α) = .idle := rfl
    unfold status
    rw [hactivity, status_update, hidle]
  rw [Function.update_idem, ← hafter] at hreturn
  exact .cons (.effect hcalled hstep) (.single hreturn)

/-- Every step consists of actions at the atomic channel. -/
theorem acts_step (h : QueueMove s l s') :
    Acts (AtomicChannel.Step s.capacity) (s.status, s.abstract) (acts s l s')
      (s'.status, s'.abstract) := by
  cases h with
  | @call t c houtside =>
    have hidle : s.status t = .idle := by
      unfold status
      cases hat : s.activity t with
      | outside => rfl
      | returned result => rfl
      | _ => exact absurd (by rw [hat]; trivial) houtside
    have hentry : statusOf c.entry = .called c := by cases c <;> rfl
    have hafter : Function.update s.status t (.called c) =
        fun u => statusOf (Function.update s.activity t c.entry u) := by
      rw [status_update, hentry]
      rfl
    have hcall : Act (AtomicChannel.Step s.capacity) (s.status, s.abstract) (.call t c)
        (Function.update s.status t (.called c), s.abstract) := .call hidle
    rw [hafter] at hcall
    exact .single hcall
  | wakeNotFull => exact .nil
  | wakeNotEmpty => exact .nil
  | pushWaits hat =>
    simp only [acts, hat, actsOf]
    exact .nil
  | popWaits hat =>
    simp only [acts, hat, actsOf]
    exact .nil
  | @pushRefused t value n hat _ hclosed =>
    have hcalled : s.status t = .called (.push value) := by rw [status, hat, statusOf]
    simp only [acts, hat, Function.update_self, actsOf]
    refine acts_return hcalled rfl ?_
    simp only [abstract, hclosed]
    exact .pushRefused
  | @pushed t value n _ hat _ hopen hroom =>
    have hcalled : s.status t = .called (.push value) := by rw [status, hat, statusOf]
    simp only [acts, hat, Function.update_self, actsOf]
    refine acts_return hcalled rfl ?_
    simp only [abstract, hopen]
    exact .pushed hroom
  | @tryPushRefused t value n hat hrefused =>
    have hcalled : s.status t = .called (.tryPush value) := by rw [status, hat, statusOf]
    simp only [acts, hat, Function.update_self, actsOf]
    exact acts_return hcalled rfl (.tryPushRefused hrefused)
  | @tryPushed t value n _ hat hopen hroom =>
    have hcalled : s.status t = .called (.tryPush value) := by rw [status, hat, statusOf]
    simp only [acts, hat, Function.update_self, actsOf]
    refine acts_return hcalled rfl ?_
    simp only [abstract, hopen]
    exact .tryPushed hroom
  | @popDrained t n hat _ hclosed hempty =>
    have hcalled : s.status t = .called .pop := by rw [status, hat, statusOf]
    simp only [acts, hat, Function.update_self, actsOf]
    refine acts_return hcalled rfl ?_
    simp only [abstract, hclosed, hempty]
    exact .popDrained
  | @popped t value queue n _ hat _ hqueue =>
    have hcalled : s.status t = .called .pop := by rw [status, hat, statusOf]
    simp only [acts, hat, Function.update_self, actsOf]
    refine acts_return hcalled rfl ?_
    simp only [abstract, hqueue]
    exact .popped
  | @closes t n hat =>
    have hcalled : s.status t = .called .close := by rw [status, hat, statusOf]
    simp only [acts, hat, Function.update_self, actsOf]
    have heffect : Act (AtomicChannel.Step s.capacity) (s.status, s.abstract)
        (.effect t .close .closed) (Function.update s.status t (.done .closed), ⟨s.queue, true⟩) :=
      .effect hcalled .closes
    refine .single ?_
    unfold status abstract
    rw [status_update]
    exact heffect
  | @notifiesNotEmpty t n hat =>
    simp only [acts, hat, Function.update_self, actsOf]
    have hsame : Function.update s.status t (statusOf .notifyNotFull) = s.status := by
      rw [Function.update_eq_self_iff, status, hat]
      rfl
    unfold status at hsame
    unfold status abstract
    rw [status_update, hsame]
    exact .nil
  | @notifiesNotFull t n hat =>
    simp only [acts, hat, Function.update_self, actsOf]
    have hdone : s.status t = .done .closed := by rw [status, hat, statusOf]
    have hreturn : Act (AtomicChannel.Step s.capacity) (s.status, s.abstract) (.ret t .closed)
        (Function.update s.status t .idle, s.abstract) := .ret hdone
    refine .single ?_
    unfold status abstract
    rw [status_update]
    exact hreturn

/-- What is visible of the actions is what is seen from outside. -/
theorem visible_acts (h : QueueMove s l s') :
    (acts s l s').filter Action.visible = seen s l s' := by
  cases h with
  | call => rfl
  | wakeNotFull => rfl
  | wakeNotEmpty => rfl
  | pushWaits hat => simp [acts, seen, hat, actsOf]
  | popWaits hat => simp [acts, seen, hat, actsOf]
  | _ hat => simp [acts, seen, hat, actsOf, Action.visible]

/-- **The queue is linearizable.** For any capacity, any threads and any interleaving of `push`,
`try_push`, `pop` and `close`, the calls and returns of a run are a history of the atomic channel of
this capacity: each operation takes effect in one instant between its call and its return, with the
result that it returns, and in the end the atomic channel holds what the queue holds. -/
theorem linearizable {capacity : ℕ} {labels : List (QueueLabel τ α)}
    (hrun : Transition.run step (QueueState.new capacity) labels = some s) :
    Linearizable (AtomicChannel.Step (max capacity 1)) ⟨[], false⟩
      (history (QueueState.new capacity) labels) ⟨s.queue, s.closed⟩ := by
  have hcapacity : (QueueState.new capacity : QueueState τ α).capacity = max capacity 1 := by
    simp only [QueueState.new, BlockingQueue.new]
    split <;> omega
  have hacts : ∀ {s s' : QueueState τ α} {l}, s.capacity = max capacity 1 → step s l = some s' →
      Acts (AtomicChannel.Step (max capacity 1)) (status s, abstract s) (acts s l s')
        (status s', abstract s') :=
    fun hsame hstep => hsame ▸ acts_step (step_move hstep)
  exact linearizable_of_run (I := fun s => s.capacity = max capacity 1)
    (fun hsame hstep => (step_move hstep).capacity_eq.trans hsame) hacts
    (fun hstep => visible_acts (step_move hstep)) hcapacity rfl hrun

/-- The producer that waits in a full queue, and the pop that makes room for it. -/
theorem linearizable_close : ∃ s,
    Transition.run step (QueueState.new 0) fillAndClose = some s ∧
    Linearizable (AtomicChannel.Step 1) ⟨[], false⟩ (history (QueueState.new 0) fillAndClose)
      ⟨[8], true⟩ := by
  have hrun : ∃ s, Transition.run step (QueueState.new 0) fillAndClose = some s ∧
      s.queue = [8] ∧ s.closed = true := ⟨_, rfl, rfl, rfl⟩
  obtain ⟨s, hrun, hqueue, hclosed⟩ := hrun
  have hlinearizable := linearizable hrun
  rw [hqueue, hclosed] at hlinearizable
  exact ⟨s, hrun, hlinearizable⟩

end QueueState

end Hpblr
