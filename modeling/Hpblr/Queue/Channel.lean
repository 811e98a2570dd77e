import Hpblr.Queue.BlockingQueue

/-!
# The queue as a bounded channel

What a step does to the history of the queue, one lemma for each kind of call, and the invariant of
the channel: the values handed out and the values in the queue are the accepted values in their
order, and the queue never exceeds its capacity.
-/

namespace Hpblr

variable {τ α : Type*} [DecidableEq τ] {s s' : QueueState τ α} {t : τ} {n : Option τ}

/-! ## What each kind of step changes -/

namespace QueueMove

/-- A call only moves its thread to the entry. -/
theorem of_call {c : QueueCall α} (h : QueueMove s (.call t c) s') :
    s' = { s with activity := Function.update s.activity t c.entry } ∧
      ¬ (s.activity t).InCall := by
  cases h with
  | call houtside => exact ⟨rfl, houtside⟩

/-- A wake-up changes neither the history nor where the threads stand. -/
theorem of_wake (h : QueueMove s (.wake t) s') :
    s'.activity = s.activity ∧ s'.accepted = s.accepted ∧ s'.handed = s.handed ∧
      s'.queue = s.queue ∧ s'.closed = s.closed := by
  cases h <;> exact ⟨rfl, rfl, rfl, rfl, rfl⟩

/-- A step inside `push`: the thread waits, is refused, or has its value accepted. -/
theorem of_push {value : α} (h : QueueMove s (.run t n) s')
    (hactivity : s.activity t = .push value) :
    s'.handed = s.handed ∧ s'.closed = s.closed ∧
      ((s'.activity = s.activity ∧ s'.accepted = s.accepted ∧ s'.queue = s.queue) ∨
        (s'.activity = Function.update s.activity t (.returned (.pushed false)) ∧
          s'.accepted = s.accepted ∧ s'.queue = s.queue) ∨
        (s.closed = false ∧
          s'.activity = Function.update s.activity t (.returned (.pushed true)) ∧
          s'.accepted = s.accepted ++ [(t, value)] ∧ s'.queue = s.queue ++ [value])) := by
  cases h with
  | pushWaits => exact ⟨rfl, rfl, Or.inl ⟨rfl, rfl, rfl⟩⟩
  | pushRefused => exact ⟨rfl, rfl, Or.inr (Or.inl ⟨rfl, rfl, rfl⟩)⟩
  | pushed hactivity' _ hopen =>
    rw [hactivity] at hactivity'
    cases hactivity'
    exact ⟨rfl, rfl, Or.inr (Or.inr ⟨hopen, rfl, rfl, rfl⟩)⟩
  | tryPushRefused hactivity' => simp [hactivity] at hactivity'
  | tryPushed hactivity' => simp [hactivity] at hactivity'
  | popWaits hactivity' => simp [hactivity] at hactivity'
  | popDrained hactivity' => simp [hactivity] at hactivity'
  | popped hactivity' => simp [hactivity] at hactivity'
  | closes hactivity' => simp [hactivity] at hactivity'
  | notifiesNotEmpty hactivity' => simp [hactivity] at hactivity'
  | notifiesNotFull hactivity' => simp [hactivity] at hactivity'

/-- A step inside `pop`: the thread waits, finds the queue closed and drained, or takes the value
at the front. -/
theorem of_pop (h : QueueMove s (.run t n) s') (hactivity : s.activity t = .pop) :
    s'.accepted = s.accepted ∧ s'.closed = s.closed ∧
      ((s'.activity = s.activity ∧ s'.handed = s.handed ∧ s'.queue = s.queue) ∨
        (s.closed = true ∧ s.queue = [] ∧ s'.queue = [] ∧
          s'.activity = Function.update s.activity t (.returned (.popped none)) ∧
          s'.handed = s.handed) ∨
        (∃ value, s.queue = value :: s'.queue ∧
          s'.activity = Function.update s.activity t (.returned (.popped (some value))) ∧
          s'.handed = s.handed ++ [value])) := by
  cases h with
  | popWaits => exact ⟨rfl, rfl, Or.inl ⟨rfl, rfl, rfl⟩⟩
  | popDrained _ _ hclosed hempty =>
    exact ⟨rfl, rfl, Or.inr (Or.inl ⟨hclosed, hempty, hempty, rfl, rfl⟩)⟩
  | popped _ _ hqueue => exact ⟨rfl, rfl, Or.inr (Or.inr ⟨_, hqueue, rfl, rfl⟩)⟩
  | pushWaits hactivity' => simp [hactivity] at hactivity'
  | pushRefused hactivity' => simp [hactivity] at hactivity'
  | pushed hactivity' => simp [hactivity] at hactivity'
  | tryPushRefused hactivity' => simp [hactivity] at hactivity'
  | tryPushed hactivity' => simp [hactivity] at hactivity'
  | closes hactivity' => simp [hactivity] at hactivity'
  | notifiesNotEmpty hactivity' => simp [hactivity] at hactivity'
  | notifiesNotFull hactivity' => simp [hactivity] at hactivity'

/-- The stages of `close`. -/
def Closing : Activity α → Prop
  | .close | .notifyNotEmpty | .notifyNotFull => True
  | _ => False

/-- A step inside `close`: the flag is set from the first step on, the history stays, and the
thread gets to the next stage. -/
theorem of_close (h : QueueMove s (.run t n) s') (hactivity : Closing (s.activity t)) :
    s'.accepted = s.accepted ∧ s'.handed = s.handed ∧ s'.queue = s.queue ∧
      ((s.activity t = .close ∧ s'.closed = true ∧
          s'.activity = Function.update s.activity t .notifyNotEmpty) ∨
        (s.activity t = .notifyNotEmpty ∧ s'.closed = s.closed ∧
          s'.activity = Function.update s.activity t .notifyNotFull) ∨
        (s.activity t = .notifyNotFull ∧ s'.closed = s.closed ∧
          s'.activity = Function.update s.activity t (.returned .closed))) := by
  cases h with
  | closes hstage => exact ⟨rfl, rfl, rfl, Or.inl ⟨hstage, rfl, rfl⟩⟩
  | notifiesNotEmpty hstage => exact ⟨rfl, rfl, rfl, Or.inr (Or.inl ⟨hstage, rfl, rfl⟩)⟩
  | notifiesNotFull hstage => exact ⟨rfl, rfl, rfl, Or.inr (Or.inr ⟨hstage, rfl, rfl⟩)⟩
  | pushWaits hother => simp [hother, Closing] at hactivity
  | pushRefused hother => simp [hother, Closing] at hactivity
  | pushed hother => simp [hother, Closing] at hactivity
  | tryPushRefused hother => simp [hother, Closing] at hactivity
  | tryPushed hother => simp [hother, Closing] at hactivity
  | popWaits hother => simp [hother, Closing] at hactivity
  | popDrained hother => simp [hother, Closing] at hactivity
  | popped hother => simp [hother, Closing] at hactivity

/-- Only threads inside a call run. -/
theorem inCall (h : QueueMove s (.run t n) s') : (s.activity t).InCall := by
  cases h <;> simp_all [Activity.InCall]

/-- A thread that runs leaves the others where they stand. -/
theorem activity_of_ne (h : QueueMove s (.run t n) s') {u : τ} (hne : u ≠ t) :
    s'.activity u = s.activity u := by
  cases h <;> simp [hne]

/-- Once the queue is closed, it stays closed and accepts nothing. -/
theorem accepted_of_closed {l : QueueLabel τ α} (h : QueueMove s l s') (hclosed : s.closed = true) :
    s'.closed = true ∧ s'.accepted = s.accepted := by
  cases h <;> simp_all

/-- A `pop` returns false only when the queue is closed and drained. -/
theorem drained_of_false (h : QueueMove s (.run t n) s')
    (hfalse : s'.activity t = .returned (.popped none)) : s.closed = true ∧ s.queue = [] := by
  cases h with
  | popDrained _ _ hclosed hempty => exact ⟨hclosed, hempty⟩
  | pushWaits hactivity => simp [hactivity] at hfalse
  | popWaits hactivity => simp [hactivity] at hfalse
  | _ => simp at hfalse

/-- A `push` returns false only when the queue is closed. -/
theorem closed_of_refused {value : α} (h : QueueMove s (.run t n) s')
    (hactivity : s.activity t = .push value)
    (hfalse : s'.activity t = .returned (.pushed false)) : s.closed = true := by
  cases h with
  | pushRefused _ _ hclosed => exact hclosed
  | pushWaits => simp [hactivity] at hfalse
  | popWaits => simp [hactivity] at hfalse
  | tryPushRefused hother => simp [hactivity] at hother
  | _ => simp at hfalse

/-- The capacity never changes. -/
theorem capacity_eq {l : QueueLabel τ α} (h : QueueMove s l s') : s'.capacity = s.capacity := by
  cases h <;> rfl

end QueueMove

/-! ## The invariant of the channel -/

namespace QueueState

/-- The queue is a bounded first-in first-out channel, and what `pop` and `close` have announced is
so. -/
structure Channel (s : QueueState τ α) : Prop where
  fifo : s.accepted.map Prod.snd = s.handed ++ s.queue
  bounded : s.queue.length ≤ s.capacity
  /-- `pop` returns false only from a closed and drained queue. -/
  drained : ∀ t, s.activity t = .returned (.popped none) → s.closed = true ∧ s.queue = []
  /-- Past the first stage of `close` the queue is closed. -/
  closing : ∀ t, (s.activity t = .notifyNotEmpty ∨ s.activity t = .notifyNotFull ∨
    s.activity t = .returned .closed) → s.closed = true
  closeReturned : s.closeReturned = true → s.closed = true

omit [DecidableEq τ] in
theorem Channel.new (capacity : ℕ) : (QueueState.new capacity : QueueState τ α).Channel where
  fifo := rfl
  bounded := Nat.zero_le _
  drained := fun _ h => by cases h
  closing := fun _ h => by rcases h with h | h | h <;> cases h
  closeReturned := fun h => by cases h

/-- Reading off where a thread stands after another one, or it itself, has moved. -/
theorem update_eq {f : τ → Activity α} {a b : Activity α} {u : τ}
    (h : Function.update f t a u = b) : a = b ∨ f u = b := by
  by_cases heq : u = t
  · subst heq
    exact Or.inl (by simpa using h)
  · exact Or.inr (by simpa [heq] using h)

/-- The values stay in order. -/
private theorem Channel.fifo_step {l : QueueLabel τ α} (hchannel : s.Channel)
    (h : QueueMove s l s') : s'.accepted.map Prod.snd = s'.handed ++ s'.queue := by
  have hfifo := hchannel.fifo
  cases h with
  | pushed => simp [hfifo]
  | tryPushed => simp [hfifo]
  | popped _ _ hqueue => simp [hfifo, hqueue]
  | _ => exact hfifo

/-- The capacity is kept. -/
private theorem Channel.bounded_step {l : QueueLabel τ α} (hchannel : s.Channel)
    (h : QueueMove s l s') : s'.queue.length ≤ s'.capacity := by
  have hbounded := hchannel.bounded
  cases h with
  | pushed _ _ _ hroom => simpa using Nat.succ_le_of_lt hroom
  | tryPushed _ _ hroom => simpa using Nat.succ_le_of_lt hroom
  | popped _ _ hqueue =>
    rw [hqueue, List.length_cons] at hbounded
    exact Nat.le_of_succ_le hbounded
  | _ => exact hbounded

/-- A closed and drained queue stays so. -/
theorem drained_step {l : QueueLabel τ α} (h : QueueMove s l s')
    (hdrained : s.closed = true ∧ s.queue = []) : s'.closed = true ∧ s'.queue = [] := by
  obtain ⟨hclosed, hempty⟩ := hdrained
  cases h <;> simp_all

/-- The queue is a channel after every step. -/
theorem Channel.step {l : QueueLabel τ α} (hchannel : s.Channel) (h : QueueMove s l s') :
    s'.Channel where
  fifo := hchannel.fifo_step h
  bounded := hchannel.bounded_step h
  drained := by
    intro u hu
    by_cases hbefore : s.activity u = .returned (.popped none)
    · exact drained_step h (hchannel.drained u hbefore)
    · -- The thread has just found the queue closed and drained.
      cases h with
      | popDrained _ _ hclosed hempty => exact ⟨hclosed, hempty⟩
      | call =>
        rcases update_eq hu with hentry | hsame
        · rename_i c _
          cases c <;> cases hentry
        · exact absurd hsame hbefore
      | wakeNotFull => exact absurd hu hbefore
      | wakeNotEmpty => exact absurd hu hbefore
      | pushWaits => exact absurd hu hbefore
      | popWaits => exact absurd hu hbefore
      | _ => exact absurd ((update_eq hu).resolve_left (by simp)) hbefore
  closing := by
    intro u hu
    cases h with
    | closes => rfl
    | notifiesNotEmpty hstage => exact hchannel.closing _ (Or.inl hstage)
    | notifiesNotFull hstage => exact hchannel.closing _ (Or.inr (Or.inl hstage))
    | call =>
      refine hchannel.closing u ?_
      rename_i c _
      rcases hu with hu | hu | hu
      · exact Or.inl ((update_eq hu).resolve_left (by cases c <;> simp [QueueCall.entry]))
      · exact Or.inr (Or.inl ((update_eq hu).resolve_left (by cases c <;> simp [QueueCall.entry])))
      · exact Or.inr (Or.inr ((update_eq hu).resolve_left (by cases c <;> simp [QueueCall.entry])))
    | wakeNotFull => exact hchannel.closing u hu
    | wakeNotEmpty => exact hchannel.closing u hu
    | pushWaits => exact hchannel.closing u hu
    | popWaits => exact hchannel.closing u hu
    | _ =>
      refine hchannel.closing u ?_
      rcases hu with hu | hu | hu
      · exact Or.inl ((update_eq hu).resolve_left (by simp))
      · exact Or.inr (Or.inl ((update_eq hu).resolve_left (by simp)))
      · exact Or.inr (Or.inr ((update_eq hu).resolve_left (by simp)))
  closeReturned := by
    intro hreturned
    cases h with
    | closes => rfl
    | notifiesNotFull hstage => exact hchannel.closing _ (Or.inr (Or.inl hstage))
    | _ => exact hchannel.closeReturned hreturned

/-! ## Completed calls -/

omit [DecidableEq τ] in
/-- What a step completes: the thread, where it stood in its call, and what the call returned. -/
def completes (s : QueueState τ α) (l : QueueLabel τ α) (s' : QueueState τ α) :
    List (τ × Activity α × QueueResult α) :=
  match l with
  | .run t _ =>
    match s'.activity t with
    | .returned result => [(t, s.activity t, result)]
    | _ => []
  | _ => []

/-- The completed calls of a run, in the order of their completion. -/
def completed (s : QueueState τ α) (labels : List (QueueLabel τ α)) :
    List (τ × Activity α × QueueResult α) :=
  Transition.observe step completes s labels

omit [DecidableEq τ] in
/-- The value of a call of `push` or `try_push` that returned true. -/
def acceptedBy : τ × Activity α × QueueResult α → Option α
  | (_, .push value, .pushed true) | (_, .tryPush value, .pushed true) => some value
  | _ => none

omit [DecidableEq τ] in
/-- The value that a call of `pop` handed out. -/
def handedBy : τ × Activity α × QueueResult α → Option α
  | (_, _, .popped value) => value
  | _ => none

/-- A step records in the history what the call it completes accepted or handed out. -/
private theorem history_step {l : QueueLabel τ α} (h : QueueMove s l s') :
    s'.accepted.map Prod.snd =
      s.accepted.map Prod.snd ++ (completes s l s').filterMap acceptedBy ∧
    s'.handed = s.handed ++ (completes s l s').filterMap handedBy := by
  cases h with
  | pushWaits hactivity => simp [completes, hactivity]
  | popWaits hactivity => simp [completes, hactivity]
  | call => simp [completes]
  | wakeNotFull => simp [completes]
  | wakeNotEmpty => simp [completes]
  | _ hactivity => simp [completes, hactivity, acceptedBy, handedBy]

/-- The history is that of the completed calls. -/
theorem history_of_run {labels : List (QueueLabel τ α)}
    (hrun : Transition.run step s labels = some s') :
    s'.accepted.map Prod.snd =
      s.accepted.map Prod.snd ++ (completed s labels).filterMap acceptedBy ∧
    s'.handed = s.handed ++ (completed s labels).filterMap handedBy := by
  have hhistory := Transition.run_observe (f := completes) (o := [])
    (I := fun results s' =>
      s'.accepted.map Prod.snd = s.accepted.map Prod.snd ++ results.filterMap acceptedBy ∧
      s'.handed = s.handed ++ results.filterMap handedBy)
    (fun hbefore hstep => by
      obtain ⟨haccepted, hhanded⟩ := history_step (step_move hstep)
      rw [haccepted, hhanded, hbefore.1, hbefore.2]
      simp) (by simp) hrun
  simpa [completed] using hhistory

/-! ## Runs -/

theorem channel_run {labels : List (QueueLabel τ α)} (hchannel : s.Channel)
    (hrun : Transition.run step s labels = some s') : s'.Channel :=
  Transition.run_invariant (fun hchannel hstep => hchannel.step (step_move hstep)) hchannel hrun

theorem capacity_of_run {labels : List (QueueLabel τ α)}
    (hrun : Transition.run step s labels = some s') : s'.capacity = s.capacity :=
  Transition.run_invariant (I := fun s' => s'.capacity = s.capacity)
    (fun hsame hstep => (step_move hstep).capacity_eq.trans hsame) rfl hrun

/-- No call that completes on a closed queue has its value accepted. -/
theorem closed_of_run {labels : List (QueueLabel τ α)} (hclosed : s.closed = true)
    (hrun : Transition.run step s labels = some s') :
    s'.closed = true ∧ (completed s labels).filterMap acceptedBy = [] := by
  obtain ⟨hclosed', hsame⟩ := Transition.run_invariant
    (I := fun s' => s'.closed = true ∧ s'.accepted = s.accepted)
    (fun hbefore hstep => by
      obtain ⟨hclosed', hsame⟩ := (step_move hstep).accepted_of_closed hbefore.1
      exact ⟨hclosed', hsame.trans hbefore.2⟩) ⟨hclosed, rfl⟩ hrun
  have hhistory := (history_of_run hrun).1
  rw [hsame] at hhistory
  exact ⟨hclosed', List.self_eq_append_right.mp hhistory⟩

/-- No call that completes on a closed and drained queue hands anything out. -/
theorem drained_of_run {labels : List (QueueLabel τ α)} (hchannel : s.Channel)
    (hdrained : s.closed = true ∧ s.queue = []) (hrun : Transition.run step s labels = some s') :
    (completed s labels).filterMap handedBy = [] := by
  have hdrained' := Transition.run_invariant (I := fun s => s.closed = true ∧ s.queue = [])
    (fun hbefore hstep => drained_step (step_move hstep) hbefore) hdrained hrun
  obtain ⟨haccepted, hhanded⟩ := history_of_run hrun
  rw [(closed_of_run hdrained.1 hrun).2, List.append_nil, (channel_run hchannel hrun).fifo,
    hchannel.fifo, hdrained.2, hdrained'.2, List.append_nil, List.append_nil, hhanded] at haccepted
  exact List.append_right_eq_self.mp haccepted

/-- **The queue is a bounded first-in first-out channel.** For any capacity, any threads and any
interleaving: the queue holds at most `capacity()` elements; the values of the calls that returned
true are, in this order, the values handed out and the values in the queue; a closed queue accepts
nothing; and a `pop` returns false only when the queue is closed and everything accepted has been
handed out, and from then on no `pop` returns a value. -/
theorem channel_of_run {capacity : ℕ} {labels : List (QueueLabel τ α)}
    (hrun : Transition.run step (QueueState.new capacity) labels = some s) :
    let results := completed (QueueState.new capacity) labels
    s.queue.length ≤ s.capacity ∧ s.capacity = max capacity 1 ∧
    results.filterMap acceptedBy = results.filterMap handedBy ++ s.queue ∧
    (s.closed = true → ∀ {labels' s'}, Transition.run step s labels' = some s' →
      s'.closed = true ∧ (completed s labels').filterMap acceptedBy = []) ∧
    (∀ {t n s'}, s.step (.run t n) = some s' → s'.activity t = .returned (.popped none) →
      s.closed = true ∧ results.filterMap acceptedBy = results.filterMap handedBy ∧
      ∀ {labels' s''}, Transition.run step s' labels' = some s'' →
        ∀ c ∈ completed s' labels', ∀ value, c.2.2 = .popped value → value = none) := by
  have hchannel := channel_run (Channel.new capacity) hrun
  obtain ⟨haccepted, hhanded⟩ := history_of_run hrun
  have hcapacity : s.capacity = max capacity 1 := by
    rw [capacity_of_run hrun]
    simp only [QueueState.new, BlockingQueue.new]
    split <;> omega
  have hfifo : ((new capacity).completed labels).filterMap acceptedBy =
      ((new capacity).completed labels).filterMap handedBy ++ s.queue := by
    simpa [haccepted, hhanded, QueueState.new] using hchannel.fifo
  refine ⟨hchannel.bounded, hcapacity, hfifo, fun hclosed _ _ hrun' => closed_of_run hclosed hrun',
    fun {t n s'} hstep hfalse => ?_⟩
  have hchannel' := hchannel.step (step_move hstep)
  have hdrained' := hchannel'.drained t hfalse
  have hdrained := (step_move hstep).drained_of_false hfalse
  refine ⟨hdrained.1, by simpa [hdrained.2] using hfifo, fun hrun' c hmem value hvalue => ?_⟩
  have hnone := List.filterMap_eq_nil_iff.mp (drained_of_run hchannel' hdrained' hrun') c hmem
  obtain ⟨u, a, result⟩ := c
  dsimp only at hvalue
  subst hvalue
  exact hnone

/-- A producer fills a queue of capacity zero, which counts as one, and waits; the other thread
takes the first value, the producer goes on, and the queue is closed. -/
def fillAndClose : List (QueueLabel Bool ℕ) :=
  [.call true (.push 7), .run true none, .call true (.push 8), .run true none,
    .call false .pop, .run false (some true), .run true none, .call true .close, .run true none]

/-- The two values were accepted; one was handed out and the other is in the closed queue. -/
theorem channel_of_run_close : ∃ s,
    Transition.run step (QueueState.new 0) fillAndClose = some s ∧ s.queue.length ≤ s.capacity ∧
    s.capacity = 1 ∧ s.closed = true ∧
    (completed (QueueState.new 0) fillAndClose).filterMap acceptedBy = [7, 8] ∧
    [7, 8] = [7] ++ s.queue := by
  have hrun : ∃ s, Transition.run step (QueueState.new 0) fillAndClose = some s ∧
      s.closed = true ∧
      (completed (QueueState.new 0) fillAndClose).filterMap acceptedBy = [7, 8] ∧
      (completed (QueueState.new 0) fillAndClose).filterMap handedBy = [7] :=
    ⟨_, rfl, rfl, rfl, rfl⟩
  obtain ⟨s, hrun, hclosed, haccepted, hhanded⟩ := hrun
  obtain ⟨hbounded, hcapacity, hfifo, _⟩ := channel_of_run hrun
  rw [haccepted, hhanded] at hfifo
  exact ⟨s, hrun, hbounded, hcapacity, hclosed, haccepted, hfifo⟩

end QueueState

end Hpblr
