import Mathlib.Algebra.BigOperators.Group.Finset.Basic
import Mathlib.Data.Finset.Image
import Hpblr.Lib.Ranking
import Hpblr.Recorder.NoLoss
import Hpblr.Recorder.Progress
import Hpblr.Recorder.Submission

/-!
# How much work the recorder has

Every thread of the recorder gets done in a bounded number of steps, whatever the schedule. A call
of `submit` brings twelve steps, its share of the work of the background thread included; a call of
`stop` brings a number of steps that grows with the number of producers, since its `close` wakes all
of them. Each stage has a weight for the steps it has before it, a stored element has one for the
steps of the background thread, and a thread that is awake has one for going to sleep again.
-/

namespace Hpblr

/-! ## The work in the queue -/

section Queue

variable {τ α : Type*} [DecidableEq τ] {q q' : QueueState τ α} {t : τ} {n : Option τ} {k : ℕ}

omit [DecidableEq τ] in
/-- The work that a queue with `k` producers and one consumer holds: its elements, and the threads
that are not asleep. -/
def QueueState.work (k : ℕ) (q : QueueState τ α) : ℕ :=
  6 * q.queue.length + (k - q.notFull.sleeping.card) + (1 - q.notEmpty.sleeping.card)

/-- The work of a thread in `close`. Its notifications wake `k` producers and a consumer. -/
def Activity.closeWork (k : ℕ) : Activity α → ℕ
  | .close => k + 4
  | .notifyNotEmpty => k + 3
  | .notifyNotFull => k + 1
  | _ => 0

/-- A notification, or a wake-up without one, leaves all sleepers but one asleep. -/
private theorem card_sleeping_notifyOne {c c' : CondVar τ} {choice : Option τ}
    (h : c.notifyOne choice = some c') : c.sleeping.card ≤ c'.sleeping.card + 1 := by
  rcases CondVar.notifyOne_cases h with ⟨_, rfl⟩ | ⟨u, _, rfl⟩
  · omega
  · have hcard : c.sleeping.card - 1 ≤ (c.sleeping.erase u).card := Finset.pred_card_le_card_erase
    simp only [CondVar.wake]
    omega

namespace QueueMove

theorem work_call {c : QueueCall α} (h : QueueMove q (.call t c) q') : q'.work k = q.work k := by
  cases h
  rfl

theorem work_wake (h : QueueMove q (.wake t) q') : q'.work k ≤ q.work k + 1 := by
  have hcard (c : CondVar τ) : c.sleeping.card - 1 ≤ (c.wake t).sleeping.card :=
    Finset.pred_card_le_card_erase
  cases h with
  | wakeNotFull =>
    have hfull := hcard q.notFull
    simp only [QueueState.work]
    omega
  | wakeNotEmpty =>
    have hempty := hcard q.notEmpty
    simp only [QueueState.work]
    omega

/-- A step of `push` puts its thread to sleep, or ends the critical section. Then there may be one
element more, and one consumer more awake. -/
theorem work_push {value : α} (h : QueueMove q (.run t n) q') (hactivity : q.activity t = .push value)
    (hk : q'.notFull.sleeping.card ≤ k) :
    (q'.activity t = .push value ∧ q'.work k + 1 ≤ q.work k) ∨
      (∃ accepted, q'.activity t = .returned (.pushed accepted) ∧ q'.work k ≤ q.work k + 7) := by
  cases h with
  | pushWaits _ hawake =>
    left
    have hsleeps : (insert t q.notFull.sleeping).card = q.notFull.sleeping.card + 1 :=
      Finset.card_insert_of_notMem hawake
    simp only [CondVar.wait, CondVar.resume] at hk
    simp only [QueueState.work, CondVar.wait, CondVar.resume]
    exact ⟨hactivity, by omega⟩
  | pushRefused =>
    right
    refine ⟨false, Function.update_self .., ?_⟩
    simp only [QueueState.work, CondVar.resume]
    omega
  | pushed =>
    right
    refine ⟨true, Function.update_self .., ?_⟩
    simp only [QueueState.work, CondVar.resume, List.length_append, List.length_singleton]
    omega
  | tryPushRefused hother => simp [hactivity] at hother
  | tryPushed hother => simp [hactivity] at hother
  | popWaits hother => simp [hactivity] at hother
  | popDrained hother => simp [hactivity] at hother
  | popped hother => simp [hactivity] at hother
  | closes hother => simp [hactivity] at hother
  | notifiesNotEmpty hother => simp [hactivity] at hother
  | notifiesNotFull hother => simp [hactivity] at hother

/-- A step of `pop` puts its thread to sleep, finds the queue closed and drained, or takes an
element out. Then one producer more may be awake. -/
theorem work_pop (h : QueueMove q (.run t n) q') (hactivity : q.activity t = .pop)
    (hone : q'.notEmpty.sleeping.card ≤ 1) :
    (q'.activity t = .pop ∧ q'.work k + 1 ≤ q.work k) ∨
      (q'.activity t = .returned (.popped none) ∧ q'.work k ≤ q.work k) ∨
      (∃ value, q'.activity t = .returned (.popped (some value)) ∧
        q'.work k + 5 ≤ q.work k) := by
  cases h with
  | popWaits _ hawake =>
    left
    have hsleeps : (insert t q.notEmpty.sleeping).card = q.notEmpty.sleeping.card + 1 :=
      Finset.card_insert_of_notMem hawake
    simp only [CondVar.wait, CondVar.resume] at hone
    simp only [QueueState.work, CondVar.wait, CondVar.resume]
    exact ⟨hactivity, by omega⟩
  | popDrained =>
    right
    left
    refine ⟨Function.update_self .., ?_⟩
    simp only [QueueState.work, CondVar.resume]
    omega
  | @popped _ value queue _ notFull _ _ hqueue hnotify =>
    right
    right
    have hcard := card_sleeping_notifyOne hnotify
    refine ⟨value, Function.update_self .., ?_⟩
    simp only [QueueState.work, CondVar.resume, hqueue, List.length_cons]
    omega
  | pushWaits hother => simp [hactivity] at hother
  | pushRefused hother => simp [hactivity] at hother
  | pushed hother => simp [hactivity] at hother
  | tryPushRefused hother => simp [hactivity] at hother
  | tryPushed hother => simp [hactivity] at hother
  | closes hother => simp [hactivity] at hother
  | notifiesNotEmpty hother => simp [hactivity] at hother
  | notifiesNotFull hother => simp [hactivity] at hother

/-- A step of `close` uses up work, the threads it wakes included. -/
theorem work_close (h : QueueMove q (.run t n) q') (hclosing : Closing (q.activity t)) :
    q'.work k + (q'.activity t).closeWork k + 1 ≤ q.work k + (q.activity t).closeWork k := by
  cases h with
  | closes hactivity =>
    simp only [hactivity, Function.update_self, Activity.closeWork, QueueState.work]
    omega
  | notifiesNotEmpty hactivity =>
    simp only [hactivity, Function.update_self, Activity.closeWork, QueueState.work,
      CondVar.notifyAll, Finset.card_empty]
    omega
  | notifiesNotFull hactivity =>
    simp only [hactivity, Function.update_self, Activity.closeWork, QueueState.work,
      CondVar.notifyAll, Finset.card_empty]
    omega
  | pushWaits hother => simp [hother, Closing] at hclosing
  | pushRefused hother => simp [hother, Closing] at hclosing
  | pushed hother => simp [hother, Closing] at hclosing
  | tryPushRefused hother => simp [hother, Closing] at hclosing
  | tryPushed hother => simp [hother, Closing] at hclosing
  | popWaits hother => simp [hother, Closing] at hclosing
  | popDrained hother => simp [hother, Closing] at hclosing
  | popped hother => simp [hother, Closing] at hclosing

end QueueMove

end Queue

/-! ## The work of the threads -/

/-- The work of a producer in `submit`. -/
def SubmitStage.work : SubmitStage → Activity Event → ℕ
  | .outside, _ | .returned _, _ => 0
  | .checking _, _ => 12
  | .loading _, _ => 11
  | .pushing _, .push _ => 10
  | .pushing _, _ => 2
  | .rejecting _, _ | .counting _, _ => 1

/-- The work of the background thread, apart from the elements that are still stored. -/
def RunStage.work (k : ℕ) : RunStage → Activity Event → ℕ
  | .popping, .returned (.popped none) => k + 8
  | .popping, .returned (.popped (some _)) => k + 13
  | .popping, _ => k + 9
  | .appending _, _ => k + 12
  | .counting, _ => k + 11
  | .fetching, _ => k + 10
  | .flushing, _ => k + 7
  | .settingError _, _ => k + 6
  | .closing, a => a.closeWork k + 1
  | .ended, _ => 0

/-- The work of the stopping thread in `stop`. -/
def StopStage.work (k : ℕ) : StopStage → Activity Event → ℕ
  | .outside, _ | .returned _, _ => 0
  | .exchanging, _ => k + 8
  | .closing, a => a.closeWork k + 3
  | .joining, _ => 2
  | .checking, _ => 1

/-- What a label costs: one step of a thread. -/
def RecorderLabel.cost {P : Type*} : RecorderLabel P → ℕ
  | .run _ _ => 1
  | _ => 0

/-- The work that a label brings, when `k` producers call `submit`. -/
def RecorderLabel.credit {P : Type*} (k : ℕ) : RecorderLabel P → ℕ
  | .submit _ _ => 12
  | .stop => k + 8
  | .wake _ => 1
  | .run _ _ => 0

variable {P : Type*}

namespace AsyncRecorder

/-- The work of a producer. -/
def producerWork (s : AsyncRecorder P) (p : P) : ℕ :=
  (s.submitAt p).work (s.queue.activity (.producer p))

/-- The work of the recorder, when these producers call `submit`. -/
def work (s : AsyncRecorder P) (producers : Finset P) : ℕ :=
  (∑ p ∈ producers, s.producerWork p) + s.runAt.work producers.card (s.queue.activity .writer) +
    s.stopAt.work producers.card (s.queue.activity .stopper) + s.queue.work producers.card

/-- Only these producers are inside `submit`. -/
def OnlyCalledBy (s : AsyncRecorder P) (producers : Finset P) : Prop :=
  ∀ p, (s.submitAt p).InCall → p ∈ producers

variable [DecidableEq P] {s s' : AsyncRecorder P} {producers : Finset P} {p : P}
  {l : RecorderLabel P} {n : Option (RecorderThread P)} {now : UInt64}

/-! ## Who sleeps -/

/-- At most the producers sleep for a slot. -/
theorem card_notFull_le (hstages : s.Stages) (hsound : s.queue.Sound)
    (honly : s.OnlyCalledBy producers) :
    s.queue.notFull.sleeping.card ≤ producers.card := by
  have hsub : s.queue.notFull.sleeping ⊆ producers.image .producer := by
    intro t ht
    obtain ⟨p, rfl, hin⟩ := exists_producer hstages (hsound.wakeUps.producers.sleeping t ht)
    exact Finset.mem_image_of_mem _ (honly p hin)
  exact (Finset.card_le_card hsub).trans Finset.card_image_le

omit [DecidableEq P] in
/-- At most the background thread sleeps for an element. -/
theorem card_notEmpty_le (hstages : s.Stages) (hsound : s.queue.Sound) :
    s.queue.notEmpty.sleeping.card ≤ 1 := by
  have hsub : s.queue.notEmpty.sleeping ⊆ {.writer} := by
    intro t ht
    rw [Finset.mem_singleton]
    exact (eq_writer hstages (hsound.wakeUps.consumers.sleeping t ht)).1
  exact (Finset.card_le_card hsub).trans (Finset.card_singleton _).le

/-- No producer comes to `submit` but by a call. -/
theorem OnlyCalledBy.step (honly : s.OnlyCalledBy producers)
    (hlabel : ∀ p event, l = .submit p event → p ∈ producers) (h : RecorderMove s l s') :
    s'.OnlyCalledBy producers := by
  intro p hin
  by_cases hcall : ∃ event, l = .submit p event
  · obtain ⟨event, hcall⟩ := hcall
    exact hlabel p event hcall
  by_cases hrun : ∃ n, l = .run (.producer p) n
  · obtain ⟨n, rfl⟩ := hrun
    exact honly p (submitAt_of_run h).1
  · rw [submitAt_of_other h ⟨not_exists.mp hcall, not_exists.mp hrun⟩] at hin
    exact honly p hin

/-! ## A step uses up work -/

/-- The steps of a producer change the work of that producer alone. -/
private theorem sum_producerWork (h : RecorderMove s l s') (hp : p ∈ producers)
    (hl : ∀ p', p' ≠ p → (∀ event, l ≠ .submit p' event) ∧ ∀ n, l ≠ .run (.producer p') n) :
    (∑ p' ∈ producers, s'.producerWork p') + s.producerWork p =
      (∑ p' ∈ producers, s.producerWork p') + s'.producerWork p := by
  have hother : ∑ p' ∈ producers.erase p, s'.producerWork p' =
      ∑ p' ∈ producers.erase p, s.producerWork p' := by
    refine Finset.sum_congr rfl fun p' hp' => ?_
    have hne := hl p' (Finset.ne_of_mem_erase hp')
    rw [producerWork, producerWork, submitAt_of_other h hne, activity_of_other h hne.2]
  rw [← Finset.add_sum_erase _ _ hp, ← Finset.add_sum_erase _ _ hp, hother]
  omega

/-- The steps of the other threads leave the producers their work. -/
private theorem sum_producerWork_of_other (producers : Finset P) (h : RecorderMove s l s')
    (hl : ∀ p, (∀ event, l ≠ .submit p event) ∧ ∀ n, l ≠ .run (.producer p) n) :
    ∑ p ∈ producers, s'.producerWork p = ∑ p ∈ producers, s.producerWork p := by
  refine Finset.sum_congr rfl fun p _ => ?_
  rw [producerWork, producerWork, submitAt_of_other h (hl p), activity_of_other h (hl p).2]

/-- A step of a producer. -/
private theorem work_submit (hstages : s.Stages) (h : RecorderMove s (.run (.producer p) n) s')
    {k : ℕ} (hk : s'.queue.notFull.sleeping.card ≤ k) :
    s'.producerWork p + s'.queue.work k + 1 ≤ s.producerWork p + s.queue.work k := by
  have hsubmit := hstages.submit p
  unfold producerWork
  cases h with
  | submitThrows hat =>
    simp only [submitReturns, hat, SubmitStage.work, Function.update_self]
    omega
  | submitPasses hat =>
    simp only [producerAt, hat, SubmitStage.work, Function.update_self]
    omega
  | submitStopped hat =>
    simp only [producerAt, hat, SubmitStage.work, Function.update_self]
    omega
  | pushCalled hat _ hqueue =>
    have hwork : QueueState.work k _ = _ := (QueueState.step_move hqueue).work_call
    simp only [activity_call hqueue, hat, Function.update_self, SubmitStage.work, hwork,
      QueueCall.entry]
    omega
  | pushRuns hat hqueue =>
    rw [hat] at hsubmit ⊢
    have hmove := QueueState.step_move hqueue
    have hpush := hsubmit.push hmove.inCall
    rcases hmove.work_push hpush hk with ⟨hsame, hwork⟩ | ⟨accepted, hresult, hwork⟩
    · simp only [hsame, hpush, SubmitStage.work]
      omega
    · simp only [hresult, hpush, SubmitStage.work]
      omega
  | pushAccepted hat hresult =>
    simp only [producerAt, hat, hresult, SubmitStage.work, Function.update_self]
    omega
  | pushRefused hat hresult =>
    simp only [producerAt, hat, hresult, SubmitStage.work, Function.update_self]
    omega
  | submitRejects hat =>
    simp only [submitReturns, hat, SubmitStage.work, Function.update_self]
    omega
  | submitCounts hat =>
    simp only [submitReturns, hat, SubmitStage.work, Function.update_self]
    omega

/-- A step of the background thread. -/
private theorem work_run (hstages : s.Stages) (h : RecorderMove s (.run .writer n) s')
    {k : ℕ} (hone : s'.queue.notEmpty.sleeping.card ≤ 1) :
    s'.runAt.work k (s'.queue.activity .writer) + s'.queue.work k + 1 ≤
      s.runAt.work k (s.queue.activity .writer) + s.queue.work k := by
  have hrun := hstages.run
  cases h with
  | popCalled hat hqueue =>
    have hwork : QueueState.work k _ = _ := (QueueState.step_move hqueue).work_call
    simp only [activity_call hqueue, hat, Function.update_self, RunStage.work, hwork,
      QueueCall.entry]
    omega
  | popRuns hat hqueue =>
    rw [hat] at hrun
    have hmove := QueueState.step_move hqueue
    have hpop := hrun.pop hmove.inCall
    rcases hmove.work_pop (k := k) hpop hone with
      ⟨hsame, hwork⟩ | ⟨hresult, hwork⟩ | ⟨value, hresult, hwork⟩
    · simp only [hat, hsame, hpop, RunStage.work]
      omega
    · simp only [hat, hresult, hpop, RunStage.work]
      omega
    · simp only [hat, hresult, hpop, RunStage.work]
      omega
  | popReturns hat hresult =>
    simp only [hat, hresult, RunStage.work]
    omega
  | popEnds hat hresult =>
    simp only [hat, hresult, RunStage.work]
    omega
  | appends hat =>
    simp only [hat, RunStage.work]
    omega
  | appendFails hat =>
    simp only [hat, RunStage.work]
    omega
  | counts hat =>
    simp only [hat, RunStage.work]
    omega
  | flushes hat =>
    simp only [hat, RunStage.work]
    omega
  | flushFails hat =>
    simp only [hat, RunStage.work]
    omega
  | setsError hat hqueue =>
    have hwork : QueueState.work k _ = _ := (QueueState.step_move hqueue).work_call
    simp only [activity_call hqueue, hat, Function.update_self, RunStage.work, hwork,
      QueueCall.entry, Activity.closeWork]
    omega
  | closeRuns hat hqueue =>
    rw [hat] at hrun
    have hmove := QueueState.step_move hqueue
    have hwork := hmove.work_close (k := k) (hrun.closing hmove.inCall)
    simp only [hat, RunStage.work]
    omega
  | closeReturns hat hresult =>
    simp only [hat, hresult, RunStage.work, Activity.closeWork]
    omega

/-- A step of the stopping thread. -/
private theorem work_stop (hstages : s.Stages) (h : RecorderMove s (.run .stopper n) s') {k : ℕ} :
    s'.stopAt.work k (s'.queue.activity .stopper) + s'.queue.work k + 1 ≤
      s.stopAt.work k (s.queue.activity .stopper) + s.queue.work k := by
  have hstop := hstages.stop
  cases h with
  | exchangesAgain hat =>
    simp only [hat, StopStage.work]
    omega
  | exchangesFirst hat _ hqueue =>
    have hwork : QueueState.work k _ = _ := (QueueState.step_move hqueue).work_call
    simp only [activity_call hqueue, hat, Function.update_self, StopStage.work, hwork,
      QueueCall.entry, Activity.closeWork]
    omega
  | stopCloseRuns hat hqueue =>
    rw [hat] at hstop
    have hmove := QueueState.step_move hqueue
    have hwork := hmove.work_close (k := k) (hstop.closing hmove.inCall)
    simp only [hat, StopStage.work]
    omega
  | stopCloseReturns hat hresult =>
    simp only [hat, hresult, StopStage.work, Activity.closeWork]
    omega
  | joins hat =>
    simp only [hat, StopStage.work]
    omega
  | hasJoined hat =>
    simp only [hat, StopStage.work]
    omega
  | stopThrows hat =>
    simp only [hat, StopStage.work, stopReturns]
    omega
  | stopReturns hat =>
    simp only [hat, StopStage.work, AsyncRecorder.stopReturns]
    omega

omit [DecidableEq P] in
/-- Outside `submit` a producer has no work. -/
theorem producerWork_eq_zero (houtside : ¬ (s.submitAt p).InCall) : s.producerWork p = 0 := by
  unfold producerWork
  cases hat : s.submitAt p with
  | outside => rfl
  | returned result => rfl
  | _ =>
    rw [hat] at houtside
    exact absurd trivial houtside

/-- **Every step uses up work.** A step of a thread takes one unit of work at least, and a call or a
wake-up brings no more than its credit. -/
theorem Recording.work_step (hrecording : s.Recording now) (hrecording' : s'.Recording now)
    (honly : s.OnlyCalledBy producers)
    (hlabel : ∀ p event, l = .submit p event → p ∈ producers) (h : RecorderMove s l s') :
    l.cost + s'.work producers ≤ s.work producers + l.credit producers.card := by
  have hfull := card_notFull_le hrecording'.stages hrecording'.queue (honly.step hlabel h)
  have hempty := card_notEmpty_le hrecording'.stages hrecording'.queue
  unfold work
  cases l with
  | submit p event =>
    have hsum := sum_producerWork h (hlabel p event rfl) (fun p' hne => by simp [hne.symm])
    cases h with
    | submitCalled houtside =>
      have hbefore := producerWork_eq_zero houtside
      have hafter : (s.producerAt p (.checking event)).producerWork p = 12 := by
        simp [producerWork, producerAt, SubmitStage.work]
      rw [hafter, hbefore, Nat.add_zero] at hsum
      rw [hsum]
      simp only [RecorderLabel.cost, RecorderLabel.credit, producerAt]
      omega
  | stop =>
    have hsum := sum_producerWork_of_other producers h (by simp)
    cases h with
    | stopCalled houtside =>
      have hbefore : s.stopAt.work producers.card (s.queue.activity .stopper) = 0 := by
        cases hat : s.stopAt with
        | outside => rfl
        | returned result => rfl
        | _ =>
          rw [hat] at houtside
          exact absurd trivial houtside
      rw [hsum, hbefore]
      simp only [RecorderLabel.cost, RecorderLabel.credit, StopStage.work]
      omega
  | run t n =>
    simp only [RecorderLabel.cost, RecorderLabel.credit]
    cases t with
    | producer p =>
      have hsum := sum_producerWork h (honly p (submitAt_of_run h).1)
        (fun p' hne => by simp [hne.symm])
      have hwork := work_submit hrecording.stages h hfull
      rw [runAt_of_other h (by simp), (stop_of_other h (by simp)).2.2.1,
        activity_of_other (t := .writer) h (by simp), activity_of_other (t := .stopper) h (by simp)]
      omega
    | writer =>
      have hsum := sum_producerWork_of_other producers h (by simp)
      have hwork := work_run (k := producers.card) hrecording.stages h hempty
      rw [hsum, (stop_of_other h (by simp)).2.2.1, activity_of_other (t := .stopper) h (by simp)]
      omega
    | stopper =>
      have hsum := sum_producerWork_of_other producers h (by simp)
      have hwork := work_stop (k := producers.card) hrecording.stages h
      rw [hsum, runAt_of_other h (by simp), activity_of_other (t := .writer) h (by simp)]
      omega
  | wake t =>
    have hsum := sum_producerWork_of_other producers h (by simp)
    rw [hsum, runAt_of_other h (by simp), (stop_of_other h (by simp)).2.2.1,
      activity_of_other (t := .writer) h (by simp), activity_of_other (t := .stopper) h (by simp)]
    cases h with
    | wakes hqueue =>
      have hwork := (QueueState.step_move hqueue).work_wake (k := producers.card)
      simp only [RecorderLabel.cost, RecorderLabel.credit]
      omega

/-! ## When nothing can move -/

/-- When no thread has an enabled step, every call has completed, and the background thread has
ended or has taken every element. -/
theorem Recording.quiet (hrecording : s.Recording now) (hquiet : ∀ t, ¬ s.Enabled t) :
    s.SubmitsCompleted ∧ ¬ s.stopAt.InCall ∧ (s.runAt = .ended ∨ s.queue.queue = []) := by
  have hstages := hrecording.stages
  have hwakeUps := hrecording.queue.wakeUps
  have hcalls : ¬ ((∃ p, (s.submitAt p).InCall) ∨ s.stopAt.InCall) := by
    intro hin
    obtain ⟨t, ht⟩ := hrecording.exists_enabled hin
    exact hquiet t ht
  obtain ⟨hsubmits, hstop⟩ := not_or.mp hcalls
  refine ⟨not_exists.mp hsubmits, hstop, ?_⟩
  by_cases hended : s.runAt = .ended
  · exact Or.inl hended
  right
  have hnotFull : RecorderThread.writer ∉ s.queue.notFull.sleeping := by
    intro hfull
    obtain ⟨p, hproducer, _⟩ := exists_producer hstages (hwakeUps.producers.sleeping _ hfull)
    cases hproducer
  have hasleep : RecorderThread.writer ∈ s.queue.notEmpty.sleeping := by
    by_contra hempty
    exact hquiet .writer (writer_enabled hstages hended hnotFull hempty)
  by_cases hclosed : s.queue.closed = true
  · -- Somebody would be about to wake the background thread.
    exfalso
    rcases hwakeUps.closedEmpty hclosed with hnone | ⟨t, ht⟩
    · rw [hnone] at hasleep
      exact Finset.notMem_empty _ hasleep
    · rcases closing_at hstages (Or.inl ht) with hrun | hat
      · rw [(eq_writer hstages (hwakeUps.consumers.sleeping _ hasleep)).2] at hrun
        cases hrun
      · exact hstop (by rw [hat]; trivial)
  · have hwoken : s.queue.notEmpty.woken = ∅ := by
      rw [Finset.eq_empty_iff_forall_notMem]
      intro t ht
      have hwriter := (eq_writer hstages (hwakeUps.consumers.woken t ht)).1
      exact Finset.disjoint_left.mp hwakeUps.consumers.disjoint hasleep (hwriter ▸ ht)
    have hlength := hwakeUps.elements (by simpa using hclosed) ⟨_, hasleep⟩
    rw [hwoken, Finset.card_empty] at hlength
    exact List.length_eq_zero_iff.mp (by omega)

/-! ## Runs -/

omit [DecidableEq P] in
/-- A new recorder has the work of starting the background thread and of going to sleep. -/
theorem work_new (producers : Finset P) {path : String} {queueCapacity : ℕ} {writerOptions : WriterOptions}
    {device : Device} (hnew : AsyncRecorder.new path queueCapacity writerOptions device now = .ok s) :
    s.work producers = 2 * producers.card + 11 ∧ s.OnlyCalledBy producers := by
  obtain ⟨writer, _, rfl⟩ := AsyncRecorder.new_eq hnew
  constructor
  · simp only [work, producerWork, SubmitStage.work, Finset.sum_const_zero, RunStage.work,
      StopStage.work, QueueState.work, QueueState.new, BlockingQueue.new, List.length_nil,
      Finset.card_empty]
    omega
  · exact fun p hin => absurd hin id

/-- **The recorder gets done.** For any producers, any capacity, any schedule and a writer that fails
anywhere or nowhere, a run takes at most twelve steps of threads for each call of `submit`, a fixed
number for each call of `stop`, one for each wake-up without a notification, and a fixed number for
the background thread. When no thread can go on, every call has completed, and the background thread
has ended or has taken every element out of the queue. -/
theorem steps_le (producers : Finset P) {s₀ : AsyncRecorder P} {path : String} {queueCapacity : ℕ}
    {writerOptions : WriterOptions} {device : Device} {labels : List (RecorderLabel P)}
    (hnew : AsyncRecorder.new path queueCapacity writerOptions device now = .ok s₀)
    (hrun : Transition.run step s₀ labels = some s)
    (hproducers : ∀ p event, .submit p event ∈ labels → p ∈ producers) :
    Transition.total RecorderLabel.cost labels ≤
      Transition.total (RecorderLabel.credit producers.card) labels + 2 * producers.card + 11 ∧
    ((∀ t, ¬ s.Enabled t) →
      s.SubmitsCompleted ∧ ¬ s.stopAt.InCall ∧ (s.runAt = .ended ∨ s.queue.queue = [])) := by
  obtain ⟨hwork, honly⟩ := work_new producers hnew
  constructor
  · have hpaid : Transition.total RecorderLabel.cost labels + s.work producers ≤
        s₀.work producers + Transition.total (RecorderLabel.credit producers.card) labels :=
      Transition.total_add_rank_le step
        (I := fun s : AsyncRecorder P => s.Recording now ∧ s.OnlyCalledBy producers)
        (C := fun l : RecorderLabel P => ∀ p event, l = .submit p event → p ∈ producers)
        (fun hs hl hstep => ⟨hs.1.step hstep, hs.2.step hl (step_move hstep)⟩)
        (fun hs hl hstep => hs.1.work_step (hs.1.step hstep) hs.2 hl (step_move hstep))
        ⟨Recording.new hnew, honly⟩ (fun l hl p event heq => hproducers p event (heq ▸ hl)) hrun
    omega
  · exact (recording_of_run hnew hrun).quiet

/-- The run of a recorder that is stopped while a `submit` is under way. -/
theorem steps_le_late : ∃ s₀ s : AsyncRecorder Unit,
    AsyncRecorder.new "log" 8 {} .reliable 0 = .ok s₀ ∧
    Transition.run step s₀ lateSubmit = some s ∧
    Transition.total RecorderLabel.cost lateSubmit ≤
      Transition.total (RecorderLabel.credit 1) lateSubmit + 13 := by
  obtain ⟨s₀, s, hnew, hrun, _⟩ :=
    exists_run "log" 8 {} .reliable 0 lateSubmit (fun _ : AsyncRecorder Unit => True)
      (by decide +kernel)
  exact ⟨s₀, s, hnew, hrun, (steps_le {()} hnew hrun (fun p _ _ => by simp)).1⟩

end AsyncRecorder

end Hpblr
