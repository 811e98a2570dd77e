import Hpblr.Recorder.Stopping

/-!
# Calls of `submit`

The event of a call of `submit` waits until the queue accepts it. A call is refused only after
`stop` has been called or the writer has failed.
-/

namespace Hpblr

variable {P : Type*} [DecidableEq P]

namespace AsyncRecorder

variable {s s' : AsyncRecorder P} {l : RecorderLabel P} {p : P} {n : Option (RecorderThread P)}
  {now : UInt64}

/-! ## The stages of the calling threads -/

/-- A step of a producer inside `submit` ends the call or goes on with it. It throws only from the
check of the writer error. -/
theorem submitAt_of_run (h : RecorderMove s (.run (.producer p) n) s') :
    (s.submitAt p).InCall ∧ s'.submitAt p ≠ .outside ∧
      ((∀ event, s.submitAt p = .checking event → s.writerError = none) →
        ∀ e, s'.submitAt p ≠ .returned (.threw e)) := by
  cases h with
  | @submitThrows _ event e _ hat herror =>
    refine ⟨by rw [hat]; trivial, by simp [submitReturns], fun hclear => ?_⟩
    rw [hclear event hat] at herror
    cases herror
  | submitPasses hat => exact ⟨by rw [hat]; trivial, by simp [producerAt], by simp [producerAt]⟩
  | submitStopped hat => exact ⟨by rw [hat]; trivial, by simp [producerAt], by simp [producerAt]⟩
  | pushCalled hat => exact ⟨by rw [hat]; trivial, by simp, by simp⟩
  | pushRuns hat => exact ⟨by rw [hat]; trivial, by simp [hat], by simp [hat]⟩
  | pushAccepted hat => exact ⟨by rw [hat]; trivial, by simp [producerAt], by simp [producerAt]⟩
  | pushRefused hat => exact ⟨by rw [hat]; trivial, by simp [producerAt], by simp [producerAt]⟩
  | submitRejects hat =>
    exact ⟨by rw [hat]; trivial, by simp [submitReturns], by simp [submitReturns]⟩
  | submitCounts hat =>
    exact ⟨by rw [hat]; trivial, by simp [submitReturns], by simp [submitReturns]⟩

/-- The check of a writer error that is set throws. -/
theorem submitAt_of_check (h : RecorderMove s (.run (.producer p) n) s') {event : Event}
    (hat : s.submitAt p = .checking event) (herror : s.writerError ≠ none) :
    ∃ e, s'.submitAt p = .returned (.threw e) := by
  cases h with
  | submitThrows => exact ⟨_, Function.update_self ..⟩
  | submitPasses _ hnone => exact absurd hnone herror
  | _ => simp_all

/-- A call of `submit` enters it. -/
theorem submitAt_of_call {event : Event} (h : RecorderMove s (.submit p event) s') :
    s'.submitAt p = .checking event := by
  cases h with
  | submitCalled => exact Function.update_self ..

theorem stopAt_of_call (h : RecorderMove s .stop s') : s'.stopAt = .exchanging := by
  cases h with
  | stopCalled => rfl

/-- A step of the stopping thread inside `stop` ends the call or goes on with it. -/
theorem stopAt_of_run (h : RecorderMove s (.run .stopper n) s') :
    s.stopAt.InCall ∧ s'.stopAt ≠ .outside := by
  cases h with
  | exchangesAgain hat => exact ⟨by rw [hat]; trivial, by simp⟩
  | exchangesFirst hat => exact ⟨by rw [hat]; trivial, by simp⟩
  | stopCloseRuns hat => exact ⟨by rw [hat]; trivial, by simp [hat]⟩
  | stopCloseReturns hat => exact ⟨by rw [hat]; trivial, by simp⟩
  | joins hat => exact ⟨by rw [hat]; trivial, by simp⟩
  | hasJoined hat => exact ⟨by rw [hat]; trivial, by simp⟩
  | stopThrows hat => exact ⟨by rw [hat]; trivial, by simp [AsyncRecorder.stopReturns]⟩
  | stopReturns hat => exact ⟨by rw [hat]; trivial, by simp [AsyncRecorder.stopReturns]⟩

/-- No step leads out of `stop` to the state before its first call. -/
theorem stopAt_of_outside (h : RecorderMove s l s') (houtside : s'.stopAt = .outside) :
    s.stopAt = .outside ∧ l ≠ .stop ∧ ∀ n, l ≠ .run .stopper n := by
  have hl : l ≠ .stop ∧ ∀ n, l ≠ .run .stopper n := by
    constructor
    · rintro rfl
      rw [stopAt_of_call h] at houtside
      cases houtside
    · rintro n rfl
      exact (stopAt_of_run h).2 houtside
  exact ⟨(stop_of_other h hl).2.2.1 ▸ houtside, hl⟩

/-- A failure of the writer is not forgotten. -/
theorem failure_of_step (h : RecorderMove s l s') (hnone : s'.failure = none) :
    s.failure = none := by
  cases h with
  | appendFails => cases hnone
  | flushFails => cases hnone
  | _ => exact hnone

/-! ## Events that wait -/

/-- The event of a producer at this stage, as long as the queue has not accepted it. -/
def waiting : SubmitStage → Activity Event → Option Event
  | .checking event, _ | .loading event, _ | .rejecting event, _ => some event
  | .pushing event, a => if a = .returned (.pushed true) then none else some event
  | _, _ => none

/-- The event that a producer is submitting, as long as the queue has not accepted it. -/
def waitingAt (s : AsyncRecorder P) (p : P) : Option Event :=
  waiting (s.submitAt p) (s.queue.activity (.producer p))

omit [DecidableEq P] in
theorem waitingAt_eq_none (hcompleted : ¬ (s.submitAt p).InCall) : s.waitingAt p = none := by
  unfold waitingAt
  cases hat : s.submitAt p with
  | outside => rfl
  | returned result => rfl
  | _ => exact absurd (by rw [hat]; trivial) hcompleted

theorem waitingAt_of_other (h : RecorderMove s l s')
    (hl : (∀ event, l ≠ .submit p event) ∧ ∀ n, l ≠ .run (.producer p) n) :
    s'.waitingAt p = s.waitingAt p := by
  rw [waitingAt, submitAt_of_other h hl, activity_of_other h hl.2, waitingAt]

theorem waitingAt_of_call {event : Event} (h : RecorderMove s (.submit p event) s') :
    s'.waitingAt p = some event := by
  rw [waitingAt, submitAt_of_call h]
  rfl

/-- A step of a producer inside `submit`: its event goes on waiting, is accepted, or is given up
after a failure of the writer or a refusal. -/
theorem waitingAt_of_run (hstages : s.Stages) (h : RecorderMove s (.run (.producer p) n) s') :
    (s'.waitingAt p = s.waitingAt p ∧ s'.queue.accepted = s.queue.accepted) ∨
    ∃ event, s.waitingAt p = some event ∧ s'.waitingAt p = none ∧
      (s'.queue.accepted = s.queue.accepted ++ [(.producer p, event)] ∨
        (s'.queue.accepted = s.queue.accepted ∧
          (s.writerError ≠ none ∨ s.submitAt p = .rejecting event))) := by
  unfold waitingAt
  cases h with
  | submitThrows hat herror =>
    refine Or.inr ⟨_, by rw [hat]; rfl, by simp [submitReturns, waiting], Or.inr ⟨rfl, Or.inl ?_⟩⟩
    rw [herror]
    simp
  | submitPasses hat => exact Or.inl ⟨by simp [producerAt, hat, waiting], rfl⟩
  | submitStopped hat => exact Or.inl ⟨by simp [producerAt, hat, waiting], rfl⟩
  | pushCalled hat _ hqueue =>
    refine Or.inl ⟨?_, accepted_call hqueue⟩
    simp [hat, waiting, activity_call hqueue, QueueCall.entry]
  | pushRuns hat hqueue =>
    have hsubmit := hstages.submit p
    rw [hat] at hsubmit
    have hmove := QueueState.step_move hqueue
    have hpush := hsubmit.push hmove.inCall
    rcases (hmove.of_push hpush).2.2 with ⟨hsame, haccepted, _⟩ | ⟨hresult, haccepted, _⟩ |
      ⟨_, hresult, haccepted, _⟩
    · exact Or.inl ⟨by simp [hsame], haccepted⟩
    · exact Or.inl ⟨by simp [hat, hresult, hpush, waiting], haccepted⟩
    · exact Or.inr ⟨_, by simp [hat, hpush, waiting], by simp [hat, hresult, waiting],
        Or.inl haccepted⟩
  | pushAccepted hat hresult => exact Or.inl ⟨by simp [producerAt, hat, hresult, waiting], rfl⟩
  | pushRefused hat hresult => exact Or.inl ⟨by simp [producerAt, hat, hresult, waiting], rfl⟩
  | submitRejects hat =>
    exact Or.inr ⟨_, by rw [hat]; rfl, by simp [submitReturns, waiting],
      Or.inr ⟨rfl, Or.inr hat⟩⟩
  | submitCounts hat => exact Or.inl ⟨by simp [submitReturns, hat, waiting], rfl⟩

/-! ## No refusal before `stop` -/

/-- The recorder takes in every event, and has refused none. -/
structure Accepting (s : AsyncRecorder P) : Prop where
  stopping : s.stopping = false
  closed : s.queue.closed = false
  push : ∀ p, s.queue.activity (.producer p) ≠ .returned (.pushed false)
  rejecting : ∀ p event, s.submitAt p ≠ .rejecting event
  returned : ∀ p, s.submitAt p ≠ .returned (.returned false)

/-- Only `close` closes the queue. -/
theorem closed_of_move (hstages : s.Stages) (h : RecorderMove s l s') :
    s'.queue.closed = s.queue.closed ∨ s.runAt = .closing ∨ s.stopAt = .closing := by
  have hcall {t : RecorderThread P} {c : QueueCall Event}
      {q : QueueState (RecorderThread P) Event} (hqueue : s.queue.step (.call t c) = some q) :
      q.closed = s.queue.closed := by
    obtain ⟨rfl, _⟩ := (QueueState.step_move hqueue).of_call
    rfl
  cases h with
  | pushCalled _ _ hqueue => exact Or.inl (hcall hqueue)
  | @pushRuns p _ _ _ hat hqueue =>
    have hsubmit := hstages.submit p
    rw [hat] at hsubmit
    have hmove := QueueState.step_move hqueue
    exact Or.inl (hmove.of_push (hsubmit.push hmove.inCall)).2.1
  | popCalled _ hqueue => exact Or.inl (hcall hqueue)
  | popRuns hat hqueue =>
    have hrun := hstages.run
    rw [hat] at hrun
    have hmove := QueueState.step_move hqueue
    exact Or.inl (hmove.of_pop (hrun.pop hmove.inCall)).2.1
  | setsError _ hqueue => exact Or.inl (hcall hqueue)
  | closeRuns hat => exact Or.inr (Or.inl hat)
  | exchangesFirst _ _ hqueue => exact Or.inl (hcall hqueue)
  | stopCloseRuns hat => exact Or.inr (Or.inr hat)
  | wakes hqueue => exact Or.inl (QueueState.step_move hqueue).of_wake.2.2.2.2
  | _ => exact Or.inl rfl

private theorem push_step (hstages : s.Stages) (haccepting : s.Accepting)
    (h : RecorderMove s l s') (p : P) :
    s'.queue.activity (.producer p) ≠ .returned (.pushed false) := by
  by_cases hrun : ∃ n, l = .run (.producer p) n
  · obtain ⟨n, rfl⟩ := hrun
    intro hfalse
    cases h with
    | pushCalled _ _ hqueue => simp [activity_call hqueue, QueueCall.entry] at hfalse
    | pushRuns hat hqueue =>
      have hsubmit := hstages.submit p
      rw [hat] at hsubmit
      have hmove := QueueState.step_move hqueue
      have hclosed := hmove.closed_of_refused (hsubmit.push hmove.inCall) hfalse
      rw [haccepting.closed] at hclosed
      cases hclosed
    | _ => exact haccepting.push p hfalse
  · rw [activity_of_other h (not_exists.mp hrun)]
    exact haccepting.push p

private theorem notRefused_step (haccepting : s.Accepting) (h : RecorderMove s l s') (p : P) :
    (∀ event, s'.submitAt p ≠ .rejecting event) ∧
      s'.submitAt p ≠ .returned (.returned false) := by
  by_cases hcall : ∃ event, l = .submit p event
  · obtain ⟨event, rfl⟩ := hcall
    simp [submitAt_of_call h]
  by_cases hrun : ∃ n, l = .run (.producer p) n
  · obtain ⟨n, rfl⟩ := hrun
    cases h with
    | submitStopped _ hstopping =>
      rw [haccepting.stopping] at hstopping
      cases hstopping
    | pushRefused _ hresult => exact absurd hresult (haccepting.push p)
    | submitRejects hat => exact absurd hat (haccepting.rejecting p _)
    | pushRuns => exact ⟨haccepting.rejecting p, haccepting.returned p⟩
    | _ => simp [producerAt, submitReturns]
  · rw [submitAt_of_other h ⟨not_exists.mp hcall, not_exists.mp hrun⟩]
    exact ⟨haccepting.rejecting p, haccepting.returned p⟩

/-- Until `stop` is called, and as long as the writer has not failed, the recorder goes on taking
in every event. -/
theorem accepting_step (hrecording : s.Recording now)
    (haccepting : s.stopAt = .outside → s.failure = none → s.Accepting)
    (h : RecorderMove s l s') (houtside : s'.stopAt = .outside) (hnone : s'.failure = none) :
    s'.Accepting := by
  obtain ⟨houtside, hl⟩ := stopAt_of_outside h houtside
  have hnone := failure_of_step h hnone
  have haccepting := haccepting houtside hnone
  have hclosed : s'.queue.closed = s.queue.closed := by
    rcases closed_of_move hrecording.stages h with hsame | hrun | hstop
    · exact hsame
    · exact absurd hrun (hrecording.writing.running hnone).noHandler.2
    · rw [houtside] at hstop
      cases hstop
  exact ⟨(stop_of_other h hl).2.1.trans haccepting.stopping, hclosed.trans haccepting.closed,
    push_step hrecording.stages haccepting h, fun p => (notRefused_step haccepting h p).1,
    fun p => (notRefused_step haccepting h p).2⟩

omit [DecidableEq P] in
theorem Accepting.new {path : String} {queueCapacity : ℕ} {writerOptions : WriterOptions}
    {device : Device} (h : AsyncRecorder.new path queueCapacity writerOptions device now = .ok s) :
    s.Accepting := by
  obtain ⟨writer, _, rfl⟩ := AsyncRecorder.new_eq h
  exact ⟨rfl, rfl, by simp [QueueState.new], by simp, by simp⟩

end AsyncRecorder

end Hpblr
