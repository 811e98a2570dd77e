import Hpblr.Queue.WakeUps
import Hpblr.Recorder.AsyncRecorder

/-!
# What a step of the recorder can do

The steps of the recorder as a relation with one constructor for each way through the code. The
queue of a recorder takes only steps of a queue with its threads, so it stays sound.
-/

namespace Hpblr

variable {P : Type*} [DecidableEq P]

/-- The steps of the recorder. -/
inductive RecorderMove (s : AsyncRecorder P) : RecorderLabel P → AsyncRecorder P → Prop
  -- `submit`
  | submitCalled {p : P} {event : Event} (houtside : ¬ (s.submitAt p).InCall) :
      RecorderMove s (.submit p event) (s.producerAt p (.checking event))
  | submitThrows {p : P} {event : Event} {e : Exception} {n : Option (RecorderThread P)}
      (hat : s.submitAt p = .checking event) (herror : s.writerError = some e) :
      RecorderMove s (.run (.producer p) n) (s.submitReturns p event (.threw e))
  | submitPasses {p : P} {event : Event} {n : Option (RecorderThread P)}
      (hat : s.submitAt p = .checking event) (herror : s.writerError = none) :
      RecorderMove s (.run (.producer p) n) (s.producerAt p (.loading event))
  | submitStopped {p : P} {event : Event} {n : Option (RecorderThread P)}
      (hat : s.submitAt p = .loading event) (hstopping : s.stopping = true) :
      RecorderMove s (.run (.producer p) n) (s.producerAt p (.rejecting event))
  | pushCalled {p : P} {event : Event} {n : Option (RecorderThread P)}
      {queue : QueueState (RecorderThread P) Event}
      (hat : s.submitAt p = .loading event) (hstopping : s.stopping = false)
      (hqueue : s.queue.step (.call (.producer p) (.push event)) = some queue) :
      RecorderMove s (.run (.producer p) n)
        { s with submitAt := Function.update s.submitAt p (.pushing event), queue := queue }
  | pushRuns {p : P} {event : Event} {n : Option (RecorderThread P)}
      {queue : QueueState (RecorderThread P) Event} (hat : s.submitAt p = .pushing event)
      (hqueue : s.queue.step (.run (.producer p) n) = some queue) :
      RecorderMove s (.run (.producer p) n) { s with queue := queue }
  | pushAccepted {p : P} {event : Event} {n : Option (RecorderThread P)}
      (hat : s.submitAt p = .pushing event)
      (hresult : s.queue.activity (.producer p) = .returned (.pushed true)) :
      RecorderMove s (.run (.producer p) n) (s.producerAt p (.counting event))
  | pushRefused {p : P} {event : Event} {n : Option (RecorderThread P)}
      (hat : s.submitAt p = .pushing event)
      (hresult : s.queue.activity (.producer p) = .returned (.pushed false)) :
      RecorderMove s (.run (.producer p) n) (s.producerAt p (.rejecting event))
  | submitRejects {p : P} {event : Event} {n : Option (RecorderThread P)}
      (hat : s.submitAt p = .rejecting event) :
      RecorderMove s (.run (.producer p) n)
        (AsyncRecorder.submitReturns { s with rejected := s.rejected + 1 } p event
          (.returned false))
  | submitCounts {p : P} {event : Event} {n : Option (RecorderThread P)}
      (hat : s.submitAt p = .counting event) :
      RecorderMove s (.run (.producer p) n)
        (AsyncRecorder.submitReturns { s with submitted := s.submitted + 1 } p event
          (.returned true))
  -- `run`
  | popCalled {n : Option (RecorderThread P)} {queue : QueueState (RecorderThread P) Event}
      (hat : s.runAt = .fetching) (hqueue : s.queue.step (.call .writer .pop) = some queue) :
      RecorderMove s (.run .writer n) { s with runAt := .popping, queue := queue }
  | popRuns {n : Option (RecorderThread P)} {queue : QueueState (RecorderThread P) Event}
      (hat : s.runAt = .popping) (hqueue : s.queue.step (.run .writer n) = some queue) :
      RecorderMove s (.run .writer n) { s with queue := queue }
  | popReturns {event : Event} {n : Option (RecorderThread P)} (hat : s.runAt = .popping)
      (hresult : s.queue.activity .writer = .returned (.popped (some event))) :
      RecorderMove s (.run .writer n) { s with runAt := .appending event }
  | popEnds {n : Option (RecorderThread P)} (hat : s.runAt = .popping)
      (hresult : s.queue.activity .writer = .returned (.popped none)) :
      RecorderMove s (.run .writer n) { s with runAt := .flushing }
  | appends {event : Event} {writer : BinaryLogWriter} {n : Option (RecorderThread P)}
      (hat : s.runAt = .appending event) (happend : s.writer.append event = (.ok (), writer)) :
      RecorderMove s (.run .writer n) { s with
        writer := writer, runAt := .counting, appended := s.appended ++ [event] }
  | appendFails {event : Event} {e : Exception} {writer : BinaryLogWriter}
      {n : Option (RecorderThread P)} (hat : s.runAt = .appending event)
      (happend : s.writer.append event = (.error e, writer)) :
      RecorderMove s (.run .writer n) { s with
        writer := writer, runAt := .settingError e, failure := some (.append event) }
  | counts {n : Option (RecorderThread P)} (hat : s.runAt = .counting) :
      RecorderMove s (.run .writer n) { s with written := s.written + 1, runAt := .fetching }
  | flushes {writer : BinaryLogWriter} {n : Option (RecorderThread P)} (hat : s.runAt = .flushing)
      (hflush : s.writer.flush = (.ok (), writer)) :
      RecorderMove s (.run .writer n) { s with writer := writer, runAt := .ended }
  | flushFails {e : Exception} {writer : BinaryLogWriter} {n : Option (RecorderThread P)}
      (hat : s.runAt = .flushing) (hflush : s.writer.flush = (.error e, writer)) :
      RecorderMove s (.run .writer n) { s with
        writer := writer, runAt := .settingError e, failure := some .flush }
  | setsError {e : Exception} {n : Option (RecorderThread P)}
      {queue : QueueState (RecorderThread P) Event} (hat : s.runAt = .settingError e)
      (hqueue : s.queue.step (.call .writer .close) = some queue) :
      RecorderMove s (.run .writer n) { s with
        writerError := (s.setWriterError e).writerError, runAt := .closing, queue := queue }
  | closeRuns {n : Option (RecorderThread P)} {queue : QueueState (RecorderThread P) Event}
      (hat : s.runAt = .closing) (hqueue : s.queue.step (.run .writer n) = some queue) :
      RecorderMove s (.run .writer n) { s with queue := queue }
  | closeReturns {n : Option (RecorderThread P)} (hat : s.runAt = .closing)
      (hresult : s.queue.activity .writer = .returned .closed) :
      RecorderMove s (.run .writer n) { s with runAt := .ended }
  -- `stop`
  | stopCalled (houtside : ¬ s.stopAt.InCall) :
      RecorderMove s .stop { s with stopAt := .exchanging }
  | exchangesAgain {n : Option (RecorderThread P)} (hat : s.stopAt = .exchanging)
      (hstopping : s.stopping = true) :
      RecorderMove s (.run .stopper n) { s with stopAt := .joining }
  | exchangesFirst {n : Option (RecorderThread P)} {queue : QueueState (RecorderThread P) Event}
      (hat : s.stopAt = .exchanging) (hstopping : s.stopping = false)
      (hqueue : s.queue.step (.call .stopper .close) = some queue) :
      RecorderMove s (.run .stopper n) { s with
        stopping := true, stopAt := .closing, queue := queue }
  | stopCloseRuns {n : Option (RecorderThread P)} {queue : QueueState (RecorderThread P) Event}
      (hat : s.stopAt = .closing) (hqueue : s.queue.step (.run .stopper n) = some queue) :
      RecorderMove s (.run .stopper n) { s with queue := queue }
  | stopCloseReturns {n : Option (RecorderThread P)} (hat : s.stopAt = .closing)
      (hresult : s.queue.activity .stopper = .returned .closed) :
      RecorderMove s (.run .stopper n) { s with stopAt := .joining }
  | joins {n : Option (RecorderThread P)} (hat : s.stopAt = .joining)
      (hjoinable : s.joinable = true) (hended : s.runAt = .ended) :
      RecorderMove s (.run .stopper n) { s with joinable := false, stopAt := .checking }
  | hasJoined {n : Option (RecorderThread P)} (hat : s.stopAt = .joining)
      (hjoinable : s.joinable = false) :
      RecorderMove s (.run .stopper n) { s with stopAt := .checking }
  | stopThrows {e : Exception} {n : Option (RecorderThread P)} (hat : s.stopAt = .checking)
      (herror : s.writerError = some e) :
      RecorderMove s (.run .stopper n) (s.stopReturns (.threw e))
  | stopReturns {n : Option (RecorderThread P)} (hat : s.stopAt = .checking)
      (herror : s.writerError = none) :
      RecorderMove s (.run .stopper n) (s.stopReturns .returned)
  -- wake-ups
  | wakes {t : RecorderThread P} {queue : QueueState (RecorderThread P) Event}
      (hqueue : s.queue.step (.wake t) = some queue) :
      RecorderMove s (.wake t) { s with queue := queue }

namespace AsyncRecorder

variable {s s' : AsyncRecorder P} {n : Option (RecorderThread P)}

theorem queueStep_eq_some {l : QueueLabel (RecorderThread P) Event}
    (h : s.queueStep l = some s') :
    ∃ queue, s.queue.step l = some queue ∧ s' = { s with queue := queue } := by
  cases hqueue : s.queue.step l with
  | none => simp [queueStep, hqueue] at h
  | some queue =>
    rw [queueStep, hqueue] at h
    exact ⟨queue, rfl, (Option.some.inj h).symm⟩

private theorem stepSubmit_move {p : P} (h : s.stepSubmit p n = some s') :
    RecorderMove s (.run (.producer p) n) s' := by
  unfold stepSubmit at h
  cases hat : s.submitAt p with
  | outside => simp [hat] at h
  | returned result => simp [hat] at h
  | checking event =>
    cases herror : s.writerError with
    | none =>
      simp only [hat, herror] at h
      cases h
      exact .submitPasses hat herror
    | some e =>
      simp only [hat, herror] at h
      cases h
      exact .submitThrows hat herror
  | loading event =>
    simp only [hat] at h
    by_cases hstopping : s.stopping = true
    · rw [if_pos hstopping] at h
      cases h
      exact .submitStopped hat hstopping
    · rw [if_neg hstopping] at h
      obtain ⟨queue, hqueue, rfl⟩ := queueStep_eq_some h
      exact .pushCalled hat (by simpa using hstopping) hqueue
  | pushing event =>
    simp only [hat] at h
    split at h
    · rename_i hresult
      cases h
      exact .pushAccepted hat hresult
    · rename_i hresult
      cases h
      exact .pushRefused hat hresult
    · obtain ⟨queue, hqueue, rfl⟩ := queueStep_eq_some h
      exact .pushRuns hat hqueue
  | rejecting event =>
    simp only [hat] at h
    cases h
    exact .submitRejects hat
  | counting event =>
    simp only [hat] at h
    cases h
    exact .submitCounts hat

private theorem stepRun_move (h : s.stepRun n = some s') : RecorderMove s (.run .writer n) s' := by
  unfold stepRun at h
  cases hat : s.runAt with
  | fetching =>
    simp only [hat] at h
    obtain ⟨queue, hqueue, rfl⟩ := queueStep_eq_some h
    exact .popCalled hat hqueue
  | popping =>
    simp only [hat] at h
    split at h
    · rename_i event hresult
      cases h
      exact .popReturns hat hresult
    · rename_i hresult
      cases h
      exact .popEnds hat hresult
    · obtain ⟨queue, hqueue, rfl⟩ := queueStep_eq_some h
      exact .popRuns hat hqueue
  | appending event =>
    simp only [hat] at h
    rcases happend : s.writer.append event with ⟨e | ⟨⟨⟩⟩, writer⟩
    · rw [happend] at h
      cases h
      exact .appendFails hat happend
    · rw [happend] at h
      cases h
      exact .appends hat happend
  | counting =>
    simp only [hat] at h
    cases h
    exact .counts hat
  | flushing =>
    simp only [hat] at h
    rcases hflush : s.writer.flush with ⟨e | ⟨⟨⟩⟩, writer⟩
    · rw [hflush] at h
      cases h
      exact .flushFails hat hflush
    · rw [hflush] at h
      cases h
      exact .flushes hat hflush
  | settingError e =>
    simp only [hat] at h
    obtain ⟨queue, hqueue, rfl⟩ := queueStep_eq_some h
    have hsame : (s.setWriterError e).queue = s.queue := by
      unfold setWriterError
      split <;> rfl
    rw [show ({ s.setWriterError e with runAt := .closing } : AsyncRecorder P).queue =
      (s.setWriterError e).queue from rfl, hsame] at hqueue
    have hstate : ({ s.setWriterError e with runAt := .closing, queue := queue } :
        AsyncRecorder P) = { s with
          writerError := (s.setWriterError e).writerError, runAt := .closing, queue := queue } := by
      unfold setWriterError
      split <;> rfl
    rw [hstate]
    exact .setsError hat hqueue
  | closing =>
    simp only [hat] at h
    split at h
    · rename_i hresult
      cases h
      exact .closeReturns hat hresult
    · obtain ⟨queue, hqueue, rfl⟩ := queueStep_eq_some h
      exact .closeRuns hat hqueue
  | ended => simp [hat] at h

private theorem stepStop_move (h : s.stepStop n = some s') :
    RecorderMove s (.run .stopper n) s' := by
  unfold stepStop at h
  cases hat : s.stopAt with
  | outside => simp [hat] at h
  | returned result => simp [hat] at h
  | exchanging =>
    simp only [hat] at h
    by_cases hstopping : s.stopping = true
    · rw [if_pos hstopping] at h
      cases h
      exact .exchangesAgain hat hstopping
    · rw [if_neg hstopping] at h
      obtain ⟨queue, hqueue, rfl⟩ := queueStep_eq_some h
      exact .exchangesFirst hat (by simpa using hstopping) hqueue
  | closing =>
    simp only [hat] at h
    split at h
    · rename_i hresult
      cases h
      exact .stopCloseReturns hat hresult
    · obtain ⟨queue, hqueue, rfl⟩ := queueStep_eq_some h
      exact .stopCloseRuns hat hqueue
  | joining =>
    simp only [hat] at h
    by_cases hjoinable : s.joinable = true
    · rw [if_pos hjoinable] at h
      split at h
      · rename_i hended
        cases h
        exact .joins hat hjoinable hended
      · cases h
    · rw [if_neg hjoinable] at h
      cases h
      exact .hasJoined hat (by simpa using hjoinable)
  | checking =>
    cases herror : s.writerError with
    | none =>
      simp only [hat, herror] at h
      cases h
      exact .stopReturns hat herror
    | some e =>
      simp only [hat, herror] at h
      cases h
      exact .stopThrows hat herror

/-- Every step is one of the moves. -/
theorem step_move {l : RecorderLabel P} (h : s.step l = some s') : RecorderMove s l s' := by
  cases l with
  | submit p event =>
    by_cases hin : (s.submitAt p).InCall
    · simp [step, hin] at h
    · rw [step, if_neg hin] at h
      cases h
      exact .submitCalled hin
  | stop =>
    by_cases hin : s.stopAt.InCall
    · simp [step, hin] at h
    · rw [step, if_neg hin] at h
      cases h
      exact .stopCalled hin
  | run t n =>
    cases t with
    | producer p => exact stepSubmit_move h
    | writer => exact stepRun_move h
    | stopper => exact stepStop_move h
  | wake t =>
    obtain ⟨queue, hqueue, rfl⟩ := queueStep_eq_some h
    exact .wakes hqueue

/-! ## What the other threads leave alone -/

/-- Only a producer itself moves on in `submit`. -/
theorem submitAt_of_other {l : RecorderLabel P} {p : P} (h : RecorderMove s l s')
    (hl : (∀ event, l ≠ .submit p event) ∧ ∀ n, l ≠ .run (.producer p) n) :
    s'.submitAt p = s.submitAt p := by
  have hother {p' : P} {stage : SubmitStage} (hne : p' ≠ p) :
      Function.update s.submitAt p' stage p = s.submitAt p :=
    Function.update_of_ne hne.symm stage s.submitAt
  cases h with
  | submitCalled => exact hother fun heq => hl.1 _ (by rw [heq])
  | submitThrows => exact hother fun heq => hl.2 _ (by rw [heq])
  | submitPasses => exact hother fun heq => hl.2 _ (by rw [heq])
  | submitStopped => exact hother fun heq => hl.2 _ (by rw [heq])
  | pushCalled => exact hother fun heq => hl.2 _ (by rw [heq])
  | pushAccepted => exact hother fun heq => hl.2 _ (by rw [heq])
  | pushRefused => exact hother fun heq => hl.2 _ (by rw [heq])
  | submitRejects => exact hother fun heq => hl.2 _ (by rw [heq])
  | submitCounts => exact hother fun heq => hl.2 _ (by rw [heq])
  | _ => rfl

/-- Only the background thread moves on in `run`. -/
theorem runAt_of_other {l : RecorderLabel P} (h : RecorderMove s l s')
    (hl : ∀ n, l ≠ .run .writer n) : s'.runAt = s.runAt := by
  cases h <;> first | rfl | exact absurd rfl (hl _)

/-- Only the stopping thread touches what belongs to `stop`. -/
theorem stop_of_other {l : RecorderLabel P} (h : RecorderMove s l s')
    (hl : l ≠ .stop ∧ ∀ n, l ≠ .run .stopper n) :
    s'.joinable = s.joinable ∧ s'.stopping = s.stopping ∧ s'.stopAt = s.stopAt ∧
      s'.stops = s.stops := by
  cases h <;> first | exact ⟨rfl, rfl, rfl, rfl⟩ | simp at hl

/-! ## The queue -/

/-- The queue stays or takes one step. -/
theorem queue_step {l : RecorderLabel P} (h : RecorderMove s l s') :
    s'.queue = s.queue ∨ ∃ l', s.queue.step l' = some s'.queue := by
  cases h with
  | pushCalled _ _ hqueue => exact Or.inr ⟨_, hqueue⟩
  | pushRuns _ hqueue => exact Or.inr ⟨_, hqueue⟩
  | popCalled _ hqueue => exact Or.inr ⟨_, hqueue⟩
  | popRuns _ hqueue => exact Or.inr ⟨_, hqueue⟩
  | setsError _ hqueue => exact Or.inr ⟨_, hqueue⟩
  | closeRuns _ hqueue => exact Or.inr ⟨_, hqueue⟩
  | exchangesFirst _ _ hqueue => exact Or.inr ⟨_, hqueue⟩
  | stopCloseRuns _ hqueue => exact Or.inr ⟨_, hqueue⟩
  | wakes hqueue => exact Or.inr ⟨_, hqueue⟩
  | _ => exact Or.inl rfl

/-- A run of the recorder contains a run of its queue. -/
theorem queue_run {labels : List (RecorderLabel P)}
    (h : Transition.run step s labels = some s') :
    ∃ labels', Transition.run QueueState.step s.queue labels' = some s'.queue := by
  refine Transition.run_project (fun s : AsyncRecorder P => s.queue) (fun {s s' l} hstep => ?_) h
  rcases queue_step (step_move hstep) with hsame | ⟨l', hqueue⟩
  · exact ⟨[], by rw [hsame, Transition.run_nil]⟩
  · exact ⟨[l'], Transition.run_cons.mpr ⟨_, hqueue, rfl⟩⟩

/-- The queue of the recorder stays sound. -/
theorem sound_step {l : RecorderLabel P} (hsound : s.queue.Sound) (h : RecorderMove s l s') :
    s'.queue.Sound := by
  rcases queue_step h with hsame | ⟨l', hqueue⟩
  · exact hsame ▸ hsound
  · exact hsound.step hqueue

end AsyncRecorder

end Hpblr
