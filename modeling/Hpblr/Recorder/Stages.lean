import Hpblr.Recorder.Moves

/-!
# Stages and the queue

A thread of the recorder is inside a call of the queue exactly where its stage says so, and it is
in the call that the stage names. With this, what a step of the queue does to the history depends
on the stage of the thread alone.
-/

namespace Hpblr

variable {P : Type*} [DecidableEq P]

/-! ## What the stages say about the queue -/

/-- Where a producer at this stage stands in the queue. -/
def SubmitStage.Matches : SubmitStage → Activity Event → Prop
  | .pushing event, a => a = .push event ∨ ∃ accepted, a = .returned (.pushed accepted)
  | _, a => ¬ a.InCall

/-- Where the background thread stands in the queue. -/
def RunStage.Matches : RunStage → Activity Event → Prop
  | .popping, a => a = .pop ∨ ∃ value, a = .returned (.popped value)
  | .closing, a => QueueMove.Closing a ∨ a = .returned .closed
  | _, a => ¬ a.InCall

/-- Where the stopping thread stands in the queue. -/
def StopStage.Matches : StopStage → Activity Event → Prop
  | .closing, a => QueueMove.Closing a ∨ a = .returned .closed
  | _, a => ¬ a.InCall

theorem SubmitStage.Matches.outside {stage : SubmitStage} {a : Activity Event}
    (h : stage.Matches a) (houtside : ¬ stage.InCall) : ¬ a.InCall := by
  cases stage with
  | pushing event => exact absurd trivial houtside
  | _ => exact h

theorem StopStage.Matches.outside {stage : StopStage} {a : Activity Event}
    (h : stage.Matches a) (houtside : ¬ stage.InCall) : ¬ a.InCall := by
  cases stage with
  | closing => exact absurd trivial houtside
  | _ => exact h

/-- A thread in `push` that is about to take a step is before its critical section. -/
theorem SubmitStage.Matches.push {event : Event} {a : Activity Event}
    (h : (SubmitStage.pushing event).Matches a) (hin : a.InCall) : a = .push event := by
  rcases h with hpush | ⟨accepted, rfl⟩
  · exact hpush
  · exact absurd hin id

theorem RunStage.Matches.pop {a : Activity Event} (h : RunStage.popping.Matches a)
    (hin : a.InCall) : a = .pop := by
  rcases h with hpop | ⟨value, rfl⟩
  · exact hpop
  · exact absurd hin id

theorem RunStage.Matches.closing {a : Activity Event} (h : RunStage.closing.Matches a)
    (hin : a.InCall) : QueueMove.Closing a := by
  rcases h with hclosing | rfl
  · exact hclosing
  · exact absurd hin id

theorem StopStage.Matches.closing {a : Activity Event} (h : StopStage.closing.Matches a)
    (hin : a.InCall) : QueueMove.Closing a := by
  rcases h with hclosing | rfl
  · exact hclosing
  · exact absurd hin id

namespace AsyncRecorder

/-- Every thread stands in the queue where its stage says. -/
structure Stages (s : AsyncRecorder P) : Prop where
  submit : ∀ p, (s.submitAt p).Matches (s.queue.activity (.producer p))
  run : s.runAt.Matches (s.queue.activity .writer)
  stop : s.stopAt.Matches (s.queue.activity .stopper)

variable {s s' : AsyncRecorder P} {q q' : QueueState (RecorderThread P) Event}
  {t u : RecorderThread P} {n : Option (RecorderThread P)} {l : RecorderLabel P}

omit [DecidableEq P] in
/-- A thread inside the queue is a producer in `push`, the background thread in `pop`, or the
background thread or the stopping thread in `close`. -/
theorem Stages.inCall_cases (hstages : s.Stages) (hin : (s.queue.activity t).InCall) :
    (∃ p event, t = .producer p ∧ s.submitAt p = .pushing event ∧
      s.queue.activity t = .push event) ∨
    (t = .writer ∧ s.runAt = .popping ∧ s.queue.activity t = .pop) ∨
    (QueueMove.Closing (s.queue.activity t) ∧
      ((t = .writer ∧ s.runAt = .closing) ∨ (t = .stopper ∧ s.stopAt = .closing))) := by
  cases t with
  | producer p =>
    have hsubmit := hstages.submit p
    cases hat : s.submitAt p with
    | pushing event =>
      rw [hat] at hsubmit
      exact Or.inl ⟨p, event, rfl, hat, hsubmit.push hin⟩
    | _ =>
      rw [hat] at hsubmit
      exact absurd hin hsubmit
  | writer =>
    have hrun := hstages.run
    cases hat : s.runAt with
    | popping =>
      rw [hat] at hrun
      exact Or.inr (Or.inl ⟨rfl, rfl, hrun.pop hin⟩)
    | closing =>
      rw [hat] at hrun
      exact Or.inr (Or.inr ⟨hrun.closing hin, Or.inl ⟨rfl, rfl⟩⟩)
    | _ =>
      rw [hat] at hrun
      exact absurd hin hrun
  | stopper =>
    have hstop := hstages.stop
    cases hat : s.stopAt with
    | closing =>
      rw [hat] at hstop
      exact Or.inr (Or.inr ⟨hstop.closing hin, Or.inr ⟨rfl, rfl⟩⟩)
    | _ =>
      rw [hat] at hstop
      exact absurd hin hstop

/-! ## Steps of the queue, seen from the recorder -/

theorem activity_call {c : QueueCall Event} (h : q.step (.call t c) = some q') :
    q'.activity = Function.update q.activity t c.entry := by
  obtain ⟨rfl, _⟩ := (QueueState.step_move h).of_call
  rfl

theorem activity_call_of_ne {c : QueueCall Event} (h : q.step (.call t c) = some q')
    (hne : u ≠ t) : q'.activity u = q.activity u := by
  rw [activity_call h, Function.update_of_ne hne]

theorem activity_run_of_ne (h : q.step (.run t n) = some q') (hne : u ≠ t) :
    q'.activity u = q.activity u :=
  (QueueState.step_move h).activity_of_ne hne

theorem activity_wake (h : q.step (.wake t) = some q') : q'.activity = q.activity :=
  (QueueState.step_move h).of_wake.1

/-- A thread that closes the queue gets to the next stage of `close`, or to its end. -/
theorem closing_run (hclosing : QueueMove.Closing (q.activity t))
    (h : q.step (.run t n) = some q') :
    QueueMove.Closing (q'.activity t) ∨ q'.activity t = .returned .closed := by
  rcases ((QueueState.step_move h).of_close hclosing).2.2.2 with
    ⟨_, _, hstage⟩ | ⟨_, _, hstage⟩ | ⟨_, _, hstage⟩
  · exact Or.inl (by rw [hstage, Function.update_self]; trivial)
  · exact Or.inl (by rw [hstage, Function.update_self]; trivial)
  · exact Or.inr (by rw [hstage, Function.update_self])

/-- The steps of the other threads leave a thread where it stands in the queue. -/
theorem activity_of_other (h : RecorderMove s l s') (hl : ∀ n, l ≠ .run t n) :
    s'.queue.activity t = s.queue.activity t := by
  have hne {u : RecorderThread P} {n : Option (RecorderThread P)} (heq : l = .run u n) : t ≠ u :=
    fun hsame => hl n (by rw [heq, hsame])
  cases h with
  | pushCalled _ _ hqueue => exact activity_call_of_ne hqueue (hne rfl)
  | pushRuns _ hqueue => exact activity_run_of_ne hqueue (hne rfl)
  | popCalled _ hqueue => exact activity_call_of_ne hqueue (hne rfl)
  | popRuns _ hqueue => exact activity_run_of_ne hqueue (hne rfl)
  | setsError _ hqueue => exact activity_call_of_ne hqueue (hne rfl)
  | closeRuns _ hqueue => exact activity_run_of_ne hqueue (hne rfl)
  | exchangesFirst _ _ hqueue => exact activity_call_of_ne hqueue (hne rfl)
  | stopCloseRuns _ hqueue => exact activity_run_of_ne hqueue (hne rfl)
  | wakes hqueue => exact congrFun (activity_wake hqueue) t
  | _ => rfl

/-! ## The stages are kept -/

private theorem submit_step (hstages : s.Stages) (h : RecorderMove s l s') (p : P) :
    (s'.submitAt p).Matches (s'.queue.activity (.producer p)) := by
  have hsubmit := hstages.submit p
  by_cases hrun : ∃ n, l = .run (.producer p) n
  · obtain ⟨n, rfl⟩ := hrun
    -- Between stages that say the same about the queue, the producer stays where it is there.
    have hnext {stage stage' : SubmitStage} (hat : s.submitAt p = stage)
        (hsame : stage.Matches (s.queue.activity (.producer p)) →
          stage'.Matches (s.queue.activity (.producer p))) :
        (Function.update s.submitAt p stage' p).Matches (s.queue.activity (.producer p)) := by
      rw [Function.update_self]
      exact hsame (hat ▸ hsubmit)
    cases h with
    | submitThrows hat => exact hnext hat id
    | submitPasses hat => exact hnext hat id
    | submitStopped hat => exact hnext hat id
    | submitRejects hat => exact hnext hat id
    | submitCounts hat => exact hnext hat id
    | pushCalled _ _ hqueue =>
      dsimp only
      rw [Function.update_self, activity_call hqueue, Function.update_self]
      exact Or.inl rfl
    | pushRuns hat hqueue =>
      dsimp only
      rw [hat] at hsubmit ⊢
      have hmove := QueueState.step_move hqueue
      have hpush := hsubmit.push hmove.inCall
      rcases (hmove.of_push hpush).2.2 with ⟨hsame, _⟩ | ⟨hresult, _⟩ | ⟨_, hresult, _⟩
      · exact Or.inl (by rw [hsame, hpush])
      · exact Or.inr ⟨_, by rw [hresult, Function.update_self]⟩
      · exact Or.inr ⟨_, by rw [hresult, Function.update_self]⟩
    | pushAccepted hat hresult => exact hnext hat fun _ => by rw [hresult]; exact id
    | pushRefused hat hresult => exact hnext hat fun _ => by rw [hresult]; exact id
  · rw [activity_of_other h (not_exists.mp hrun)]
    by_cases hcall : ∃ event, l = .submit p event
    · obtain ⟨event, rfl⟩ := hcall
      cases h with
      | submitCalled houtside =>
        dsimp only [producerAt]
        rw [Function.update_self]
        exact hsubmit.outside houtside
    · rwa [submitAt_of_other h ⟨not_exists.mp hcall, not_exists.mp hrun⟩]

private theorem run_step (hstages : s.Stages) (h : RecorderMove s l s') :
    s'.runAt.Matches (s'.queue.activity .writer) := by
  have hrun := hstages.run
  by_cases hl : ∃ n, l = .run .writer n
  · obtain ⟨n, rfl⟩ := hl
    cases h with
    | popCalled _ hqueue =>
      dsimp only
      rw [activity_call hqueue, Function.update_self]
      exact Or.inl rfl
    | popRuns hat hqueue =>
      dsimp only
      rw [hat] at hrun ⊢
      have hmove := QueueState.step_move hqueue
      have hpop := hrun.pop hmove.inCall
      rcases (hmove.of_pop hpop).2.2 with
        ⟨hsame, _⟩ | ⟨_, _, _, hresult, _⟩ | ⟨value, _, hresult, _⟩
      · exact Or.inl (by rw [hsame, hpop])
      · exact Or.inr ⟨_, by rw [hresult, Function.update_self]⟩
      · exact Or.inr ⟨_, by rw [hresult, Function.update_self]⟩
    | popReturns hat hresult =>
      dsimp only
      rw [hresult]
      exact id
    | popEnds hat hresult =>
      dsimp only
      rw [hresult]
      exact id
    | appends hat => rwa [hat] at hrun
    | appendFails hat => rwa [hat] at hrun
    | counts hat => rwa [hat] at hrun
    | flushes hat => rwa [hat] at hrun
    | flushFails hat => rwa [hat] at hrun
    | setsError _ hqueue =>
      dsimp only
      rw [activity_call hqueue, Function.update_self]
      exact Or.inl trivial
    | closeRuns hat hqueue =>
      dsimp only
      rw [hat] at hrun ⊢
      exact closing_run (hrun.closing (QueueState.step_move hqueue).inCall) hqueue
    | closeReturns hat hresult =>
      dsimp only
      rw [hresult]
      exact id
  · rwa [runAt_of_other h (not_exists.mp hl), activity_of_other h (not_exists.mp hl)]

private theorem stop_step (hstages : s.Stages) (h : RecorderMove s l s') :
    s'.stopAt.Matches (s'.queue.activity .stopper) := by
  have hstop := hstages.stop
  by_cases hrun : ∃ n, l = .run .stopper n
  · obtain ⟨n, rfl⟩ := hrun
    cases h with
    | exchangesAgain hat => rwa [hat] at hstop
    | exchangesFirst _ _ hqueue =>
      dsimp only
      rw [activity_call hqueue, Function.update_self]
      exact Or.inl trivial
    | stopCloseRuns hat hqueue =>
      dsimp only
      rw [hat] at hstop ⊢
      exact closing_run (hstop.closing (QueueState.step_move hqueue).inCall) hqueue
    | stopCloseReturns hat hresult =>
      dsimp only
      rw [hresult]
      exact id
    | joins hat => rwa [hat] at hstop
    | hasJoined hat => rwa [hat] at hstop
    | stopThrows hat => rwa [hat] at hstop
    | stopReturns hat => rwa [hat] at hstop
  · rw [activity_of_other h (not_exists.mp hrun)]
    by_cases hcall : l = .stop
    · subst hcall
      cases h with
      | stopCalled houtside => exact hstop.outside houtside
    · rwa [(stop_of_other h ⟨hcall, not_exists.mp hrun⟩).2.2.1]

/-- Every step keeps the stages and the queue together. -/
theorem Stages.step (hstages : s.Stages) (h : RecorderMove s l s') : s'.Stages where
  submit := submit_step hstages h
  run := run_step hstages h
  stop := stop_step hstages h

omit [DecidableEq P] in
theorem Stages.new {path : String} {queueCapacity : ℕ} {writerOptions : WriterOptions}
    {device : Device} {now : UInt64}
    (h : AsyncRecorder.new path queueCapacity writerOptions device now = .ok s) : s.Stages := by
  obtain ⟨writer, _, rfl⟩ := AsyncRecorder.new_eq h
  exact ⟨fun _ => id, id, id⟩

end AsyncRecorder

end Hpblr
