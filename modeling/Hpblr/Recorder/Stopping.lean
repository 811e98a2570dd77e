import Hpblr.Recorder.Accounting
import Hpblr.Recorder.Writing

/-!
# Stopping the recorder

A call of `stop` completes only after the background thread has ended, and it throws exactly when
the writer has failed. Everything that is known of a reachable state is collected at the end.
-/

namespace Hpblr

variable {P : Type*} [DecidableEq P]

namespace AsyncRecorder

/-- What the calls of `stop` have done so far. -/
structure Stopping (s : AsyncRecorder P) : Prop where
  joined : s.joinable = false → s.runAt = .ended
  checking : s.stopAt = .checking → s.runAt = .ended
  /-- Completed calls have waited for the background thread, and report its failure. -/
  stops : ∀ r ∈ s.stops, s.runAt = .ended ∧ (r = .returned ↔ s.failure = none)
  /-- The call that has just completed is one of them. -/
  returned : ∀ r, s.stopAt = .returned r → r ∈ s.stops
  /-- The flag is set before the queue is closed. -/
  stopping : s.stopping = true → s.stopAt = .closing ∨ s.queue.closed = true
  joining : s.stopAt = .joining → s.queue.closed = true

variable {s s' : AsyncRecorder P} {n : Option (RecorderThread P)} {l : RecorderLabel P}
  {now : UInt64}

/-- The background thread that has ended does nothing more. -/
theorem ended_step (h : RecorderMove s l s') (hended : s.runAt = .ended) :
    s'.runAt = .ended ∧ s'.failure = s.failure := by
  cases h <;> simp_all [producerAt, submitReturns, AsyncRecorder.stopReturns]

omit [DecidableEq P] in
/-- When the background thread has ended, the writer error tells whether the writer failed. -/
theorem Writing.writerError_iff (hwriting : s.Writing now) (hended : s.runAt = .ended) :
    s.writerError = none ↔ s.failure = none := by
  constructor
  · intro herror
    cases hfailure : s.failure with
    | none => rfl
    | some failure =>
      rcases (hwriting.failed failure hfailure).handler with ⟨e, he⟩ | ⟨_, hsome⟩
      · rw [hended] at he
        cases he
      · exact absurd herror hsome
  · intro hnone
    exact (hwriting.running hnone).writerError

omit [DecidableEq P] in
/-- The queue is closed when the background thread has ended. -/
theorem Writing.closed_of_ended (hwriting : s.Writing now) (hended : s.runAt = .ended) :
    s.queue.closed = true := by
  cases hfailure : s.failure with
  | none => exact ((hwriting.running hfailure).drained (Or.inr hended)).1
  | some failure => exact (hwriting.failed failure hfailure).closed hended

omit [DecidableEq P] in
/-- A call of `stop` completes, and throws exactly when the writer error is set. -/
private theorem Stopping.returns (hstopping : s.Stopping) (hwriting : s.Writing now)
    (hat : s.stopAt = .checking) {result : StopResult}
    (hresult : result = .returned ↔ s.writerError = none) : (s.stopReturns result).Stopping := by
  have hended := hstopping.checking hat
  refine ⟨hstopping.joined, by simp [AsyncRecorder.stopReturns], ?_,
    by simp [AsyncRecorder.stopReturns], fun _ => Or.inr (hwriting.closed_of_ended hended),
    by simp [AsyncRecorder.stopReturns]⟩
  intro r hmem
  rcases List.mem_append.mp hmem with hold | hnew
  · exact hstopping.stops r hold
  · rw [List.mem_singleton.mp hnew]
    exact ⟨hended, hresult.trans (hwriting.writerError_iff hended)⟩

private theorem Stopping.step_stopper (hstopping : s.Stopping) (hwriting : s.Writing now)
    (hsound : s.queue.Sound) (h : RecorderMove s (.run .stopper n) s') : s'.Stopping := by
  have hqueue := queue_step h
  cases h with
  | exchangesAgain hat hflag =>
    refine ⟨hstopping.joined, by simp, hstopping.stops, by simp, fun _ => ?_, fun _ => ?_⟩
    · exact Or.inr ((hstopping.stopping hflag).resolve_left (by simp [hat]))
    · exact (hstopping.stopping hflag).resolve_left (by simp [hat])
  | exchangesFirst =>
    exact ⟨hstopping.joined, by simp, hstopping.stops, by simp, fun _ => Or.inl rfl, by simp⟩
  | stopCloseRuns hat =>
    exact ⟨hstopping.joined, hstopping.checking, hstopping.stops, hstopping.returned,
      fun _ => Or.inl hat, by simp [hat]⟩
  | stopCloseReturns _ hresult =>
    have hclosed := hsound.channel.closing _ (Or.inr (Or.inr hresult))
    exact ⟨hstopping.joined, by simp, hstopping.stops, by simp, fun _ => Or.inr hclosed,
      fun _ => hclosed⟩
  | joins hat _ hended =>
    exact ⟨fun _ => hended, fun _ => hended, hstopping.stops, by simp,
      fun _ => Or.inr (hstopping.joining hat), by simp⟩
  | hasJoined hat hjoinable =>
    exact ⟨hstopping.joined, fun _ => hstopping.joined hjoinable, hstopping.stops, by simp,
      fun _ => Or.inr (hstopping.joining hat), by simp⟩
  | stopThrows hat herror => exact hstopping.returns hwriting hat (by simp [herror])
  | stopReturns hat herror => exact hstopping.returns hwriting hat (by simp [herror])

/-- Every step keeps what is known of `stop`. -/
theorem Stopping.step (hstopping : s.Stopping) (hwriting : s.Writing now)
    (hsound : s.queue.Sound) (h : RecorderMove s l s') : s'.Stopping := by
  by_cases hstop : l = .stop
  · subst hstop
    cases h with
    | stopCalled houtside =>
      refine ⟨hstopping.joined, by simp, hstopping.stops, by simp, fun hflag => Or.inr ?_,
        by simp⟩
      refine (hstopping.stopping hflag).resolve_left fun hat => houtside ?_
      rw [hat]
      trivial
  · by_cases hrun : ∃ n, l = .run .stopper n
    · obtain ⟨n, rfl⟩ := hrun
      exact hstopping.step_stopper hwriting hsound h
    · obtain ⟨hjoinable, hflag, hat, hstops⟩ := stop_of_other h ⟨hstop, not_exists.mp hrun⟩
      have hqueue := queue_step h
      refine ⟨?_, ?_, ?_, ?_, ?_, ?_⟩
      · rw [hjoinable]
        exact fun hjoined => (ended_step h (hstopping.joined hjoined)).1
      · rw [hat]
        exact fun hchecking => (ended_step h (hstopping.checking hchecking)).1
      · rw [hstops]
        intro r hmem
        obtain ⟨hended, hreports⟩ := hstopping.stops r hmem
        obtain ⟨hended', hfailure⟩ := ended_step h hended
        exact ⟨hended', hfailure ▸ hreports⟩
      · rw [hat, hstops]
        exact hstopping.returned
      · rw [hflag, hat]
        exact fun hset => (hstopping.stopping hset).imp_right (closed_of_step hqueue)
      · rw [hat]
        exact fun hjoining => closed_of_step hqueue (hstopping.joining hjoining)

omit [DecidableEq P] in
theorem Stopping.new {path : String} {queueCapacity : ℕ} {writerOptions : WriterOptions}
    {device : Device} (h : AsyncRecorder.new path queueCapacity writerOptions device now = .ok s) :
    s.Stopping := by
  obtain ⟨writer, _, rfl⟩ := AsyncRecorder.new_eq h
  exact ⟨by simp, by simp, by simp, by simp, by simp, by simp⟩

/-! ## Reachable states -/

/-- What is known of a reachable state. -/
structure Recording (s : AsyncRecorder P) (now : UInt64) : Prop where
  queue : s.queue.Sound
  stages : s.Stages
  accounts : s.Accounts
  writing : s.Writing now
  stopping : s.Stopping

theorem Recording.step (hrecording : s.Recording now) (h : s.step l = some s') :
    s'.Recording now := by
  have hmove := step_move h
  exact ⟨sound_step hrecording.queue hmove, hrecording.stages.step hmove,
    hrecording.accounts.step hrecording.stages hmove,
    hrecording.writing.step hrecording.stages hrecording.queue hmove,
    hrecording.stopping.step hrecording.writing hrecording.queue hmove⟩

theorem Recording.new {path : String} {queueCapacity : ℕ} {writerOptions : WriterOptions}
    {device : Device} (h : AsyncRecorder.new path queueCapacity writerOptions device now = .ok s) :
    s.Recording now := by
  have hqueue : s.queue.Sound := by
    obtain ⟨writer, _, rfl⟩ := AsyncRecorder.new_eq h
    exact .new queueCapacity
  exact ⟨hqueue, .new h, .new h, .new h, .new h⟩

/-- Every state that a run of a new recorder reaches is known that well. -/
theorem recording_of_run {path : String} {queueCapacity : ℕ} {writerOptions : WriterOptions}
    {device : Device} {labels : List (RecorderLabel P)}
    (hnew : AsyncRecorder.new path queueCapacity writerOptions device now = .ok s)
    (hrun : Transition.run step s labels = some s') : s'.Recording now :=
  Transition.run_invariant (I := fun s => s.Recording now) (fun h hstep => h.step hstep)
    (Recording.new hnew) hrun

/-- A run that can be computed, and what can be checked of the state it reaches. -/
theorem exists_run (path : String) (queueCapacity : ℕ) (writerOptions : WriterOptions)
    (device : Device) (now : UInt64) (labels : List (RecorderLabel P)) (Q : AsyncRecorder P → Prop)
    [DecidablePred Q]
    (h : (match AsyncRecorder.new path queueCapacity writerOptions device now with
      | .ok s₀ => (Transition.run step s₀ labels).any (fun s => decide (Q s))
      | .error _ => false) = true) :
    ∃ s₀ s, AsyncRecorder.new path queueCapacity writerOptions device now = .ok s₀ ∧
      Transition.run step s₀ labels = some s ∧ Q s := by
  split at h
  · rename_i s₀ hnew
    rw [Option.any_eq_true] at h
    obtain ⟨s, hrun, hQ⟩ := h
    exact ⟨s₀, s, hnew, hrun, of_decide_eq_true hQ⟩
  · cases h

end AsyncRecorder

end Hpblr
