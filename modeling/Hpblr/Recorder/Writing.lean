import Hpblr.BinaryLog.RoundTrip
import Hpblr.Recorder.Stages

/-!
# What the background thread writes

The events handed out by the queue have been appended to the log, in their order, apart from the
one on which the background thread is at work or has failed. While nothing has failed, the writer
refines the direct writer that has stored the appended events; after a failure, the error is
reported and the queue closed before the thread ends.
-/

namespace Hpblr

variable {P : Type*} [DecidableEq P]

namespace AsyncRecorder

/-- The event that is out of the queue and not yet appended. -/
def inFlight : RunStage → Activity Event → List Event
  | .popping, .returned (.popped (some event)) => [event]
  | .appending event, _ => [event]
  | _, _ => []

/-- The event on which `append` failed. -/
def lost : Option WriterFailure → List Event
  | some (.append event) => [event]
  | _ => []

/-- Whether an appended event is not counted yet. -/
def uncounted : RunStage → UInt64
  | .counting => 1
  | _ => 0

/-- The background thread as long as nothing has failed. -/
structure Running (s : AsyncRecorder P) (now : UInt64) : Prop where
  writerError : s.writerError = none
  noHandler : (∀ e, s.runAt ≠ .settingError e) ∧ s.runAt ≠ .closing
  refines : ∃ d, s.writer.Refines d now s.appended
  good : s.writer.out.failed = false
  drained : s.runAt = .flushing ∨ s.runAt = .ended → s.queue.closed = true ∧ s.queue.queue = []
  flushed : s.runAt = .ended → s.writer.buffer = [] ∧ s.writer.out.pending = []

/-- The background thread after a failure. -/
structure Failed (s : AsyncRecorder P) (failure : WriterFailure) : Prop where
  handler : (∃ e, s.runAt = .settingError e) ∨
    ((s.runAt = .closing ∨ s.runAt = .ended) ∧ s.writerError ≠ none)
  closed : s.runAt = .ended → s.queue.closed = true
  drained : failure = .flush → s.queue.closed = true ∧ s.queue.queue = []

/-- What the background thread has done so far. -/
structure Writing (s : AsyncRecorder P) (now : UInt64) : Prop where
  handed : s.queue.handed =
    s.appended ++ (inFlight s.runAt (s.queue.activity .writer) ++ lost s.failure)
  written : s.written + uncounted s.runAt = UInt64.ofNat s.appended.length
  fits : ∀ event ∈ s.appended, event.payload.length ≤ kMaxPayloadBytes
  running : s.failure = none → s.Running now
  failed : ∀ failure, s.failure = some failure → s.Failed failure

variable {s s' : AsyncRecorder P} {q q' : QueueState (RecorderThread P) Event}
  {t : RecorderThread P} {n : Option (RecorderThread P)} {l : RecorderLabel P} {now : UInt64}

/-! ## Steps of the other threads -/

theorem handed_call {c : QueueCall Event} (h : q.step (.call t c) = some q') :
    q'.handed = q.handed := by
  obtain ⟨rfl, _⟩ := (QueueState.step_move h).of_call
  rfl

theorem handed_wake (h : q.step (.wake t) = some q') : q'.handed = q.handed :=
  (QueueState.step_move h).of_wake.2.2.1

/-- Only the background thread is ever in `pop`, so a step of another thread hands nothing out. -/
theorem handed_run (hstages : s.Stages) (h : s.queue.step (.run t n) = some q')
    (ht : t ≠ .writer) : q'.handed = s.queue.handed := by
  have hmove := QueueState.step_move h
  rcases hstages.inCall_cases hmove.inCall with ⟨_, _, _, _, hpush⟩ | ⟨hwriter, _⟩ | ⟨hclosing, _⟩
  · exact (hmove.of_push hpush).1
  · exact absurd hwriter ht
  · exact (hmove.of_close hclosing).2.1

/-- A closed queue stays closed, and a drained one drained, whatever step it takes. -/
theorem closed_of_step (h : q' = q ∨ ∃ l, q.step l = some q') (hclosed : q.closed = true) :
    q'.closed = true := by
  rcases h with rfl | ⟨l, hstep⟩
  · exact hclosed
  · exact ((QueueState.step_move hstep).accepted_of_closed hclosed).1

theorem drained_of_step (h : q' = q ∨ ∃ l, q.step l = some q')
    (hdrained : q.closed = true ∧ q.queue = []) : q'.closed = true ∧ q'.queue = [] := by
  rcases h with rfl | ⟨l, hstep⟩
  · exact hdrained
  · exact QueueState.drained_step (QueueState.step_move hstep) hdrained

/-- The part of the state that belongs to the background thread. -/
structure SameWriter (s s' : AsyncRecorder P) : Prop where
  writer : s'.writer = s.writer
  runAt : s'.runAt = s.runAt
  written : s'.written = s.written
  writerError : s'.writerError = s.writerError
  appended : s'.appended = s.appended
  failure : s'.failure = s.failure
  handed : s'.queue.handed = s.queue.handed
  activity : s'.queue.activity .writer = s.queue.activity .writer
  queue : s'.queue = s.queue ∨ ∃ l, s.queue.step l = some s'.queue

/-- The other threads do not touch that part. -/
theorem sameWriter_of_move (hstages : s.Stages) (h : RecorderMove s l s')
    (hl : ∀ n, l ≠ .run .writer n) : SameWriter s s' := by
  have hqueue := queue_step h
  cases h with
  | pushCalled _ _ hstep =>
    exact ⟨rfl, rfl, rfl, rfl, rfl, rfl, handed_call hstep,
      activity_call_of_ne hstep (by simp), hqueue⟩
  | pushRuns _ hstep =>
    exact ⟨rfl, rfl, rfl, rfl, rfl, rfl, handed_run hstages hstep (by simp),
      activity_run_of_ne hstep (by simp), hqueue⟩
  | exchangesFirst _ _ hstep =>
    exact ⟨rfl, rfl, rfl, rfl, rfl, rfl, handed_call hstep,
      activity_call_of_ne hstep (by simp), hqueue⟩
  | stopCloseRuns _ hstep =>
    exact ⟨rfl, rfl, rfl, rfl, rfl, rfl, handed_run hstages hstep (by simp),
      activity_run_of_ne hstep (by simp), hqueue⟩
  | wakes hstep =>
    exact ⟨rfl, rfl, rfl, rfl, rfl, rfl, handed_wake hstep,
      congrFun (activity_wake hstep) _, hqueue⟩
  | _ => first | exact absurd rfl (hl _) | exact ⟨rfl, rfl, rfl, rfl, rfl, rfl, rfl, rfl, hqueue⟩

/-- The steps of the other threads keep what is known of the background thread. -/
theorem Writing.frame (hwriting : s.Writing now) (h : SameWriter s s') : s'.Writing now where
  handed := by
    rw [h.handed, h.appended, h.runAt, h.activity, h.failure]
    exact hwriting.handed
  written := by
    rw [h.written, h.runAt, h.appended]
    exact hwriting.written
  fits := by
    rw [h.appended]
    exact hwriting.fits
  running := by
    intro hfailure
    have hrunning := hwriting.running (h.failure ▸ hfailure)
    refine ⟨by rw [h.writerError]; exact hrunning.writerError, ?_, ?_, ?_, ?_, ?_⟩
    · rw [h.runAt]
      exact hrunning.noHandler
    · rw [h.writer, h.appended]
      exact hrunning.refines
    · rw [h.writer]
      exact hrunning.good
    · rw [h.runAt]
      exact fun hstage => drained_of_step h.queue (hrunning.drained hstage)
    · rw [h.runAt, h.writer]
      exact hrunning.flushed
  failed := by
    intro failure hfailure
    have hfailed := hwriting.failed failure (h.failure ▸ hfailure)
    refine ⟨?_, ?_, fun hflush => drained_of_step h.queue (hfailed.drained hflush)⟩
    · rw [h.runAt, h.writerError]
      exact hfailed.handler
    · rw [h.runAt]
      exact fun hended => closed_of_step h.queue (hfailed.closed hended)

/-! ## Steps of the background thread -/

omit [DecidableEq P] in
/-- Outside the handler and before the end, nothing has failed. -/
theorem Writing.failure_eq_none (hwriting : s.Writing now)
    (hstage : (∀ e, s.runAt ≠ .settingError e) ∧ s.runAt ≠ .closing ∧ s.runAt ≠ .ended) :
    s.failure = none := by
  cases hfailure : s.failure with
  | none => rfl
  | some failure =>
    rcases (hwriting.failed failure hfailure).handler with ⟨e, he⟩ | ⟨hclosing | hended, _⟩
    · exact absurd he (hstage.1 e)
    · exact absurd hclosing hstage.2.1
    · exact absurd hended hstage.2.2

omit [DecidableEq P] in
/-- When the background thread has ended without a failure, everything is in the file. -/
theorem Writing.content_of_ended (hwriting : s.Writing now) (hended : s.runAt = .ended)
    (hfailure : s.failure = none) :
    s.writer.out.content = fileHeader 0 now 0 ++ encodeRecords s.appended := by
  have hrunning := hwriting.running hfailure
  obtain ⟨d, hrefines⟩ := hrunning.refines
  obtain ⟨hbuffer, hpending⟩ := hrunning.flushed hended
  exact hrefines.content_of_closed hbuffer hpending

omit [DecidableEq P] in
/-- In the handler, something has failed. -/
theorem Writing.exists_failure (hwriting : s.Writing now)
    (hstage : (∃ e, s.runAt = .settingError e) ∨ s.runAt = .closing) :
    ∃ failure, s.failure = some failure := by
  cases hfailure : s.failure with
  | none =>
    have hrunning := hwriting.running hfailure
    rcases hstage with ⟨e, he⟩ | hclosing
    · exact absurd he (hrunning.noHandler.1 e)
    · exact absurd hclosing hrunning.noHandler.2
  | some failure => exact ⟨failure, rfl⟩

/-- The events handed out are the appended ones and the one at work. -/
private theorem handed_step (hstages : s.Stages) (hwriting : s.Writing now)
    (h : RecorderMove s (.run .writer n) s') : s'.queue.handed =
      s'.appended ++ (inFlight s'.runAt (s'.queue.activity .writer) ++ lost s'.failure) := by
  have hhanded := hwriting.handed
  have hrun := hstages.run
  cases h with
  | popCalled hat hqueue =>
    rw [hat] at hhanded
    dsimp only
    rw [handed_call hqueue, activity_call hqueue, Function.update_self]
    exact hhanded
  | popRuns hat hqueue =>
    have hmove := QueueState.step_move hqueue
    rw [hat] at hrun
    have hpop := hrun.pop hmove.inCall
    have hnone := hwriting.failure_eq_none (by simp [hat])
    rw [hat, hpop, hnone] at hhanded
    dsimp only
    rw [hat, hnone]
    rcases (hmove.of_pop hpop).2.2 with ⟨hsame, hout, _⟩ | ⟨_, _, _, hresult, hout⟩ |
      ⟨event, _, hresult, hout⟩
    · rw [hsame, hpop, hout]
      exact hhanded
    · rw [hresult, hout, Function.update_self]
      exact hhanded
    · rw [hresult, hout, Function.update_self, hhanded]
      simp [inFlight, lost]
  | popReturns hat hresult =>
    rw [hat, hresult] at hhanded
    exact hhanded
  | popEnds hat hresult =>
    rw [hat, hresult] at hhanded
    exact hhanded
  | appends hat =>
    have hnone := hwriting.failure_eq_none (by simp [hat])
    rw [hat, hnone] at hhanded
    dsimp only
    rw [hhanded, hnone]
    simp [inFlight, lost]
  | appendFails hat =>
    rw [hat, hwriting.failure_eq_none (by simp [hat])] at hhanded
    exact hhanded
  | counts hat =>
    rw [hat] at hhanded
    exact hhanded
  | flushes hat =>
    rw [hat] at hhanded
    exact hhanded
  | flushFails hat =>
    rw [hat, hwriting.failure_eq_none (by simp [hat])] at hhanded
    exact hhanded
  | setsError hat hqueue =>
    rw [hat] at hhanded
    dsimp only
    rw [handed_call hqueue]
    exact hhanded
  | closeRuns hat hqueue =>
    have hmove := QueueState.step_move hqueue
    rw [hat] at hrun hhanded
    dsimp only
    rw [(hmove.of_close (hrun.closing hmove.inCall)).2.1, hat]
    exact hhanded
  | closeReturns hat =>
    rw [hat] at hhanded
    exact hhanded

/-- The counter follows the appended events. -/
private theorem written_step (hwriting : s.Writing now)
    (h : RecorderMove s (.run .writer n) s') :
    s'.written + uncounted s'.runAt = UInt64.ofNat s'.appended.length := by
  have hwritten := hwriting.written
  cases h with
  | popRuns => exact hwritten
  | closeRuns => exact hwritten
  | appends hat =>
    rw [hat] at hwritten
    simp only [uncounted, UInt64.add_zero] at hwritten ⊢
    simp [hwritten, UInt64.ofNat_add]
  | counts hat =>
    rw [hat] at hwritten
    simpa [uncounted] using hwritten
  | popCalled hat => rwa [hat] at hwritten
  | popReturns hat => rwa [hat] at hwritten
  | popEnds hat => rwa [hat] at hwritten
  | appendFails hat => rwa [hat] at hwritten
  | flushes hat => rwa [hat] at hwritten
  | flushFails hat => rwa [hat] at hwritten
  | setsError hat => rwa [hat] at hwritten
  | closeReturns hat => rwa [hat] at hwritten

private theorem fits_step (hwriting : s.Writing now) (h : RecorderMove s (.run .writer n) s') :
    ∀ event ∈ s'.appended, event.payload.length ≤ kMaxPayloadBytes := by
  cases h with
  | @appends event _ _ hat happend =>
    intro event' hmem
    rcases List.mem_append.mp hmem with hold | hnew
    · exact hwriting.fits event' hold
    · have hrunning := hwriting.running (hwriting.failure_eq_none (by simp [hat]))
      rw [List.mem_singleton.mp hnew]
      exact (BinaryLogWriter.append_ok hrunning.good happend).2
  | _ => exact hwriting.fits

/-- As long as nothing fails, the writer goes on refining the direct one. -/
private theorem running_step (hsound : s.queue.Sound) (hwriting : s.Writing now)
    (h : RecorderMove s (.run .writer n) s') (hnone : s'.failure = none) : s'.Running now := by
  have hqueue := queue_step h
  cases h with
  | popCalled hat =>
    have hrunning := hwriting.running hnone
    exact ⟨hrunning.writerError, by simp, hrunning.refines, hrunning.good, by simp, by simp⟩
  | popRuns hat =>
    have hrunning := hwriting.running hnone
    exact ⟨hrunning.writerError, hrunning.noHandler, hrunning.refines, hrunning.good,
      fun hstage => by simp [hat] at hstage, fun hstage => by simp [hat] at hstage⟩
  | popReturns hat =>
    have hrunning := hwriting.running hnone
    exact ⟨hrunning.writerError, by simp, hrunning.refines, hrunning.good, by simp, by simp⟩
  | popEnds hat hresult =>
    have hrunning := hwriting.running hnone
    exact ⟨hrunning.writerError, by simp, hrunning.refines, hrunning.good,
      fun _ => hsound.channel.drained _ hresult, by simp⟩
  | appends hat happend =>
    have hrunning := hwriting.running hnone
    have hgood := (BinaryLogWriter.append_ok hrunning.good happend).1
    obtain ⟨d, hrefines⟩ := hrunning.refines
    exact ⟨hrunning.writerError, by simp, ⟨_, (hrefines.append happend hgood).2⟩, hgood,
      by simp, by simp⟩
  | counts hat =>
    have hrunning := hwriting.running hnone
    exact ⟨hrunning.writerError, by simp, hrunning.refines, hrunning.good, by simp, by simp⟩
  | flushes hat hflush =>
    have hrunning := hwriting.running hnone
    have hgood := BinaryLogWriter.flush_ok hrunning.good hflush
    obtain ⟨d, hrefines⟩ := hrunning.refines
    obtain ⟨_, hkeep, hempty⟩ := hrefines.flush hflush hgood
    exact ⟨hrunning.writerError, by simp, ⟨d, hkeep⟩, hgood,
      fun _ => hrunning.drained (Or.inl hat), fun _ => hempty⟩
  | appendFails => cases hnone
  | flushFails => cases hnone
  | setsError hat =>
    obtain ⟨failure, hsome⟩ := hwriting.exists_failure (Or.inl ⟨_, hat⟩)
    exact absurd (hsome.symm.trans hnone) (by simp)
  | closeRuns hat =>
    obtain ⟨failure, hsome⟩ := hwriting.exists_failure (Or.inr hat)
    exact absurd (hsome.symm.trans hnone) (by simp)
  | closeReturns hat =>
    obtain ⟨failure, hsome⟩ := hwriting.exists_failure (Or.inr hat)
    exact absurd (hsome.symm.trans hnone) (by simp)

/-- A failure is reported and the queue closed before the thread ends. -/
private theorem failed_step (hsound : s.queue.Sound) (hwriting : s.Writing now)
    (h : RecorderMove s (.run .writer n) s') {failure : WriterFailure}
    (hsome : s'.failure = some failure) : s'.Failed failure := by
  have hqueue := queue_step h
  cases h with
  | appendFails hat =>
    cases hsome
    exact ⟨Or.inl ⟨_, rfl⟩, by simp, by simp⟩
  | flushFails hat =>
    have hrunning := hwriting.running (hwriting.failure_eq_none (by simp [hat]))
    exact ⟨Or.inl ⟨_, rfl⟩, by simp, fun _ => hrunning.drained (Or.inl hat)⟩
  | setsError hat =>
    have hfailed := hwriting.failed failure hsome
    refine ⟨Or.inr ⟨Or.inl rfl, ?_⟩, by simp,
      fun hflush => drained_of_step hqueue (hfailed.drained hflush)⟩
    dsimp only [setWriterError]
    split
    · simp
    · rename_i hnotNone
      simpa using hnotNone
  | closeRuns hat =>
    have hfailed := hwriting.failed failure hsome
    exact ⟨hfailed.handler, fun hended => by simp [hat] at hended,
      fun hflush => drained_of_step hqueue (hfailed.drained hflush)⟩
  | closeReturns hat hresult =>
    have hfailed := hwriting.failed failure hsome
    have herror : s.writerError ≠ none := by
      rcases hfailed.handler with ⟨e, he⟩ | ⟨_, herror⟩
      · rw [hat] at he
        cases he
      · exact herror
    exact ⟨Or.inr ⟨Or.inr rfl, herror⟩,
      fun _ => hsound.channel.closing _ (Or.inr (Or.inr hresult)), hfailed.drained⟩
  | popCalled hat => simp [hwriting.failure_eq_none (by simp [hat])] at hsome
  | popRuns hat => simp [hwriting.failure_eq_none (by simp [hat])] at hsome
  | popReturns hat => simp [hwriting.failure_eq_none (by simp [hat])] at hsome
  | popEnds hat => simp [hwriting.failure_eq_none (by simp [hat])] at hsome
  | appends hat => simp [hwriting.failure_eq_none (by simp [hat])] at hsome
  | counts hat => simp [hwriting.failure_eq_none (by simp [hat])] at hsome
  | flushes hat => simp [hwriting.failure_eq_none (by simp [hat])] at hsome

/-- Every step keeps what is known of the background thread. -/
theorem Writing.step (hwriting : s.Writing now) (hstages : s.Stages) (hsound : s.queue.Sound)
    (h : RecorderMove s l s') : s'.Writing now := by
  by_cases hl : ∃ n, l = .run .writer n
  · obtain ⟨n, rfl⟩ := hl
    exact ⟨handed_step hstages hwriting h, written_step hwriting h, fits_step hwriting h,
      running_step hsound hwriting h, fun failure => failed_step hsound hwriting h⟩
  · exact hwriting.frame (sameWriter_of_move hstages h (not_exists.mp hl))

omit [DecidableEq P] in
theorem Writing.new {path : String} {queueCapacity : ℕ} {writerOptions : WriterOptions}
    {device : Device} {now : UInt64}
    (h : AsyncRecorder.new path queueCapacity writerOptions device now = .ok s) :
    s.Writing now := by
  obtain ⟨writer, hwriter, rfl⟩ := AsyncRecorder.new_eq h
  obtain ⟨hrefines, hgood⟩ := BinaryLogWriter.refines_new hwriter
  exact ⟨rfl, rfl, by simp,
    fun _ => ⟨rfl, by simp, ⟨_, hrefines⟩, hgood, by simp, by simp⟩, fun _ hsome => by cases hsome⟩

end AsyncRecorder

end Hpblr
