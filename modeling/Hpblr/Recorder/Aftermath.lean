import Hpblr.BinaryLog.Reserve
import Hpblr.Recorder.Order

/-!
# After a failure and after `stop`

The writer fails at most once, and every exception that a call of `submit` or `stop` throws is the
one of that failure. Once it is reported, every further call throws it. After a call of `stop` has
completed nothing changes any more: not the file, not what is accepted, and every further call has
the same result.
-/

namespace Hpblr

variable {P : Type*} [DecidableEq P]

/-! ## The exceptions of the writer -/

/-- The exception that an operation of a writer throws when it fails. -/
def WriterFailure.Explains (path : String) : WriterFailure → Exception → Prop
  | .append event, e =>
    (event.payload.length > kMaxPayloadBytes ∧
      e = .fileFormatError ("payload too large: " ++ toString event.payload.length)) ∨
    (event.payload.length ≤ kMaxPayloadBytes ∧
      e = .ioError (ioContext path "failed to write binary log"))
  | .flush, e =>
    e = .ioError (ioContext path "failed to write binary log") ∨
      e = .ioError (ioContext path "failed to flush binary log")

namespace BinaryLogWriter

theorem writeAll_error {out out' : OFStream} {data : List UInt8} {path : String} {e : Exception}
    (h : writeAll out data path = (.error e, out')) :
    e = .ioError (ioContext path "failed to write binary log") := by
  unfold writeAll at h
  simp only at h
  split_ifs at h
  · cases h
  · cases h
    rfl
  · cases h

theorem writeBufferIfNeeded_throws {w w' : BinaryLogWriter} {force : Bool} {e : Exception}
    (h : w.writeBufferIfNeeded force = (.error e, w')) :
    e = .ioError (ioContext w.path "failed to write binary log") := by
  unfold writeBufferIfNeeded at h
  split_ifs at h
  · cases h
  · rcases hwrite : writeAll w.out w.buffer w.path with ⟨e' | ⟨⟩, out⟩
    · rw [hwrite] at h
      cases h
      exact writeAll_error hwrite
    · rw [hwrite] at h
      cases h

theorem writeBufferIfNeeded_path (w : BinaryLogWriter) (force : Bool) :
    (w.writeBufferIfNeeded force).2.path = w.path := by
  unfold writeBufferIfNeeded
  split_ifs
  · rfl
  · rcases writeAll w.out w.buffer w.path with ⟨e | ⟨⟩, out⟩ <;> rfl

theorem path_of_new {path : String} {options : WriterOptions} {device : Device} {now : UInt64}
    {w : BinaryLogWriter} (h : new path options device now = .ok w) : w.path = path := by
  unfold new at h
  simp only at h
  split_ifs at h with hopen hreserve
  simp only [writeFileHeader, encodeFileHeader_eq, length_fileHeader] at h
  rw [if_neg (by simp)] at h
  rcases hwrite : writeAll (OFStream.open device) (fileHeader 0 now 0) path with ⟨e | ⟨⟩, out⟩
  · rw [hwrite] at h
    cases h
  · rw [hwrite] at h
    cases h
    rfl

theorem append_path (w : BinaryLogWriter) (event : Event) : (w.append event).2.path = w.path := by
  rcases append_cases w event with ⟨_, heq⟩ | ⟨_, _, heq⟩ | ⟨_, _, force, heq⟩
  · rw [heq]
  · rw [heq]
  · rw [heq, writeBufferIfNeeded_path]
    rfl

theorem flush_path (w : BinaryLogWriter) : w.flush.2.path = w.path := by
  have hwrite := w.writeBufferIfNeeded_path true
  unfold flush
  split
  · rfl
  · rcases hpair : w.writeBufferIfNeeded true with ⟨e | ⟨⟩, w'⟩
    · rw [hpair] at hwrite
      exact hwrite
    · rw [hpair] at hwrite
      dsimp only
      split <;> exact hwrite

/-- What `append` throws on an open writer. -/
theorem append_explains {w w' : BinaryLogWriter} {event : Event} {e : Exception}
    (hopen : w.closed = false) (h : w.append event = (.error e, w')) :
    (WriterFailure.append event).Explains w.path e := by
  rcases append_cases w event with ⟨hclosed, _⟩ | ⟨_, hlarge, heq⟩ | ⟨_, hsmall, force, heq⟩
  · rw [hopen] at hclosed
    cases hclosed
  · rw [heq] at h
    cases h
    exact Or.inl ⟨hlarge, rfl⟩
  · rw [heq] at h
    have hthrows := writeBufferIfNeeded_throws h
    exact Or.inr ⟨hsmall, hthrows⟩

/-- What `flush` throws. -/
theorem flush_explains {w w' : BinaryLogWriter} {e : Exception} (h : w.flush = (.error e, w')) :
    WriterFailure.flush.Explains w.path e := by
  have hpath := w.writeBufferIfNeeded_path true
  unfold flush at h
  split at h
  · cases h
  · rcases hwrite : w.writeBufferIfNeeded true with ⟨e' | ⟨⟩, w₁⟩
    · rw [hwrite] at h
      cases h
      exact Or.inl (writeBufferIfNeeded_throws hwrite)
    · rw [hwrite] at h hpath
      dsimp only at h hpath
      split at h
      · cases h
        exact Or.inr (by rw [hpath])
      · cases h

end BinaryLogWriter

namespace AsyncRecorder

variable {s s₀ s' t t' : AsyncRecorder P} {l : RecorderLabel P} {now : UInt64} {path : String}
  {queueCapacity : ℕ} {writerOptions : WriterOptions} {device : Device}
  {labels more : List (RecorderLabel P)}

/-! ## One exception -/

/-- All exceptions are the one that the failing operation threw. -/
structure OneError (s : AsyncRecorder P) (path : String) : Prop where
  file : s.writer.path = path
  opened : s.writer.closed = false
  handler : ∀ e, s.runAt = .settingError e →
    s.writerError = none ∧ ∃ failure, s.failure = some failure ∧ failure.Explains path e
  reported : ∀ e, s.writerError = some e →
    ∃ failure, s.failure = some failure ∧ failure.Explains path e
  submits : ∀ x ∈ s.submits, ∀ e, x.2.2 = .threw e → s.writerError = some e
  stops : ∀ e, .threw e ∈ s.stops → s.writerError = some e

/-- The error is set once, in the handler. -/
theorem writerError_step (h : RecorderMove s l s') :
    s'.writerError = s.writerError ∨ ∃ e, s.runAt = .settingError e ∧
      s'.writerError = (s.setWriterError e).writerError := by
  cases h with
  | setsError hat => exact Or.inr ⟨_, hat, rfl⟩
  | _ => exact Or.inl rfl

/-- The first error is kept. -/
theorem writerError_of_some {e : Exception} (herror : s.writerError = some e)
    (h : RecorderMove s l s') : s'.writerError = some e := by
  rcases writerError_step h with hsame | ⟨e', _, hset⟩
  · rw [hsame, herror]
  · rw [hset, setWriterError, herror]
    exact herror

/-- The exceptions of the completed calls stay what they are. -/
private theorem OneError.results (hone : s.OneError path) (h : RecorderMove s l s') :
    (∀ x ∈ s'.submits, ∀ e, x.2.2 = .threw e → s'.writerError = some e) ∧
      ∀ e, .threw e ∈ s'.stops → s'.writerError = some e := by
  have hsubmits : ∀ x ∈ s.submits, ∀ e, x.2.2 = .threw e → s'.writerError = some e :=
    fun x hx e he => writerError_of_some (hone.submits x hx e he) h
  have hstops : ∀ e, .threw e ∈ s.stops → s'.writerError = some e :=
    fun e he => writerError_of_some (hone.stops e he) h
  cases h with
  | @submitThrows p event e n hat herror =>
    refine ⟨fun x hx e' he' => ?_, hstops⟩
    rcases List.mem_append.mp hx with hold | hnew
    · exact hsubmits x hold e' he'
    · rw [List.mem_singleton.mp hnew] at he'
      cases he'
      exact herror
  | submitRejects =>
    refine ⟨fun x hx e' he' => ?_, hstops⟩
    rcases List.mem_append.mp hx with hold | hnew
    · exact hsubmits x hold e' he'
    · rw [List.mem_singleton.mp hnew] at he'
      cases he'
  | submitCounts =>
    refine ⟨fun x hx e' he' => ?_, hstops⟩
    rcases List.mem_append.mp hx with hold | hnew
    · exact hsubmits x hold e' he'
    · rw [List.mem_singleton.mp hnew] at he'
      cases he'
  | stopThrows hat herror =>
    refine ⟨hsubmits, fun e' he' => ?_⟩
    rcases List.mem_append.mp he' with hold | hnew
    · exact hstops e' hold
    · cases List.mem_singleton.mp hnew
      exact herror
  | stopReturns =>
    refine ⟨hsubmits, fun e' he' => ?_⟩
    rcases List.mem_append.mp he' with hold | hnew
    · exact hstops e' hold
    · cases List.mem_singleton.mp hnew
  | _ => exact ⟨hsubmits, hstops⟩

/-- Every step keeps it at one exception. -/
theorem OneError.step (hone : s.OneError path) (hrecording : s.Recording now)
    (h : RecorderMove s l s') : s'.OneError path := by
  obtain ⟨hsubmits, hstops⟩ := hone.results h
  have hwriting := hrecording.writing
  cases h with
  | @appends event writer _ hat happend =>
    have hnone := hwriting.failure_eq_none (by simp [hat])
    have hpath := s.writer.append_path event
    have hclosed := s.writer.append_closed event
    rw [happend] at hpath hclosed
    exact ⟨hpath.trans hone.file, hclosed.trans hone.opened, by simp, hone.reported, hsubmits,
      hstops⟩
  | @appendFails event e writer _ hat happend =>
    have hnone := hwriting.failure_eq_none (by simp [hat])
    have herror := (hwriting.running hnone).writerError
    have hpath := s.writer.append_path event
    have hclosed := s.writer.append_closed event
    have hexplains := BinaryLogWriter.append_explains hone.opened happend
    rw [happend] at hpath hclosed
    rw [hone.file] at hexplains
    refine ⟨hpath.trans hone.file, hclosed.trans hone.opened, ?_, ?_, hsubmits, hstops⟩
    · intro e' he'
      cases he'
      exact ⟨herror, _, rfl, hexplains⟩
    · intro e' he'
      rw [show s.writerError = some e' from he'] at herror
      cases herror
  | flushes hat hflush =>
    have hpath := s.writer.flush_path
    have hclosed := s.writer.flush_closed
    rw [hflush] at hpath hclosed
    exact ⟨hpath.trans hone.file, hclosed.trans hone.opened, by simp, hone.reported, hsubmits,
      hstops⟩
  | flushFails hat hflush =>
    have hnone := hwriting.failure_eq_none (by simp [hat])
    have herror := (hwriting.running hnone).writerError
    have hpath := s.writer.flush_path
    have hclosed := s.writer.flush_closed
    have hexplains := BinaryLogWriter.flush_explains hflush
    rw [hflush] at hpath hclosed
    rw [hone.file] at hexplains
    refine ⟨hpath.trans hone.file, hclosed.trans hone.opened, ?_, ?_, hsubmits, hstops⟩
    · intro e' he'
      cases he'
      exact ⟨herror, _, rfl, hexplains⟩
    · intro e' he'
      rw [show s.writerError = some e' from he'] at herror
      cases herror
  | setsError hat hqueue =>
    obtain ⟨hnone, failure, hfailure, hexplains⟩ := hone.handler _ hat
    refine ⟨hone.file, hone.opened, by simp, fun e' he' => ?_, hsubmits, hstops⟩
    simp only [setWriterError, hnone, Option.isNone_none, if_true] at he'
    cases he'
    exact ⟨failure, hfailure, hexplains⟩
  | popCalled hat => exact ⟨hone.file, hone.opened, by simp, hone.reported, hsubmits, hstops⟩
  | popReturns hat => exact ⟨hone.file, hone.opened, by simp, hone.reported, hsubmits, hstops⟩
  | popEnds hat => exact ⟨hone.file, hone.opened, by simp, hone.reported, hsubmits, hstops⟩
  | counts hat => exact ⟨hone.file, hone.opened, by simp, hone.reported, hsubmits, hstops⟩
  | closeReturns hat => exact ⟨hone.file, hone.opened, by simp, hone.reported, hsubmits, hstops⟩
  | _ => exact ⟨hone.file, hone.opened, hone.handler, hone.reported, hsubmits, hstops⟩

omit [DecidableEq P] in
theorem OneError.new (h : AsyncRecorder.new path queueCapacity writerOptions device now = .ok s) :
    s.OneError path := by
  obtain ⟨writer, hwriter, rfl⟩ := AsyncRecorder.new_eq h
  have hopen := (BinaryLogWriter.belowThreshold_new hwriter).2.1
  have hpath : writer.path = path := BinaryLogWriter.path_of_new hwriter
  exact ⟨hpath, hopen, by simp, by simp, by simp, by simp⟩

theorem oneError_of_run
    (hnew : AsyncRecorder.new path queueCapacity writerOptions device now = .ok s₀)
    (hrun : Transition.run step s₀ labels = some s) : s.OneError path :=
  (Transition.run_invariant (I := fun t => t.Recording now ∧ t.OneError path)
    (fun h hstep => ⟨h.1.step hstep, h.2.step h.1 (step_move hstep)⟩)
    ⟨Recording.new hnew, OneError.new hnew⟩ hrun).2

/-! ## Calls with a settled result -/

/-- What settles the result of the calls of `submit` that begin from now on. -/
def Settles (s : AsyncRecorder P) : SubmitResult → Prop
  | .threw e => s.writerError = some e
  | .returned accepted => accepted = false ∧ s.writerError = none ∧ s.stopping = true

/-- The stages that a call with a settled result goes through. -/
def Settled (result : SubmitResult) : SubmitStage → Prop
  | .outside | .checking _ | .returned _ => True
  | .loading _ | .rejecting _ => result = .returned false
  | .pushing _ | .counting _ => False

variable {result : SubmitResult}

theorem submitAt_producerAt (s : AsyncRecorder P) (p : P) (stage : SubmitStage) :
    (s.producerAt p stage).submitAt p = stage := Function.update_self ..

theorem submitAt_submitReturns (s : AsyncRecorder P) (p : P) (event : Event) (r : SubmitResult) :
    (s.submitReturns p event r).submitAt p = .returned r := Function.update_self ..

/-- A step of a call with a settled result, and the result if it completes. -/
theorem settled_step (hsettles : s.Settles result) (h : RecorderMove s l s') {p : P}
    (hp : Settled result (s.submitAt p)) : Settled result (s'.submitAt p) ∧
      ∀ event r, s'.submits = s.submits ++ [(p, event, r)] → r = result := by
  by_cases hl : (∃ event, l = .submit p event) ∨ ∃ n, l = .run (.producer p) n
  · rcases hl with ⟨event, rfl⟩ | ⟨n, rfl⟩
    · cases h with
      | submitCalled =>
        refine ⟨?_, fun event' r hsubmits => by simp [producerAt] at hsubmits⟩
        rw [submitAt_producerAt]
        trivial
    · cases h with
      | submitThrows hat herror =>
        refine ⟨?_, fun event' r hsubmits => ?_⟩
        · rw [submitAt_submitReturns]
          trivial
        · simp only [AsyncRecorder.submitReturns, List.append_cancel_left_eq, List.cons.injEq,
            Prod.mk.injEq, and_true, true_and] at hsubmits
          rw [← hsubmits.2]
          cases result with
          | threw e' =>
            rw [show s.writerError = some e' from hsettles] at herror
            cases herror
            rfl
          | returned accepted =>
            rw [hsettles.2.1] at herror
            cases herror
      | submitPasses hat herror =>
        refine ⟨?_, fun event' r hsubmits => by simp [producerAt] at hsubmits⟩
        rw [submitAt_producerAt]
        cases result with
        | threw e' =>
          rw [show s.writerError = some e' from hsettles] at herror
          cases herror
        | returned accepted => exact congrArg SubmitResult.returned hsettles.1
      | submitStopped hat =>
        refine ⟨?_, fun event' r hsubmits => by simp [producerAt] at hsubmits⟩
        rw [submitAt_producerAt]
        rwa [hat] at hp
      | pushCalled hat hstopping =>
        rw [hat] at hp
        rw [show result = .returned false from hp] at hsettles
        rw [hsettles.2.2] at hstopping
        cases hstopping
      | submitRejects hat =>
        rw [hat] at hp
        refine ⟨?_, fun event' r hsubmits => ?_⟩
        · rw [submitAt_submitReturns]
          trivial
        · simp only [AsyncRecorder.submitReturns, List.append_cancel_left_eq, List.cons.injEq,
            Prod.mk.injEq, and_true, true_and] at hsubmits
          rw [← hsubmits.2]
          exact Eq.symm hp
      | pushRuns hat =>
        rw [hat] at hp
        cases hp
      | pushAccepted hat =>
        rw [hat] at hp
        cases hp
      | pushRefused hat =>
        rw [hat] at hp
        cases hp
      | submitCounts hat =>
        rw [hat] at hp
        cases hp
  · simp only [not_or, not_exists] at hl
    refine ⟨?_, fun event r hsubmits => ?_⟩
    · rw [submitAt_of_other h hl]
      exact hp
    · rcases submits_cases h with hsame | ⟨p', event', result', n, hlabel, hnew⟩
      · rw [hsame] at hsubmits
        simp at hsubmits
      · rw [hnew] at hsubmits
        simp only [List.append_cancel_left_eq, List.cons.injEq, Prod.mk.injEq, and_true] at hsubmits
        exact absurd (hsubmits.1 ▸ hlabel) (hl.2 n)

/-- Since the state `s`, every call of `submit` that began after it has completed with this
result. -/
structure Since (s t : AsyncRecorder P) (result : SubmitResult) : Prop where
  submits : ∃ later, t.submits = s.submits ++ later ∧
    ∀ x ∈ later, ¬ (s.submitAt x.1).InCall → x.2.2 = result
  stages : ∀ p, ¬ (s.submitAt p).InCall → Settled result (t.submitAt p)

omit [DecidableEq P] in
theorem Since.refl (s : AsyncRecorder P) (result : SubmitResult) : s.Since s result where
  submits := ⟨[], by simp, by simp⟩
  stages := by
    intro p hp
    cases hat : s.submitAt p with
    | outside => trivial
    | returned r => trivial
    | _ => exact absurd (by rw [hat]; trivial) hp

theorem Since.step (hsince : s.Since t result) (hsettles : t.Settles result)
    (h : RecorderMove t l t') : s.Since t' result where
  submits := by
    obtain ⟨later, hlater, hresults⟩ := hsince.submits
    rcases submits_cases h with hsame | ⟨p, event, r, n, _, hnew⟩
    · exact ⟨later, hsame.trans hlater, hresults⟩
    · refine ⟨later ++ [(p, event, r)], by rw [hnew, hlater, List.append_assoc], fun x hx hout => ?_⟩
      rcases List.mem_append.mp hx with hold | hlast
      · exact hresults x hold hout
      · obtain rfl := List.mem_singleton.mp hlast
        exact (settled_step hsettles h (hsince.stages p hout)).2 event r hnew
  stages := fun p hp => (settled_step hsettles h (hsince.stages p hp)).1

/-- What a call of `stop` that completes now does. -/
def stopResult : Option Exception → StopResult
  | none => .returned
  | some e => .threw e

/-- A step completes no call of `stop`, or one that reports the error. -/
theorem stops_cases (h : RecorderMove s l s') :
    s'.stops = s.stops ∨ (s.stopAt = .checking ∧ s'.stops = s.stops ++ [stopResult s.writerError]) := by
  cases h with
  | stopThrows hat herror =>
    right
    rw [herror]
    exact ⟨hat, rfl⟩
  | stopReturns hat herror =>
    right
    rw [herror]
    exact ⟨hat, rfl⟩
  | _ => exact Or.inl rfl

/-! ## Once the error is reported -/

/-- **There is only one exception.** In every reachable state, all exceptions that calls of `submit`
and `stop` have thrown are the error that the recorder holds, and this is what the operation of the
writer that failed has thrown. From a state with an error on it is never replaced: every call of
`submit` that begins later throws it, and so does every call of `stop` that completes later. -/
theorem one_error (hnew : AsyncRecorder.new path queueCapacity writerOptions device now = .ok s₀)
    (hrun : Transition.run step s₀ labels = some s) :
    (∀ x ∈ s.submits, ∀ e, x.2.2 = .threw e → s.writerError = some e) ∧
    (∀ e, .threw e ∈ s.stops → s.writerError = some e) ∧
    ∀ e, s.writerError = some e →
      (∃ failure, s.failure = some failure ∧ failure.Explains path e) ∧
      ∀ more s', Transition.run step s more = some s' → s'.writerError = some e ∧
        (∃ later, s'.submits = s.submits ++ later ∧
          ∀ x ∈ later, ¬ (s.submitAt x.1).InCall → x.2.2 = .threw e) ∧
        ∃ later, s'.stops = s.stops ++ later ∧ ∀ r ∈ later, r = .threw e := by
  have hone := oneError_of_run hnew hrun
  refine ⟨hone.submits, hone.stops, fun e herror => ⟨hone.reported e herror, ?_⟩⟩
  intro more s' hmore
  have hkept : s'.writerError = some e ∧ s.Since s' (.threw e) ∧
      ∃ later, s'.stops = s.stops ++ later ∧ ∀ r ∈ later, r = .threw e := by
    refine Transition.run_invariant
      (I := fun t => t.writerError = some e ∧ s.Since t (.threw e) ∧
        ∃ later, t.stops = s.stops ++ later ∧ ∀ r ∈ later, r = .threw e)
      (fun {t t' l} h hstep => ?_) ⟨herror, .refl s _, [], by simp, by simp⟩ hmore
    obtain ⟨herrort, hsince, later, hlater, hall⟩ := h
    have hmove := step_move hstep
    refine ⟨writerError_of_some herrort hmove, hsince.step herrort hmove, ?_⟩
    rcases stops_cases hmove with hsame | ⟨_, hnewStop⟩
    · exact ⟨later, hsame.trans hlater, hall⟩
    · rw [herrort] at hnewStop
      refine ⟨later ++ [.threw e], by rw [hnewStop, hlater, List.append_assoc]; rfl, ?_⟩
      intro r hr
      rcases List.mem_append.mp hr with hold | hlast
      · exact hall r hold
      · exact List.mem_singleton.mp hlast
  exact ⟨hkept.1, hkept.2.1.submits, hkept.2.2⟩

/-- The final flush fails, and `stop` throws what it threw. -/
theorem one_error_flush : ∃ (s₀ s : AsyncRecorder Unit) (e : Exception),
    AsyncRecorder.new "log" 8 {} .full 0 = .ok s₀ ∧
    Transition.run step s₀ flushFailure = some s ∧ s.stops = [.threw e] ∧ s.writerError = some e ∧
    ∃ failure, s.failure = some failure ∧ failure.Explains "log" e := by
  obtain ⟨s₀, s, hnew, hrun, hstops⟩ :=
    exists_run "log" 8 {} .full 0 flushFailure
      (fun s => s.stops = [.threw (.ioError (ioContext "log" "failed to flush binary log"))])
      (by decide +kernel)
  obtain ⟨_, hthrown, hreported⟩ := one_error hnew hrun
  have herror := hthrown _ (by rw [hstops]; exact List.mem_singleton_self _)
  exact ⟨s₀, s, _, hnew, hrun, hstops, herror, (hreported _ herror).1⟩

/-! ## Once `stop` has completed -/

/-- The flag is set from the exchange on. -/
structure Flagged (s : AsyncRecorder P) : Prop where
  underWay : s.stopAt ≠ .outside → s.stopAt ≠ .exchanging → s.stopping = true
  stops : s.stops ≠ [] → s.stopping = true

theorem Flagged.step (hflagged : s.Flagged) (h : RecorderMove s l s') : s'.Flagged := by
  cases h with
  | stopCalled houtside => exact ⟨by simp, hflagged.stops⟩
  | exchangesAgain hat hstopping => exact ⟨fun _ _ => hstopping, hflagged.stops⟩
  | exchangesFirst => exact ⟨fun _ _ => rfl, fun _ => rfl⟩
  | stopCloseReturns hat =>
    exact ⟨fun _ _ => hflagged.underWay (by simp [hat]) (by simp [hat]), hflagged.stops⟩
  | joins hat =>
    exact ⟨fun _ _ => hflagged.underWay (by simp [hat]) (by simp [hat]), hflagged.stops⟩
  | hasJoined hat =>
    exact ⟨fun _ _ => hflagged.underWay (by simp [hat]) (by simp [hat]), hflagged.stops⟩
  | stopThrows hat =>
    have hset := hflagged.underWay (by simp [hat]) (by simp [hat])
    exact ⟨fun _ _ => hset, fun _ => hset⟩
  | stopReturns hat =>
    have hset := hflagged.underWay (by simp [hat]) (by simp [hat])
    exact ⟨fun _ _ => hset, fun _ => hset⟩
  | _ => exact ⟨hflagged.underWay, hflagged.stops⟩

/-- What a call of `submit` that begins after `stop` has completed does. -/
def refusal : Option Exception → SubmitResult
  | none => .returned false
  | some e => .threw e

/-- What stays as it was when `stop` had completed. -/
structure Frozen (s t : AsyncRecorder P) : Prop where
  ended : t.runAt = .ended
  closed : t.queue.closed = true
  stopping : t.stopping = true
  writer : t.writer = s.writer
  appended : t.appended = s.appended
  written : t.written = s.written
  writerError : t.writerError = s.writerError
  accepted : t.queue.accepted = s.queue.accepted
  handed : t.queue.handed = s.queue.handed
  since : s.Since t (refusal s.writerError)
  stops : ∃ later, t.stops = s.stops ++ later ∧ ∀ r ∈ later, r = stopResult s.writerError

/-- The flag is never taken back. -/
theorem stopping_step (hset : s.stopping = true) (h : RecorderMove s l s') :
    s'.stopping = true := by
  cases h with
  | exchangesFirst => rfl
  | _ => exact hset

theorem Frozen.step (hfrozen : s.Frozen t) (hstages : t.Stages) (h : RecorderMove t l t') :
    s.Frozen t' := by
  have hsame : SameWriter t t' := by
    refine sameWriter_of_move hstages h (fun n hl => ?_)
    subst hl
    have hended := hfrozen.ended
    cases h <;> simp_all
  have hsettles : t.Settles (refusal s.writerError) := by
    have herror := hfrozen.writerError
    cases hs : s.writerError with
    | none => exact ⟨rfl, herror.trans hs, hfrozen.stopping⟩
    | some e => exact herror.trans hs
  have hclosed := closed_of_step hsame.queue hfrozen.closed
  refine ⟨hsame.runAt.trans hfrozen.ended, hclosed, stopping_step hfrozen.stopping h,
    hsame.writer.trans hfrozen.writer, hsame.appended.trans hfrozen.appended,
    hsame.written.trans hfrozen.written, hsame.writerError.trans hfrozen.writerError, ?_,
    hsame.handed.trans hfrozen.handed, hfrozen.since.step hsettles h, ?_⟩
  · rcases hsame.queue with heq | ⟨l', hqueue⟩
    · rw [heq]
      exact hfrozen.accepted
    · exact ((QueueState.step_move hqueue).accepted_of_closed hfrozen.closed).2.trans
        hfrozen.accepted
  · obtain ⟨later, hlater, hall⟩ := hfrozen.stops
    rcases stops_cases h with hstops | ⟨_, hnewStop⟩
    · exact ⟨later, hstops.trans hlater, hall⟩
    · refine ⟨later ++ [stopResult t.writerError],
        by rw [hnewStop, hlater, List.append_assoc], fun r hr => ?_⟩
      rcases List.mem_append.mp hr with hold | hlast
      · exact hall r hold
      · rw [List.mem_singleton.mp hlast, hfrozen.writerError]

/-- **After `stop` nothing changes.** Take any state in which some call of `stop` has completed, and
any continuation of the run, with further calls of `submit` and `stop` by any threads. The writer and
its file, the written counter, the accepted events and the events left in the queue stay what they
are. Every call of `submit` that begins later returns false if the writer has not failed, and throws
its exception if it has; every further call of `stop` returns or throws accordingly. -/
theorem final_of_stopped
    (hnew : AsyncRecorder.new path queueCapacity writerOptions device now = .ok s₀)
    (hrun : Transition.run step s₀ labels = some s) (hstopped : s.stops ≠ [])
    (hmore : Transition.run step s more = some s') :
    s'.writer = s.writer ∧ s'.written = s.written ∧ s'.queue.accepted = s.queue.accepted ∧
    s'.queue.queue = s.queue.queue ∧
    (∃ later, s'.submits = s.submits ++ later ∧
      ∀ x ∈ later, ¬ (s.submitAt x.1).InCall → x.2.2 = refusal s.writerError) ∧
    ∃ later, s'.stops = s.stops ++ later ∧ ∀ r ∈ later, r = stopResult s.writerError := by
  have hrecording := recording_of_run hnew hrun
  have hflagged : s.Flagged := by
    refine Transition.run_invariant (I := Flagged)
      (fun h hstep => h.step (step_move hstep)) ?_ hrun
    obtain ⟨writer, _, rfl⟩ := AsyncRecorder.new_eq hnew
    exact ⟨by simp, by simp⟩
  obtain ⟨r, hmem⟩ := List.exists_mem_of_ne_nil _ hstopped
  have hended := (hrecording.stopping.stops r hmem).1
  have hfrozen : s.Frozen s' :=
    (Transition.run_invariant (I := fun t => t.Recording now ∧ s.Frozen t)
      (fun h hstep => ⟨h.1.step hstep, h.2.step h.1.stages (step_move hstep)⟩)
      ⟨hrecording, hended, hrecording.writing.closed_of_ended hended, hflagged.stops hstopped, rfl,
        rfl, rfl, rfl, rfl, rfl, .refl s _, [], by simp, by simp⟩ hmore).2
  have hwhole : Transition.run step s₀ (labels ++ more) = some s' :=
    Transition.run_append.mpr ⟨s, hrun, hmore⟩
  refine ⟨hfrozen.writer, hfrozen.written, hfrozen.accepted, ?_, hfrozen.since.submits,
    hfrozen.stops⟩
  have hfifo := hrecording.queue.channel.fifo
  have hfifo' := (recording_of_run hnew hwhole).queue.channel.fifo
  rw [hfrozen.accepted, hfrozen.handed, hfifo] at hfifo'
  exact (List.append_cancel_left hfifo').symm

/-- A call of `submit` after `stop`. -/
def submitAfterStop : List (RecorderLabel Unit) :=
  .submit () { sequence := 2 } :: List.replicate 3 (.run (.producer ()) none)

theorem final_of_stopped_submit : ∃ s₀ s s' : AsyncRecorder Unit,
    AsyncRecorder.new "log" 8 {} .reliable 0 = .ok s₀ ∧
    Transition.run step s₀ lateSubmit = some s ∧
    Transition.run step s submitAfterStop = some s' ∧ s'.submits.length = 3 ∧
    s'.writer = s.writer ∧ s'.queue.accepted = s.queue.accepted := by
  obtain ⟨s₀, s', hnew, hrun, hcalls⟩ :=
    exists_run "log" 8 {} .reliable 0 (lateSubmit ++ submitAfterStop)
      (fun s => s.submits.length = 3) (by decide +kernel)
  obtain ⟨s, hfirst, hsecond⟩ := Transition.run_append.mp hrun
  have hstopped : s.stops ≠ [] := by
    obtain ⟨s₁, s₂, hnew₁, hrun₁, hstops⟩ :=
      exists_run "log" 8 {} .reliable 0 lateSubmit (fun s => s.stops ≠ [])
        (by decide +kernel)
    cases hnew.symm.trans hnew₁
    cases hfirst.symm.trans hrun₁
    exact hstops
  obtain ⟨hwriter, _, haccepted, _⟩ := final_of_stopped hnew hfirst hstopped hsecond
  exact ⟨s₀, s, s', hnew, hfirst, hsecond, hcalls, hwriter, haccepted⟩

end AsyncRecorder

end Hpblr
