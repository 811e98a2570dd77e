import Hpblr.Apps.Recording
import Hpblr.Recorder.Progress

/-!
# What a step of a recording tool can do

The steps of the process as a relation with one constructor for each way through the code. The
recorder takes only its own steps, and each thread of the process is in the call of the recorder
that its stage names.
-/

namespace Hpblr

variable {R : Type*}

/-- The steps of the process. -/
inductive RecordingMove (tool : RecordingTool) (engine : RandomEngine R) (s : RecordingState R) :
    RecordingLabel → RecordingState R → Prop
  | signals {p : ℕ} (hsignal : tool.stopsOnSignal = true) :
      RecordingMove tool engine s (.signal p)
        { s with stopRequested := Function.update s.stopRequested p true }
  -- the producers
  | seesStop {p : ℕ} {now : UInt64} {n : Option (RecorderThread ℕ)}
      (hat : s.producerAt p = .testing) (hsignal : tool.stopsOnSignal = true)
      (hstop : s.stopRequested p = true) :
      RecordingMove tool engine s (.producer p now n) (s.producerTo p .ended)
  | goesOn {p : ℕ} {now : UInt64} {n : Option (RecorderThread ℕ)}
      (hat : s.producerAt p = .testing)
      (hstop : tool.stopsOnSignal = true → s.stopRequested p = false) :
      RecordingMove tool engine s (.producer p now n) (s.producerTo p .drawing)
  | draws {p : ℕ} {now : UInt64} {n : Option (RecorderThread ℕ)}
      (hat : s.producerAt p = .drawing) :
      RecordingMove tool engine s (.producer p now n)
        { s.producerTo p (.limiting s.nextSequence) with nextSequence := s.nextSequence + 1 }
  | isPast {p : ℕ} {sequence now : UInt64} {n : Option (RecorderThread ℕ)}
      (hat : s.producerAt p = .limiting sequence) (hpast : tool.past sequence = true) :
      RecordingMove tool engine s (.producer p now n) (s.producerTo p .ended)
  | isWithin {p : ℕ} {sequence now : UInt64} {n : Option (RecorderThread ℕ)}
      (hat : s.producerAt p = .limiting sequence) (hpast : tool.past sequence = false) :
      RecordingMove tool engine s (.producer p now n) (s.producerTo p (.generating sequence))
  | generateThrows {p : ℕ} {sequence now : UInt64} {n : Option (RecorderThread ℕ)} {e : Exception}
      {generator : EventGenerator R} (hat : s.producerAt p = .generating sequence)
      (hnext : (s.generators p).next engine sequence now = (.error e, generator)) :
      RecordingMove tool engine s (.producer p now n) { s with terminated := true }
  | generates {p : ℕ} {sequence now : UInt64} {n : Option (RecorderThread ℕ)} {event : Event}
      {generator : EventGenerator R} {recorder : AsyncRecorder ℕ}
      (hat : s.producerAt p = .generating sequence)
      (hnext : (s.generators p).next engine sequence now = (.ok event, generator))
      (hstep : s.recorder.step (.submit p event) = some recorder) :
      RecordingMove tool engine s (.producer p now n)
        { s.producerTo p .submitting with
          generators := Function.update s.generators p generator, recorder := recorder }
  | submitRuns {p : ℕ} {now : UInt64} {n : Option (RecorderThread ℕ)} {recorder : AsyncRecorder ℕ}
      (hat : s.producerAt p = .submitting)
      (hstep : s.recorder.step (.run (.producer p) n) = some recorder) :
      RecordingMove tool engine s (.producer p now n) { s with recorder := recorder }
  | isAccepted {p : ℕ} {now : UInt64} {n : Option (RecorderThread ℕ)}
      (hat : s.producerAt p = .submitting)
      (hresult : s.recorder.submitAt p = .returned (.returned true)) :
      RecordingMove tool engine s (.producer p now n)
        (s.producerTo p (if tool.countsGenerated then .counting else .testing))
  | isRefused {p : ℕ} {now : UInt64} {n : Option (RecorderThread ℕ)}
      (hat : s.producerAt p = .submitting)
      (hresult : s.recorder.submitAt p = .returned (.returned false)) :
      RecordingMove tool engine s (.producer p now n) (s.producerTo p .ended)
  | submitThrows {p : ℕ} {now : UInt64} {n : Option (RecorderThread ℕ)} {e : Exception}
      (hat : s.producerAt p = .submitting)
      (hresult : s.recorder.submitAt p = .returned (.threw e)) :
      RecordingMove tool engine s (.producer p now n) { s with terminated := true }
  | counts {p : ℕ} {now : UInt64} {n : Option (RecorderThread ℕ)}
      (hat : s.producerAt p = .counting) :
      RecordingMove tool engine s (.producer p now n)
        { s.producerTo p .testing with generated := s.generated + 1 }
  -- `main`
  | spawns {k : ℕ} {n : Option (RecorderThread ℕ)} (hat : s.mainAt = .spawning k)
      (hk : k < tool.producers.toNat) :
      RecordingMove tool engine s (.main n)
        { s.producerTo k .testing with mainAt := .spawning (k + 1) }
  | allSpawned {k : ℕ} {n : Option (RecorderThread ℕ)} (hat : s.mainAt = .spawning k)
      (hk : tool.producers.toNat ≤ k) :
      RecordingMove tool engine s (.main n) { s with mainAt := .joining 0 }
  | joins {k : ℕ} {n : Option (RecorderThread ℕ)} (hat : s.mainAt = .joining k)
      (hk : k < tool.producers.toNat) (hended : s.producerAt k = .ended) :
      RecordingMove tool engine s (.main n) { s with mainAt := .joining (k + 1) }
  | stops {k : ℕ} {n : Option (RecorderThread ℕ)} {recorder : AsyncRecorder ℕ}
      (hat : s.mainAt = .joining k) (hk : tool.producers.toNat ≤ k)
      (hstep : s.recorder.step .stop = some recorder) :
      RecordingMove tool engine s (.main n) { s with mainAt := .stopping, recorder := recorder }
  | stopRuns {n : Option (RecorderThread ℕ)} {recorder : AsyncRecorder ℕ}
      (hat : s.mainAt = .stopping ∨ ∃ code, s.mainAt = .leaving code)
      (hstep : s.recorder.step (.run .stopper n) = some recorder) :
      RecordingMove tool engine s (.main n) { s with recorder := recorder }
  | stopReturns {n : Option (RecorderThread ℕ)} (hat : s.mainAt = .stopping)
      (hresult : s.recorder.stopAt = .returned .returned) :
      RecordingMove tool engine s (.main n) { s with mainAt := .reporting }
  | stopThrows {n : Option (RecorderThread ℕ)} {e : Exception} {recorder : AsyncRecorder ℕ}
      (hat : s.mainAt = .stopping) (hresult : s.recorder.stopAt = .returned (.threw e))
      (hstep : s.recorder.step .stop = some recorder) :
      RecordingMove tool engine s (.main n) { s with mainAt := .leaving 1, recorder := recorder }
  | reports {n : Option (RecorderThread ℕ)} {recorder : AsyncRecorder ℕ}
      (hat : s.mainAt = .reporting) (hreport : tool.report = .ok ())
      (hstep : s.recorder.step .stop = some recorder) :
      RecordingMove tool engine s (.main n) { s with
        mainAt := .leaving 0, reported := some (s.generated, s.recorder.stats),
        recorder := recorder }
  | reportThrows {n : Option (RecorderThread ℕ)} {e : Exception} {recorder : AsyncRecorder ℕ}
      (hat : s.mainAt = .reporting) (hreport : tool.report = .error e)
      (hstep : s.recorder.step .stop = some recorder) :
      RecordingMove tool engine s (.main n) { s with mainAt := .leaving 1, recorder := recorder }
  | exits {n : Option (RecorderThread ℕ)} {code : ℕ} {result : StopResult}
      (hat : s.mainAt = .leaving code) (hresult : s.recorder.stopAt = .returned result) :
      RecordingMove tool engine s (.main n) { s with mainAt := .exited code }
  -- the background thread and wake-ups
  | writes {n : Option (RecorderThread ℕ)} {recorder : AsyncRecorder ℕ}
      (hstep : s.recorder.step (.run .writer n) = some recorder) :
      RecordingMove tool engine s (.writer n) { s with recorder := recorder }
  | wakes {t : RecorderThread ℕ} {recorder : AsyncRecorder ℕ}
      (hstep : s.recorder.step (.wake t) = some recorder) :
      RecordingMove tool engine s (.wake t) { s with recorder := recorder }

namespace RecordingTool

variable {tool : RecordingTool} {engine : RandomEngine R} {s s' : RecordingState R}
  {n : Option (RecorderThread ℕ)}

theorem recorderStep_eq_some {l : RecorderLabel ℕ} (h : s.recorderStep l = some s') :
    ∃ recorder, s.recorder.step l = some recorder ∧ s' = { s with recorder := recorder } := by
  cases hstep : s.recorder.step l with
  | none => simp [RecordingState.recorderStep, hstep] at h
  | some recorder =>
    rw [RecordingState.recorderStep, hstep] at h
    exact ⟨recorder, rfl, (Option.some.inj h).symm⟩

private theorem stepProducer_move {p : ℕ} {now : UInt64}
    (h : tool.stepProducer engine s p now n = some s') :
    RecordingMove tool engine s (.producer p now n) s' := by
  unfold stepProducer at h
  cases hat : s.producerAt p with
  | unborn => simp [hat] at h
  | ended => simp [hat] at h
  | testing =>
    simp only [hat] at h
    by_cases hstop : (tool.stopsOnSignal && s.stopRequested p) = true
    · rw [if_pos hstop] at h
      cases h
      rw [Bool.and_eq_true] at hstop
      exact .seesStop hat hstop.1 hstop.2
    · rw [if_neg hstop] at h
      cases h
      exact .goesOn hat fun hsignal => by simpa [hsignal] using hstop
  | drawing =>
    simp only [hat] at h
    cases h
    exact .draws hat
  | limiting sequence =>
    simp only [hat] at h
    by_cases hpast : tool.past sequence = true
    · rw [if_pos hpast] at h
      cases h
      exact .isPast hat hpast
    · rw [if_neg hpast] at h
      cases h
      exact .isWithin hat (by simpa using hpast)
  | generating sequence =>
    simp only [hat] at h
    rcases hnext : (s.generators p).next engine sequence now with ⟨e | event, generator⟩
    · simp only [hnext] at h
      cases h
      exact .generateThrows hat hnext
    · simp only [hnext] at h
      obtain ⟨recorder, hstep, rfl⟩ := recorderStep_eq_some h
      exact .generates hat hnext hstep
  | submitting =>
    simp only [hat] at h
    split at h
    · rename_i hresult
      cases h
      exact .isAccepted hat hresult
    · rename_i hresult
      cases h
      exact .isRefused hat hresult
    · rename_i hresult
      cases h
      exact .submitThrows hat hresult
    · obtain ⟨recorder, hstep, rfl⟩ := recorderStep_eq_some h
      exact .submitRuns hat hstep
  | counting =>
    simp only [hat] at h
    cases h
    exact .counts hat

private theorem stepMain_move (h : tool.stepMain s n = some s') :
    RecordingMove tool engine s (.main n) s' := by
  unfold stepMain at h
  cases hat : s.mainAt with
  | spawning k =>
    simp only [hat] at h
    by_cases hk : k < tool.producers.toNat
    · rw [if_pos hk] at h
      cases h
      exact .spawns hat hk
    · rw [if_neg hk] at h
      cases h
      exact .allSpawned hat (Nat.le_of_not_lt hk)
  | joining k =>
    simp only [hat] at h
    by_cases hk : k < tool.producers.toNat
    · rw [if_pos hk] at h
      split at h
      · rename_i hended
        cases h
        exact .joins hat hk hended
      · cases h
    · rw [if_neg hk] at h
      obtain ⟨recorder, hstep, rfl⟩ := recorderStep_eq_some h
      exact .stops hat (Nat.le_of_not_lt hk) hstep
  | stopping =>
    simp only [hat] at h
    split at h
    · rename_i hresult
      cases h
      exact .stopReturns hat hresult
    · rename_i hresult
      obtain ⟨recorder, hstep, rfl⟩ := recorderStep_eq_some h
      exact .stopThrows hat hresult hstep
    · obtain ⟨recorder, hstep, rfl⟩ := recorderStep_eq_some h
      exact .stopRuns (Or.inl hat) hstep
  | reporting =>
    simp only [hat] at h
    split at h
    · rename_i hreport
      obtain ⟨recorder, hstep, rfl⟩ := recorderStep_eq_some h
      exact .reports hat hreport hstep
    · rename_i hreport
      obtain ⟨recorder, hstep, rfl⟩ := recorderStep_eq_some h
      exact .reportThrows hat hreport hstep
  | leaving code =>
    simp only [hat] at h
    split at h
    · rename_i hresult
      cases h
      exact .exits hat hresult
    · obtain ⟨recorder, hstep, rfl⟩ := recorderStep_eq_some h
      exact .stopRuns (Or.inr ⟨code, hat⟩) hstep
  | exited code => simp [hat] at h

/-- Every step is one of the moves, and is taken before `std::terminate`. -/
theorem step_move {l : RecordingLabel} (h : tool.step engine s l = some s') :
    s.terminated = false ∧ RecordingMove tool engine s l s' := by
  unfold step at h
  by_cases hterminated : s.terminated = true
  · rw [if_pos hterminated] at h
    cases h
  · rw [if_neg hterminated] at h
    refine ⟨by simpa using hterminated, ?_⟩
    cases l with
    | signal p =>
      simp only at h
      by_cases hsignal : tool.stopsOnSignal = true
      · rw [if_pos hsignal] at h
        cases h
        exact .signals hsignal
      · rw [if_neg hsignal] at h
        cases h
    | main n => exact stepMain_move h
    | producer p now n => exact stepProducer_move h
    | writer n =>
      obtain ⟨recorder, hstep, rfl⟩ := recorderStep_eq_some h
      exact .writes hstep
    | wake t =>
      obtain ⟨recorder, hstep, rfl⟩ := recorderStep_eq_some h
      exact .wakes hstep

/-- The recorder stays or takes one step, in the name of a producer only if that producer does. -/
theorem recorder_step {l : RecordingLabel} (h : RecordingMove tool engine s l s') :
    s'.recorder = s.recorder ∨ ∃ l', s.recorder.step l' = some s'.recorder ∧
      ∀ p, ((∃ event, l' = .submit p event) ∨ ∃ n, l' = .run (.producer p) n) →
        ∃ now n, l = .producer p now n := by
  cases h with
  | generates _ _ hstep => exact Or.inr ⟨_, hstep, by simp⟩
  | submitRuns _ hstep => exact Or.inr ⟨_, hstep, by simp⟩
  | stops _ _ hstep => exact Or.inr ⟨_, hstep, by simp⟩
  | stopRuns _ hstep => exact Or.inr ⟨_, hstep, by simp⟩
  | stopThrows _ _ hstep => exact Or.inr ⟨_, hstep, by simp⟩
  | reports _ _ hstep => exact Or.inr ⟨_, hstep, by simp⟩
  | reportThrows _ _ hstep => exact Or.inr ⟨_, hstep, by simp⟩
  | writes hstep => exact Or.inr ⟨_, hstep, by simp⟩
  | wakes hstep => exact Or.inr ⟨_, hstep, by simp⟩
  | _ => exact Or.inl rfl

/-- What the other threads do to the recorder is no step of this producer. -/
theorem recorder_of_other {l : RecordingLabel} {p : ℕ} (h : RecordingMove tool engine s l s')
    (hl : ∀ now n, l ≠ .producer p now n) :
    s'.recorder = s.recorder ∨ ∃ l', s.recorder.step l' = some s'.recorder ∧
      (∀ event, l' ≠ .submit p event) ∧ ∀ n, l' ≠ .run (.producer p) n := by
  refine (recorder_step h).imp_right ?_
  rintro ⟨l', hstep, hown⟩
  refine ⟨l', hstep, fun event heq => ?_, fun n heq => ?_⟩
  · obtain ⟨now, n, hproducer⟩ := hown p (Or.inl ⟨event, heq⟩)
    exact hl now n hproducer
  · obtain ⟨now, n', hproducer⟩ := hown p (Or.inr ⟨n, heq⟩)
    exact hl now n' hproducer

/-- A run of the process contains a run of its recorder. -/
theorem recorder_run {labels : List RecordingLabel}
    (h : Transition.run (tool.step engine) s labels = some s') :
    ∃ labels', Transition.run AsyncRecorder.step s.recorder labels' = some s'.recorder := by
  refine Transition.run_project (fun s : RecordingState R => s.recorder)
    (fun {s s' l} hstep => ?_) h
  rcases recorder_step (step_move hstep).2 with hsame | ⟨l', hrecorder, _⟩
  · exact ⟨[], by rw [hsame, Transition.run_nil]⟩
  · exact ⟨[l'], Transition.run_cons.mpr ⟨_, hrecorder, rfl⟩⟩

end RecordingTool

end Hpblr
