import Hpblr.Apps.RecordingMoves
import Hpblr.Recorder.Submission

/-!
# The life of a recording process

`main` starts the producers, joins them and then stops the recorder, so no call of `submit` is
under way when `stop` is called. A producer is inside `submit` exactly while it is submitting. The
exit code reports whether the writer failed.
-/

namespace Hpblr

/-! ## The invariant -/

variable {R : Type*}

/-- The exit code of a process whose writer and report have done this. -/
def exitCode : Option WriterFailure → Except Exception Unit → ℕ
  | none, .ok () => 0
  | _, _ => 1

namespace RecordingState

/-- The producers with a number less than `k` are those that have been started. -/
def Started (s : RecordingState R) (k : ℕ) : Prop := ∀ p, p < k ↔ s.producerAt p ≠ .unborn

/-- The background thread has ended, and the process will exit with this code. -/
def Exits (s : RecordingState R) (tool : RecordingTool) (code : ℕ) : Prop :=
  s.recorder.runAt = .ended ∧ code = exitCode s.recorder.failure tool.report

end RecordingState

/-- Where a producer at this stage stands in `submit`. -/
def ProducerStage.Matches : ProducerStage → SubmitStage → Prop
  | .submitting, stage => stage ≠ .outside
  | _, stage => ¬ stage.InCall

/-- A producer inside `submit` is submitting. -/
theorem ProducerStage.Matches.submitting {at_ : ProducerStage} {stage : SubmitStage}
    (h : at_.Matches stage) (hin : stage.InCall) : at_ = .submitting := by
  cases at_ with
  | submitting => rfl
  | _ => exact absurd hin h

/-- What holds while `main` is at this stage. -/
def MainStage.Matches (tool : RecordingTool) (s : RecordingState R) : MainStage → Prop
  | .spawning k => k ≤ tool.producers.toNat ∧ s.Started k ∧ s.recorder.stopAt = .outside
  | .joining k => s.Started tool.producers.toNat ∧ (∀ p < k, s.producerAt p = .ended) ∧
      s.recorder.stopAt = .outside
  | .stopping => s.Started tool.producers.toNat ∧
      (∀ p < tool.producers.toNat, s.producerAt p = .ended) ∧ s.recorder.stopAt ≠ .outside
  | .reporting => s.Started tool.producers.toNat ∧
      (∀ p < tool.producers.toNat, s.producerAt p = .ended) ∧
      s.recorder.stopAt = .returned .returned
  | .leaving code => s.Started tool.producers.toNat ∧
      (∀ p < tool.producers.toNat, s.producerAt p = .ended) ∧ s.recorder.stopAt ≠ .outside ∧
      s.Exits tool code
  | .exited code => s.Started tool.producers.toNat ∧
      (∀ p < tool.producers.toNat, s.producerAt p = .ended) ∧ s.Exits tool code

/-- What is known of a reachable state of a recording process. -/
structure Lifecycle (tool : RecordingTool) (s : RecordingState R) (now : UInt64) : Prop where
  recording : s.recorder.Recording now
  config : ∀ p, (s.generators p).config = tool.generatorConfig p
  submit : ∀ p, (s.producerAt p).Matches (s.recorder.submitAt p)
  main : s.mainAt.Matches tool s

namespace RecordingTool

variable {tool : RecordingTool} {engine : RandomEngine R} {s s' : RecordingState R}
  {l : RecordingLabel} {n : Option (RecorderThread ℕ)} {now : UInt64}

/-! ## What the other threads leave to `main` -/

/-- The part of the state that `main` relies on. -/
structure SameMain (s s' : RecordingState R) : Prop where
  mainAt : s'.mainAt = s.mainAt
  stopAt : s'.recorder.stopAt = s.recorder.stopAt
  ended : s.recorder.runAt = .ended →
    s'.recorder.runAt = .ended ∧ s'.recorder.failure = s.recorder.failure
  unborn : ∀ p, s'.producerAt p = .unborn ↔ s.producerAt p = .unborn
  done : ∀ p, s.producerAt p = .ended → s'.producerAt p = .ended

/-- A producer gets from one stage of its life to another. -/
private theorem sameMain_producerTo {p : ℕ} {stage : ProducerStage}
    (hborn : s.producerAt p ≠ .unborn ∧ s.producerAt p ≠ .ended) (hstage : stage ≠ .unborn) :
    SameMain s (s.producerTo p stage) := by
  refine ⟨rfl, rfl, fun hended => ⟨hended, rfl⟩, fun p' => ?_, fun p' hended => ?_⟩
  · by_cases heq : p' = p
    · subst heq
      simp [RecordingState.producerTo, hborn.1, hstage]
    · simp [RecordingState.producerTo, heq]
  · have hne : p' ≠ p := by
      rintro rfl
      exact hborn.2 hended
    simpa [RecordingState.producerTo, hne] using hended

/-- A step of the recorder that is not one of `stop`. -/
private theorem sameMain_recorder {recorder : AsyncRecorder ℕ} {l : RecorderLabel ℕ}
    (h : s.recorder.step l = some recorder) (hl : l ≠ .stop ∧ ∀ n, l ≠ .run .stopper n) :
    SameMain s { s with recorder := recorder } := by
  have hmove := AsyncRecorder.step_move h
  exact ⟨rfl, (AsyncRecorder.stop_of_other hmove hl).2.2.1, AsyncRecorder.ended_step hmove,
    fun _ => Iff.rfl, fun _ => id⟩

/-- No other thread changes what `main` relies on. -/
theorem sameMain_of_move (h : RecordingMove tool engine s l s') (hl : ∀ n, l ≠ .main n) :
    SameMain s s' := by
  have hsame : SameMain s s := ⟨rfl, rfl, fun hended => ⟨hended, rfl⟩, fun _ => Iff.rfl, fun _ => id⟩
  cases h with
  | signals => exact ⟨rfl, rfl, hsame.ended, hsame.unborn, hsame.done⟩
  | seesStop hat => exact sameMain_producerTo (by simp [hat]) (by simp)
  | goesOn hat => exact sameMain_producerTo (by simp [hat]) (by simp)
  | @draws p _ _ hat =>
    have hto : SameMain s (s.producerTo p (.limiting s.nextSequence)) :=
      sameMain_producerTo (by simp [hat]) (by simp)
    exact ⟨rfl, rfl, hto.ended, hto.unborn, hto.done⟩
  | isPast hat => exact sameMain_producerTo (by simp [hat]) (by simp)
  | isWithin hat => exact sameMain_producerTo (by simp [hat]) (by simp)
  | generateThrows => exact ⟨rfl, rfl, hsame.ended, hsame.unborn, hsame.done⟩
  | @generates p _ _ _ _ _ _ hat _ hstep =>
    have hto : SameMain s (s.producerTo p .submitting) :=
      sameMain_producerTo (by simp [hat]) (by simp)
    have hrecorder := sameMain_recorder hstep (by simp)
    exact ⟨rfl, hrecorder.stopAt, hrecorder.ended, hto.unborn, hto.done⟩
  | submitRuns _ hstep => exact sameMain_recorder hstep (by simp)
  | isAccepted hat =>
    refine sameMain_producerTo (by simp [hat]) ?_
    split <;> simp
  | isRefused hat => exact sameMain_producerTo (by simp [hat]) (by simp)
  | submitThrows => exact ⟨rfl, rfl, hsame.ended, hsame.unborn, hsame.done⟩
  | @counts p _ _ hat =>
    have hto : SameMain s (s.producerTo p .testing) :=
      sameMain_producerTo (by simp [hat]) (by simp)
    exact ⟨rfl, rfl, hto.ended, hto.unborn, hto.done⟩
  | writes hstep => exact sameMain_recorder hstep (by simp)
  | wakes hstep => exact sameMain_recorder hstep (by simp)
  | _ => exact absurd rfl (hl _)

/-- So the stage of `main` keeps its meaning. -/
private theorem SameMain.main (h : SameMain s s') (hmain : s.mainAt.Matches tool s) :
    s'.mainAt.Matches tool s' := by
  have hstarted {k : ℕ} (hstarted : s.Started k) : s'.Started k :=
    fun p => (hstarted p).trans (not_congr (h.unborn p)).symm
  have hdone {k : ℕ} (hdone : ∀ p < k, s.producerAt p = .ended) :
      ∀ p < k, s'.producerAt p = .ended := fun p hp => h.done p (hdone p hp)
  have hexits {code : ℕ} (hexits : s.Exits tool code) : s'.Exits tool code := by
    obtain ⟨hended, hfailure⟩ := h.ended hexits.1
    exact ⟨hended, hfailure ▸ hexits.2⟩
  rw [h.mainAt]
  cases hat : s.mainAt with
  | spawning k =>
    rw [hat] at hmain
    exact ⟨hmain.1, hstarted hmain.2.1, h.stopAt.trans hmain.2.2⟩
  | joining k =>
    rw [hat] at hmain
    exact ⟨hstarted hmain.1, hdone hmain.2.1, h.stopAt.trans hmain.2.2⟩
  | stopping =>
    rw [hat] at hmain
    exact ⟨hstarted hmain.1, hdone hmain.2.1, h.stopAt ▸ hmain.2.2⟩
  | reporting =>
    rw [hat] at hmain
    exact ⟨hstarted hmain.1, hdone hmain.2.1, h.stopAt.trans hmain.2.2⟩
  | leaving code =>
    rw [hat] at hmain
    exact ⟨hstarted hmain.1, hdone hmain.2.1, h.stopAt ▸ hmain.2.2.1, hexits hmain.2.2.2⟩
  | exited code =>
    rw [hat] at hmain
    exact ⟨hstarted hmain.1, hdone hmain.2.1, hexits hmain.2.2⟩

/-! ## What `main` does -/

/-- A completed `stop` tells the exit code. -/
private theorem exits_of_returned (hrecording : s.recorder.Recording now) {result : StopResult}
    (hresult : s.recorder.stopAt = .returned result) :
    s.recorder.runAt = .ended ∧ (result = .returned ↔ s.recorder.failure = none) :=
  hrecording.stopping.stops result (hrecording.stopping.returned result hresult)

/-- After a `stop` that has returned, the destructor of the recorder calls it again. -/
private theorem leaves_of_returned (hrecording : s.recorder.Recording now)
    (hresult : s.recorder.stopAt = .returned .returned) {recorder : AsyncRecorder ℕ}
    (hstep : s.recorder.step .stop = some recorder) :
    recorder.stopAt ≠ .outside ∧ recorder.runAt = .ended ∧ recorder.failure = none := by
  have hmove := AsyncRecorder.step_move hstep
  obtain ⟨hended, hfailure⟩ := exits_of_returned hrecording hresult
  obtain ⟨hended', hfailure'⟩ := AsyncRecorder.ended_step hmove hended
  exact ⟨by simp [AsyncRecorder.stopAt_of_call hmove], hended', hfailure'.trans (hfailure.mp rfl)⟩

private theorem main_step (hlife : Lifecycle tool s now)
    (h : RecordingMove tool engine s (.main n) s') : s'.mainAt.Matches tool s' := by
  have hmain := hlife.main
  cases h with
  | @spawns k _ hat hk =>
    rw [hat] at hmain
    obtain ⟨_, hstarted, hstop⟩ := hmain
    refine ⟨hk, fun p => ?_, hstop⟩
    by_cases heq : p = k
    · subst heq
      simp [RecordingState.producerTo]
    · have hsame : (s.producerTo k .testing).producerAt p = s.producerAt p :=
        Function.update_of_ne heq _ _
      exact Iff.trans (by omega) ((hstarted p).trans (by rw [hsame]))
  | allSpawned hat hk =>
    rw [hat] at hmain
    obtain ⟨hle, hstarted, hstop⟩ := hmain
    exact ⟨Nat.le_antisymm hle hk ▸ hstarted, by simp, hstop⟩
  | @joins k _ hat _ hended =>
    rw [hat] at hmain
    obtain ⟨hstarted, hjoined, hstop⟩ := hmain
    refine ⟨hstarted, fun p hp => ?_, hstop⟩
    rcases Nat.lt_succ_iff_lt_or_eq.mp hp with hlt | rfl
    · exact hjoined p hlt
    · exact hended
  | stops hat hk hstep =>
    rw [hat] at hmain
    obtain ⟨hstarted, hjoined, _⟩ := hmain
    have hcalled := AsyncRecorder.stopAt_of_call (AsyncRecorder.step_move hstep)
    exact ⟨hstarted, fun p hp => hjoined p (hp.trans_le hk), by simp [hcalled]⟩
  | stopRuns hat hstep =>
    have hmove := AsyncRecorder.step_move hstep
    have hnot := (AsyncRecorder.stopAt_of_run hmove).2
    rcases hat with hat | ⟨code, hat⟩
    · rw [hat] at hmain
      dsimp only
      rw [hat]
      exact ⟨hmain.1, hmain.2.1, hnot⟩
    · rw [hat] at hmain
      obtain ⟨hstarted, hjoined, _, hended, hcode⟩ := hmain
      obtain ⟨hended', hfailure⟩ := AsyncRecorder.ended_step hmove hended
      dsimp only
      rw [hat]
      exact ⟨hstarted, hjoined, hnot, hended', hfailure ▸ hcode⟩
  | stopReturns hat hresult =>
    rw [hat] at hmain
    exact ⟨hmain.1, hmain.2.1, hresult⟩
  | stopThrows hat hresult hstep =>
    rw [hat] at hmain
    have hmove := AsyncRecorder.step_move hstep
    obtain ⟨hended, hfailure⟩ := exits_of_returned hlife.recording hresult
    obtain ⟨hended', hfailure'⟩ := AsyncRecorder.ended_step hmove hended
    refine ⟨hmain.1, hmain.2.1, by simp [AsyncRecorder.stopAt_of_call hmove], hended', ?_⟩
    dsimp only
    rw [hfailure']
    cases hfails : s.recorder.failure with
    | none => simp [hfails] at hfailure
    | some failure => rfl
  | reports hat hreport hstep =>
    rw [hat] at hmain
    obtain ⟨hcalled, hended, hfailure⟩ := leaves_of_returned hlife.recording hmain.2.2 hstep
    refine ⟨hmain.1, hmain.2.1, hcalled, hended, ?_⟩
    dsimp only
    rw [hfailure, hreport]
    rfl
  | reportThrows hat hreport hstep =>
    rw [hat] at hmain
    obtain ⟨hcalled, hended, hfailure⟩ := leaves_of_returned hlife.recording hmain.2.2 hstep
    refine ⟨hmain.1, hmain.2.1, hcalled, hended, ?_⟩
    dsimp only
    rw [hfailure, hreport]
    rfl
  | exits hat hresult =>
    rw [hat] at hmain
    exact ⟨hmain.1, hmain.2.1, hmain.2.2.2⟩

/-! ## The invariant is kept -/

private theorem config_step (hlife : Lifecycle tool s now) (h : RecordingMove tool engine s l s')
    (p : ℕ) : (s'.generators p).config = tool.generatorConfig p := by
  have hconfig := hlife.config
  cases h with
  | @generates p' _ _ _ _ _ _ _ hnext _ =>
    dsimp only [RecordingState.producerTo]
    by_cases heq : p = p'
    · subst heq
      rw [Function.update_self, (EventGenerator.next_ok engine hnext).1]
      exact hconfig p
    · rw [Function.update_of_ne heq]
      exact hconfig p
  | _ => exact hconfig p

/-- The other threads leave a producer where it stands in `submit`. -/
theorem submitAt_of_other {p : ℕ} (h : RecordingMove tool engine s l s')
    (hl : ∀ now n, l ≠ .producer p now n) :
    s'.recorder.submitAt p = s.recorder.submitAt p := by
  rcases recorder_of_other h hl with hsame | ⟨l', hstep, hl'⟩
  · rw [hsame]
  · exact AsyncRecorder.submitAt_of_other (AsyncRecorder.step_move hstep) hl'

/-- The other threads leave a producer at its stage, except that `main` starts it. -/
theorem producerAt_of_other {p : ℕ} (h : RecordingMove tool engine s l s')
    (hl : ∀ now n, l ≠ .producer p now n) :
    s'.producerAt p = s.producerAt p ∨
      (s.mainAt = .spawning p ∧ s'.producerAt p = .testing) := by
  have hother {p' : ℕ} {now : UInt64} {n : Option (RecorderThread ℕ)} {stage : ProducerStage}
      (heq : l = .producer p' now n) :
      (s.producerTo p' stage).producerAt p = s.producerAt p :=
    Function.update_of_ne (fun hsame => hl now n (by rw [heq, hsame])) _ _
  cases h with
  | seesStop => exact Or.inl (hother rfl)
  | goesOn => exact Or.inl (hother rfl)
  | draws => exact Or.inl (hother rfl)
  | isPast => exact Or.inl (hother rfl)
  | isWithin => exact Or.inl (hother rfl)
  | generates => exact Or.inl (hother rfl)
  | isAccepted => exact Or.inl (hother rfl)
  | isRefused => exact Or.inl (hother rfl)
  | counts => exact Or.inl (hother rfl)
  | @spawns k _ hat =>
    by_cases heq : p = k
    · subst heq
      exact Or.inr ⟨hat, Function.update_self ..⟩
    · exact Or.inl (Function.update_of_ne heq _ _)
  | _ => exact Or.inl rfl

/-- A producer that `main` starts now has not been in its loop. -/
theorem unborn_of_spawning (hlife : Lifecycle tool s now) {p : ℕ} (hat : s.mainAt = .spawning p) :
    s.producerAt p = .unborn := by
  have hmain := hlife.main
  rw [hat] at hmain
  exact not_not.mp (mt (hmain.2.1 p).mpr (Nat.lt_irrefl p))

private theorem submit_step (hlife : Lifecycle tool s now)
    (h : RecordingMove tool engine s l s') (p : ℕ) :
    (s'.producerAt p).Matches (s'.recorder.submitAt p) := by
  have hsubmit := hlife.submit p
  by_cases hl : ∃ now n, l = .producer p now n
  · obtain ⟨now', n', rfl⟩ := hl
    -- Outside `submit` the stages say the same, so the producer stays where it is there.
    have hnext {stage stage' : ProducerStage} (hat : s.producerAt p = stage)
        (hsame : stage.Matches (s.recorder.submitAt p) → stage'.Matches (s.recorder.submitAt p)) :
        (Function.update s.producerAt p stage' p).Matches (s.recorder.submitAt p) := by
      rw [Function.update_self]
      exact hsame (hat ▸ hsubmit)
    cases h with
    | seesStop hat => exact hnext hat id
    | goesOn hat => exact hnext hat id
    | draws hat => exact hnext hat id
    | isPast hat => exact hnext hat id
    | isWithin hat => exact hnext hat id
    | counts hat => exact hnext hat id
    | generateThrows => exact hsubmit
    | submitThrows => exact hsubmit
    | generates _ _ hstep =>
      have hcalled := AsyncRecorder.submitAt_of_call (AsyncRecorder.step_move hstep)
      dsimp only [RecordingState.producerTo]
      rw [Function.update_self, hcalled]
      simp [ProducerStage.Matches]
    | submitRuns hat hstep =>
      have hrun := AsyncRecorder.submitAt_of_run (AsyncRecorder.step_move hstep)
      dsimp only
      rw [hat]
      exact hrun.2.1
    | isAccepted hat hresult =>
      refine hnext hat fun _ => ?_
      rw [hresult]
      split <;> exact id
    | isRefused hat hresult =>
      refine hnext hat fun _ => ?_
      rw [hresult]
      exact id
  · have hl' : ∀ now n, l ≠ .producer p now n := fun now n heq => hl ⟨now, n, heq⟩
    rw [submitAt_of_other h hl']
    rcases producerAt_of_other h hl' with hsame | ⟨hat, hstarted⟩
    · rwa [hsame]
    · -- A producer that is started now has not been inside `submit`.
      rw [unborn_of_spawning hlife hat] at hsubmit
      rwa [hstarted]

end RecordingTool

namespace Lifecycle

variable {tool : RecordingTool} {engine : RandomEngine R} {s s' : RecordingState R}
  {l : RecordingLabel} {device : Device} {now : UInt64}

/-- Every step keeps what is known of the process. -/
theorem step (hlife : Lifecycle tool s now) (h : tool.step engine s l = some s') :
    Lifecycle tool s' now := by
  obtain ⟨_, hmove⟩ := RecordingTool.step_move h
  refine ⟨?_, RecordingTool.config_step hlife hmove, RecordingTool.submit_step hlife hmove, ?_⟩
  · rcases RecordingTool.recorder_step hmove with hsame | ⟨l', hstep, _⟩
    · exact hsame ▸ hlife.recording
    · exact hlife.recording.step hstep
  · by_cases hl : ∃ n, l = .main n
    · obtain ⟨n, rfl⟩ := hl
      exact RecordingTool.main_step hlife hmove
    · exact (RecordingTool.sameMain_of_move hmove (not_exists.mp hl)).main hlife.main

theorem start (h : tool.start engine device now = .ok s) : Lifecycle tool s now := by
  obtain ⟨recorder, hnew, rfl⟩ := RecordingTool.start_eq h
  have hidle : recorder.submitAt = (fun _ => .outside) ∧ recorder.stopAt = .outside := by
    obtain ⟨writer, _, rfl⟩ := AsyncRecorder.new_eq hnew
    exact ⟨rfl, rfl⟩
  refine ⟨.new hnew, fun _ => rfl, fun p => ?_, Nat.zero_le _, fun p => by simp, hidle.2⟩
  dsimp only
  rw [hidle.1]
  exact id

/-- Every state that a run of the process reaches is known that well. -/
theorem of_run {s₀ : RecordingState R} {labels : List RecordingLabel}
    (hstart : tool.start engine device now = .ok s₀)
    (hrun : Transition.run (tool.step engine) s₀ labels = some s) : Lifecycle tool s now :=
  Transition.run_invariant (I := fun s => Lifecycle tool s now) (fun h hstep => h.step hstep)
    (start hstart) hrun

/-- While a producer is in its loop, `main` has not called `stop`. -/
theorem of_producer (hlife : Lifecycle tool s now) {p : ℕ} (hborn : s.producerAt p ≠ .unborn)
    (hended : s.producerAt p ≠ .ended) :
    p < tool.producers.toNat ∧ s.recorder.stopAt = .outside := by
  have hmain := hlife.main
  have hdone (hstarted : s.Started tool.producers.toNat)
      (hdone : ∀ p < tool.producers.toNat, s.producerAt p = .ended) : False :=
    hended (hdone p ((hstarted p).mpr hborn))
  cases hat : s.mainAt with
  | spawning k =>
    rw [hat] at hmain
    exact ⟨((hmain.2.1 p).mpr hborn).trans_le hmain.1, hmain.2.2⟩
  | joining k =>
    rw [hat] at hmain
    exact ⟨(hmain.1 p).mpr hborn, hmain.2.2⟩
  | stopping =>
    rw [hat] at hmain
    exact (hdone hmain.1 hmain.2.1).elim
  | reporting =>
    rw [hat] at hmain
    exact (hdone hmain.1 hmain.2.1).elim
  | leaving code =>
    rw [hat] at hmain
    exact (hdone hmain.1 hmain.2.1).elim
  | exited code =>
    rw [hat] at hmain
    exact (hdone hmain.1 hmain.2.1).elim

end Lifecycle

end Hpblr
