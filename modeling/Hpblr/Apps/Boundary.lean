import Hpblr.Apps.Lifecycle
import Hpblr.Recorder.NoLoss

/-!
# How a recording process ends

A writer failure reaches `main` through `stop`, which throws, and a producer through `submit`. The
producer does not catch what `submit` throws, so a producer that comes to the check of the writer
error once it is set ends the process in `std::terminate`. Without such a step the process ends
through `main`, with an exit code that tells whether the writer failed.
-/

namespace Hpblr

variable {R : Type*} {tool : RecordingTool} {engine : RandomEngine R} {s s' s₀ : RecordingState R}
  {l : RecordingLabel} {device : Device} {now : UInt64}

/-- A step that raises no exception in a producer: no check of a writer error that is set, and no
payload that no vector can hold. -/
def RecordingTool.clear (tool : RecordingTool) (s : RecordingState R) : RecordingLabel → Bool
  | .producer p _ _ =>
    match s.producerAt p, s.recorder.submitAt p with
    | .submitting, .checking _ => s.recorder.writerError.isNone
    | .generating _, _ => decide (tool.payloadSize ≤ vectorMaxSize)
    | _, _ => true
  | _ => true

/-- No exception is about to leave a producer thread, and none has left one. -/
structure RecordingState.Contained (s : RecordingState R) : Prop where
  running : s.terminated = false
  submit : ∀ p, s.producerAt p = .submitting → ∀ e, s.recorder.submitAt p ≠ .returned (.threw e)

namespace RecordingTool

/-! ## No exception leaves a producer -/

/-- A clear step contains the exceptions. -/
theorem contained_step (hlife : Lifecycle tool s now) (hcontained : s.Contained)
    (hclear : tool.clear s l) (h : tool.step engine s l = some s') : s'.Contained := by
  obtain ⟨_, hmove⟩ := step_move h
  have hrunning : s'.terminated = false := by
    cases hmove with
    | @generateThrows p sequence now' _ e generator hat hnext =>
      have hfits : tool.payloadSize ≤ vectorMaxSize := by simpa [clear, hat] using hclear
      rcases (s.generators p).next_cases engine sequence now' with ⟨hlarge, _⟩ |
        ⟨_, event, rng, hreturns, _⟩
      · rw [hlife.config p] at hlarge
        exact absurd hfits (UInt64.not_le.mpr hlarge)
      · rw [hreturns] at hnext
        cases hnext
    | @submitThrows p _ _ e hat hresult => exact absurd hresult (hcontained.submit p hat e)
    | _ => exact hcontained.running
  refine ⟨hrunning, fun p hat e => ?_⟩
  by_cases hl : ∃ now n, l = .producer p now n
  · obtain ⟨now', n', rfl⟩ := hl
    have hto {stage : ProducerStage} (hstage : stage ≠ .submitting) :
        (s.producerTo p stage).producerAt p ≠ .submitting := by
      rwa [RecordingState.producerAt_producerTo]
    cases hmove with
    | generates _ _ hstep =>
      rw [show RecordingState.recorder _ = _ from rfl,
        AsyncRecorder.submitAt_of_call (AsyncRecorder.step_move hstep)]
      simp
    | submitRuns hat' hstep =>
      refine (AsyncRecorder.submitAt_of_run (AsyncRecorder.step_move hstep)).2.2 ?_ e
      exact fun event hchecking => by simpa [clear, hat', hchecking] using hclear
    | generateThrows => exact hcontained.submit p hat e
    | submitThrows => exact hcontained.submit p hat e
    | isAccepted =>
      refine absurd hat (hto ?_)
      split <;> simp
    | seesStop => exact absurd hat (hto (by simp))
    | goesOn => exact absurd hat (hto (by simp))
    | draws => exact absurd hat (hto (by simp))
    | isPast => exact absurd hat (hto (by simp))
    | isWithin => exact absurd hat (hto (by simp))
    | isRefused => exact absurd hat (hto (by simp))
    | counts => exact absurd hat (hto (by simp))
  · have hl' : ∀ now n, l ≠ .producer p now n := fun now n heq => hl ⟨now, n, heq⟩
    rw [submitAt_of_other hmove hl']
    rcases producerAt_of_other hmove hl' with hsame | ⟨_, hstarted⟩
    · exact hcontained.submit p (hsame ▸ hat) e
    · rw [hstarted] at hat
      cases hat

theorem contained_start (h : tool.start engine device now = .ok s) : s.Contained := by
  obtain ⟨recorder, _, rfl⟩ := start_eq h
  exact ⟨rfl, fun p hat => by cases hat⟩

/-- A step that is not clear raises an exception in a producer. -/
theorem not_contained_step (hlife : Lifecycle tool s now) (hclear : tool.clear s l = false)
    (h : tool.step engine s l = some s') : ¬ s'.Contained := by
  obtain ⟨_, hmove⟩ := step_move h
  intro hcontained
  cases l with
  | producer p now' n =>
    cases hat : s.producerAt p with
    | submitting =>
      cases hsubmit : s.recorder.submitAt p with
      | checking event =>
        have herror : s.recorder.writerError ≠ none := by
          simpa [clear, hat, hsubmit, Option.isSome_iff_ne_none] using hclear
        cases hmove with
        | submitRuns _ hstep =>
          obtain ⟨e, hthrows⟩ :=
            AsyncRecorder.submitAt_of_check (AsyncRecorder.step_move hstep) hsubmit herror
          exact hcontained.submit p hat e hthrows
        | _ => simp_all
      | _ => simp [clear, hat, hsubmit] at hclear
    | generating sequence =>
      have hlarge : vectorMaxSize < tool.payloadSize := by simpa [clear, hat] using hclear
      cases hmove with
      | generateThrows => exact absurd hcontained.running (by simp)
      | @generates _ sequence' _ _ event generator _ _ hnext _ =>
        rcases (s.generators p).next_cases engine sequence' now' with ⟨_, e, hthrows⟩ |
          ⟨hfits, _⟩
        · rw [hthrows] at hnext
          cases hnext
        · rw [hlife.config p] at hfits
          exact absurd hfits (UInt64.not_le.mpr hlarge)
      | _ => simp_all
    | _ => simp [clear, hat] at hclear
  | _ => cases hclear

/-- Once an exception has been raised in a producer, the process is terminated or about to be. -/
theorem not_contained_of_step (hlife : Lifecycle tool s now) (hnot : ¬ s.Contained)
    (h : tool.step engine s l = some s') : ¬ s'.Contained := by
  obtain ⟨hrunning, hmove⟩ := step_move h
  intro hcontained
  refine hnot ⟨hrunning, fun p hat e hthrows => ?_⟩
  by_cases hl : ∃ now n, l = .producer p now n
  · obtain ⟨now', n, rfl⟩ := hl
    cases hmove with
    | submitThrows => exact absurd hcontained.running (by simp)
    | submitRuns _ hstep =>
      have hin := (AsyncRecorder.submitAt_of_run (AsyncRecorder.step_move hstep)).1
      rw [hthrows] at hin
      exact hin
    | _ => simp_all
  · have hl' : ∀ now n, l ≠ .producer p now n := fun now n heq => hl ⟨now, n, heq⟩
    rcases producerAt_of_other hmove hl' with hsame | ⟨hspawning, _⟩
    · exact hcontained.submit p (hsame.trans hat) e ((submitAt_of_other hmove hl').trans hthrows)
    · rw [unborn_of_spawning hlife hspawning] at hat
      cases hat

/-- After a step, no exception has been raised exactly if none had been and the step was clear. -/
private theorem contained_step_iff (hlife : Lifecycle tool s now)
    (h : tool.step engine s l = some s') : s'.Contained ↔ s.Contained ∧ tool.clear s l = true := by
  constructor
  · intro hcontained
    refine ⟨?_, ?_⟩
    · by_contra hnot
      exact not_contained_of_step hlife hnot h hcontained
    · by_contra hnot
      exact not_contained_step hlife (by simpa using hnot) h hcontained
  · exact fun hbefore => contained_step hlife hbefore.1 hbefore.2 h

/-- **When exceptions stay inside.** In every run, no exception has been raised in a producer if
and only if every step was clear. -/
theorem contained_iff_clear (hstart : tool.start engine device now = .ok s₀)
    {labels : List RecordingLabel}
    (hrun : Transition.run (tool.step engine) s₀ labels = some s) :
    s.Contained ↔ Transition.Along (tool.step engine) (fun s l => tool.clear s l) s₀ labels :=
  (Transition.along_iff (I := fun s => Lifecycle tool s now) (fun h hstep => h.step hstep)
    contained_step_iff (.start hstart) hrun).trans (and_iff_right (contained_start hstart))

/-! ## Someone can go on -/

/-- Some thread of the process has an enabled step, not counting a wake-up without a notification
and the stop signal. -/
def CanStep (tool : RecordingTool) (engine : RandomEngine R) (s : RecordingState R) : Prop :=
  ∃ l s', ((∃ n, l = .main n) ∨ (∃ p now n, l = .producer p now n) ∨ ∃ n, l = .writer n) ∧
    tool.step engine s l = some s'

private theorem canStep_main {n : Option (RecorderThread ℕ)} (hrunning : s.terminated = false)
    (h : ∃ s', tool.stepMain s n = some s') : tool.CanStep engine s := by
  obtain ⟨s', hs'⟩ := h
  exact ⟨.main n, s', Or.inl ⟨n, rfl⟩, by simpa [step, hrunning] using hs'⟩

private theorem canStep_producer {p : ℕ} {n : Option (RecorderThread ℕ)}
    (hrunning : s.terminated = false) (h : ∃ s', tool.stepProducer engine s p 0 n = some s') :
    tool.CanStep engine s := by
  obtain ⟨s', hs'⟩ := h
  exact ⟨.producer p 0 n, s', Or.inr (Or.inl ⟨p, 0, n, rfl⟩), by simpa [step, hrunning] using hs'⟩

private theorem recorderStep_eq {s : RecordingState R} {l : RecorderLabel ℕ}
    {recorder : AsyncRecorder ℕ} (h : s.recorder.step l = some recorder) :
    s.recorderStep l = some { s with recorder := recorder } := by
  rw [RecordingState.recorderStep, h]
  rfl

/-- A thread of the recorder that can go on is a thread of the process that can. -/
private theorem canStep_of_enabled (hlife : Lifecycle tool s now) (hrunning : s.terminated = false)
    (hexited : ∀ code, s.mainAt ≠ .exited code) {t : RecorderThread ℕ}
    (h : s.recorder.Enabled t) : tool.CanStep engine s := by
  obtain ⟨n, recorder, hstep⟩ := h
  have hmove := AsyncRecorder.step_move hstep
  have hrecorder := recorderStep_eq hstep
  cases t with
  | producer p =>
    have hin := (AsyncRecorder.submitAt_of_run hmove).1
    have hat := (hlife.submit p).submitting hin
    refine canStep_producer (p := p) (n := n) hrunning ?_
    simp only [stepProducer, hat]
    split
    · rename_i hresult
      exact absurd hin (by rw [hresult]; exact id)
    · rename_i hresult
      exact absurd hin (by rw [hresult]; exact id)
    · rename_i hresult
      exact absurd hin (by rw [hresult]; exact id)
    · exact ⟨_, hrecorder⟩
  | writer =>
    exact ⟨.writer n, _, Or.inr (Or.inr ⟨n, rfl⟩), by simpa [step, hrunning] using hrecorder⟩
  | stopper =>
    have hin := (AsyncRecorder.stopAt_of_run hmove).1
    have hmain := hlife.main
    refine canStep_main (n := n) hrunning ?_
    simp only [stepMain]
    cases hat : s.mainAt with
    | spawning k =>
      rw [hat] at hmain
      exact absurd hin (by rw [hmain.2.2]; exact id)
    | joining k =>
      rw [hat] at hmain
      exact absurd hin (by rw [hmain.2.2]; exact id)
    | stopping =>
      dsimp only
      split
      · rename_i hresult
        exact absurd hin (by rw [hresult]; exact id)
      · rename_i hresult
        exact absurd hin (by rw [hresult]; exact id)
      · exact ⟨_, hrecorder⟩
    | reporting =>
      rw [hat] at hmain
      exact absurd hin (by rw [hmain.2.2]; exact id)
    | leaving code =>
      dsimp only
      split
      · rename_i hresult
        exact absurd hin (by rw [hresult]; exact id)
      · exact ⟨_, hrecorder⟩
    | exited code => exact absurd hat (hexited code)

/-- While a producer has not ended, someone can go on. -/
private theorem canStep_of_producer (hlife : Lifecycle tool s now) (hrunning : s.terminated = false)
    (hexited : ∀ code, s.mainAt ≠ .exited code) {p : ℕ}
    (hborn : s.producerAt p ≠ .unborn ∧ s.producerAt p ≠ .ended) : tool.CanStep engine s := by
  have hsubmit := hlife.submit p
  have hstep : (∃ s', tool.stepProducer engine s p 0 none = some s') → tool.CanStep engine s :=
    canStep_producer hrunning
  unfold stepProducer at hstep
  cases hat : s.producerAt p with
  | unborn => exact absurd hat hborn.1
  | ended => exact absurd hat hborn.2
  | testing =>
    rw [hat] at hstep
    refine hstep ?_
    dsimp only
    split <;> exact ⟨_, rfl⟩
  | drawing =>
    rw [hat] at hstep
    exact hstep ⟨_, rfl⟩
  | limiting sequence =>
    rw [hat] at hstep
    refine hstep ?_
    dsimp only
    split <;> exact ⟨_, rfl⟩
  | generating sequence =>
    rw [hat] at hstep hsubmit
    refine hstep ?_
    dsimp only
    split
    · exact ⟨_, rfl⟩
    · exact ⟨_, recorderStep_eq (if_neg hsubmit)⟩
  | submitting =>
    by_cases hin : (s.recorder.submitAt p).InCall
    · obtain ⟨t, ht⟩ := hlife.recording.exists_enabled (Or.inl ⟨p, hin⟩)
      exact canStep_of_enabled hlife hrunning hexited ht
    · rw [hat] at hstep hsubmit
      refine hstep ?_
      cases hresult : s.recorder.submitAt p with
      | outside => exact absurd hresult hsubmit
      | returned result =>
        rcases result with accepted | e
        · cases accepted <;> exact ⟨_, rfl⟩
        · exact ⟨_, rfl⟩
      | _ => exact absurd (by rw [hresult]; trivial) hin
  | counting =>
    rw [hat] at hstep
    exact hstep ⟨_, rfl⟩

/-- Until `main` has returned, someone can go on. -/
theorem canStep (hlife : Lifecycle tool s now) (hrunning : s.terminated = false)
    (hexited : ∀ code, s.mainAt ≠ .exited code) : tool.CanStep engine s := by
  have hmain := hlife.main
  have hstep : (∃ s', tool.stepMain s none = some s') → tool.CanStep engine s :=
    canStep_main hrunning
  -- A call of `stop` can be made whenever none is under way.
  have hstop {s : RecordingState R} (hidle : ¬ s.recorder.stopAt.InCall) :
      ∃ s', s.recorderStep .stop = some s' := ⟨_, recorderStep_eq (if_neg hidle)⟩
  have hin (hin : s.recorder.stopAt.InCall) : tool.CanStep engine s := by
    obtain ⟨t, ht⟩ := hlife.recording.exists_enabled (Or.inr hin)
    exact canStep_of_enabled hlife hrunning hexited ht
  unfold stepMain at hstep
  cases hat : s.mainAt with
  | spawning k =>
    rw [hat] at hstep
    refine hstep ?_
    dsimp only
    split <;> exact ⟨_, rfl⟩
  | joining k =>
    rw [hat] at hstep hmain
    by_cases hk : k < tool.producers.toNat
    · by_cases hended : s.producerAt k = .ended
      · refine hstep ?_
        dsimp only
        rw [if_pos hk, hended]
        exact ⟨_, rfl⟩
      · exact canStep_of_producer hlife hrunning hexited ⟨(hmain.1 k).mp hk, hended⟩
    · refine hstep ?_
      dsimp only
      rw [if_neg hk]
      exact hstop (s := { s with mainAt := .stopping }) (by rw [hmain.2.2]; exact id)
  | stopping =>
    by_cases hcall : s.recorder.stopAt.InCall
    · exact hin hcall
    · rw [hat] at hstep hmain
      refine hstep ?_
      cases hresult : s.recorder.stopAt with
      | outside => exact absurd hresult hmain.2.2
      | returned result =>
        rcases result with _ | e
        · exact ⟨_, rfl⟩
        · exact hstop (s := { s with mainAt := .leaving 1 }) hcall
      | _ => exact absurd (by rw [hresult]; trivial) hcall
  | reporting =>
    rw [hat] at hstep hmain
    have hidle : ¬ s.recorder.stopAt.InCall := by rw [hmain.2.2]; exact id
    refine hstep ?_
    dsimp only
    split
    · exact hstop hidle
    · exact hstop hidle
  | leaving code =>
    by_cases hcall : s.recorder.stopAt.InCall
    · exact hin hcall
    · rw [hat] at hstep hmain
      refine hstep ?_
      cases hresult : s.recorder.stopAt with
      | outside => exact absurd hresult hmain.2.2.1
      | returned result => exact ⟨_, rfl⟩
      | _ => exact absurd (by rw [hresult]; trivial) hcall
  | exited code => exact absurd hat (hexited code)

/-! ## The end of the process -/

/-- A tool as its command line makes it, where the file of the report can be opened and the size of
the output be told. -/
inductive Accepted : RecordingTool → Prop
  | record {args : List String} {opts : RecordOptions} (h : RecordOptions.parse args = .ok opts) :
      Accepted (hpblrRecord opts)
  | bench {args : List String} {opts : BenchOptions} (h : BenchOptions.parse args = .ok opts)
      (fileSize : UInt64) : Accepted (hpblrBench opts (.ok fileSize) true)

theorem Accepted.report_eq (h : Accepted tool) : tool.report = .ok () := by
  cases h with
  | record => rfl
  | bench _ fileSize => simp [hpblrBench]

/-- **A run without an exception in a producer ends through `main`.** For both tools, any options,
any device and any interleaving, with a writer that fails anywhere or nowhere, as long as every
step is clear: the process is not terminated, some thread can go on until `main` has returned, and
the exit code is 1 if the writer failed and 0 otherwise. -/
theorem ends_through_main (htool : Accepted tool)
    (hstart : tool.start engine device now = .ok s₀) {labels : List RecordingLabel}
    (hclear : Transition.Along (tool.step engine) (fun s l => tool.clear s l) s₀ labels)
    (hrun : Transition.run (tool.step engine) s₀ labels = some s) :
    s.terminated = false ∧
    ((∀ code, s.mainAt ≠ .exited code) → tool.CanStep engine s) ∧
    ∀ code, s.mainAt = .exited code → code = if s.recorder.failure = none then 0 else 1 := by
  have hlife := Lifecycle.of_run hstart hrun
  have hcontained := (contained_iff_clear hstart hrun).mpr hclear
  refine ⟨hcontained.running, canStep hlife hcontained.running, fun code hexited => ?_⟩
  have hmain := hlife.main
  rw [hexited] at hmain
  rw [hmain.2.2.2, htool.report_eq]
  cases s.recorder.failure <;> rfl

/-! ## Two runs of `hpblr_record` -/

/-- An engine that counts. -/
def countingEngine : RandomEngine UInt64 := ⟨id, fun n => (n, n + 1)⟩

/-- A run of `hpblr_record` that can be computed, and what can be checked of it. -/
theorem exists_run (args : List String) (device : Device) (labels : List RecordingLabel)
    (Q : RecordingState UInt64 → Prop) [DecidablePred Q]
    (C : RecordingTool → RecordingState UInt64 → Prop) [∀ tool s, Decidable (C tool s)]
    (h : (match RecordOptions.parse args with
      | .ok opts =>
        match (hpblrRecord opts).start countingEngine device 0 with
        | .ok s₀ => decide (C (hpblrRecord opts) s₀) &&
            (Transition.run ((hpblrRecord opts).step countingEngine) s₀ labels).any
              (fun s => decide (Q s))
        | .error _ => false
      | .error _ => false) = true) :
    ∃ opts s₀ s, RecordOptions.parse args = .ok opts ∧
      (hpblrRecord opts).start countingEngine device 0 = .ok s₀ ∧
      C (hpblrRecord opts) s₀ ∧
      Transition.run ((hpblrRecord opts).step countingEngine) s₀ labels = some s ∧ Q s := by
  split at h
  · rename_i opts hparse
    split at h
    · rename_i s₀ hstart
      rw [Bool.and_eq_true, Option.any_eq_true] at h
      obtain ⟨hC, s, hrun, hQ⟩ := h
      exact ⟨opts, s₀, s, hparse, hstart, of_decide_eq_true hC, hrun, of_decide_eq_true hQ⟩
    · cases h
  · cases h

/-- One event is recorded, the final flush fails, and `main` returns after the second `stop`. -/
def failingFlush : List RecordingLabel :=
  List.replicate 2 (.main none) ++ List.replicate 14 (.producer 0 0 none) ++
  List.replicate 7 (.main none) ++ List.replicate 14 (.writer none) ++
  List.replicate 7 (.main none)

/-- The failure of the flush reaches `main`, and the exit code is 1. -/
theorem ends_through_main_flush : ∃ opts s₀ s,
    RecordOptions.parse ["--producers", "1", "--events", "1", "--payload-size", "0"] = .ok opts ∧
    (hpblrRecord opts).start countingEngine .full 0 = .ok s₀ ∧
    Transition.run ((hpblrRecord opts).step countingEngine) s₀ failingFlush = some s ∧
    s.terminated = false ∧ s.mainAt = .exited 1 ∧
    1 = if s.recorder.failure = none then 0 else 1 := by
  obtain ⟨opts, s₀, s, hparse, hstart, hclear, hrun, hexited⟩ :=
    exists_run ["--producers", "1", "--events", "1", "--payload-size", "0"]
      .full failingFlush (fun s => s.mainAt = .exited 1)
      (fun tool s₀ => Transition.Along (tool.step countingEngine) (fun s l => tool.clear s l) s₀
        failingFlush) (by decide +kernel)
  obtain ⟨hrunning, _, hcode⟩ := ends_through_main (.record hparse) hstart hclear hrun
  exact ⟨opts, s₀, s, hparse, hstart, hrun, hrunning, hexited, hcode 1 hexited⟩

/-! ## A payload that no record can hold -/

/-- The generators and the events that were submitted have payloads of the configured size. -/
structure Sized (tool : RecordingTool) (s : RecordingState R) : Prop where
  generators : ∀ p, (s.generators p).config.payloadSize = tool.payloadSize
  submits : s.recorder.OnlySubmits (fun event => event.payload.length = tool.payloadSize.toNat)

theorem Sized.step (hsized : tool.Sized s) (h : RecordingMove tool engine s l s') :
    tool.Sized s' := by
  obtain ⟨hgenerators, hsubmits⟩ := hsized
  have hother {l' : RecorderLabel ℕ} {recorder : AsyncRecorder ℕ} (hlabel : l'.event = none)
      (hstep : s.recorder.step l' = some recorder) :
      recorder.OnlySubmits (fun event => event.payload.length = tool.payloadSize.toNat) :=
    hsubmits.step (fun event hevent => by simp [hlabel] at hevent) (AsyncRecorder.step_move hstep)
  cases h with
  | @generates p sequence now _ event generator _ _ hnext hstep =>
    rcases (s.generators p).next_cases engine sequence now with ⟨_, e, hthrows⟩ |
      ⟨_, event', rng, hreturns, _, _, _, hpayload⟩
    · rw [hthrows] at hnext
      cases hnext
    · rw [hreturns] at hnext
      cases hnext
      rw [hgenerators p] at hpayload
      refine ⟨fun p' => ?_, hsubmits.step (fun event hevent => ?_) (AsyncRecorder.step_move hstep)⟩
      · by_cases heq : p' = p
        · subst heq
          simpa using hgenerators p'
        · simpa [heq] using hgenerators p'
      · obtain rfl := Option.some.inj hevent
        exact hpayload
  | submitRuns _ hstep | stops _ _ hstep | stopRuns _ hstep | stopThrows _ _ hstep
  | reports _ _ hstep | reportThrows _ _ hstep | writes hstep | wakes hstep =>
    exact ⟨hgenerators, hother rfl hstep⟩
  | _ => exact ⟨hgenerators, hsubmits⟩

/-- The accepted events have payloads of the configured size, whether the writer has failed or not. -/
theorem payload_of_run (hstart : tool.start engine device now = .ok s₀)
    {labels : List RecordingLabel}
    (hrun : Transition.run (tool.step engine) s₀ labels = some s) :
    ∀ event ∈ s.recorder.queue.accepted.map Prod.snd,
      event.payload.length = tool.payloadSize.toNat := by
  have hfirst : tool.Sized s₀ := by
    obtain ⟨recorder, hnew, rfl⟩ := start_eq hstart
    have hempty : Transition.run AsyncRecorder.step recorder [] = some recorder := rfl
    exact ⟨fun p => rfl, AsyncRecorder.onlySubmits_of_run hnew hempty (by simp)⟩
  have hsized : tool.Sized s :=
    Transition.run_invariant (I := tool.Sized) (fun h hstep => h.step (step_move hstep).2) hfirst hrun
  exact (Lifecycle.of_run hstart hrun).recording.accounts.accepted_only hsized.submits

/-- An event that is too large lets the writer fail, and once the writer error is set, a producer
before its check throws. -/
theorem terminates_of_oversized {opts : RecordOptions} {event event' : Event}
    (hrunning : s.terminated = false) (hproducer : s.producerAt 0 = .submitting)
    (hsubmit : s.recorder.submitAt 0 = .checking event) (hwriter : s.recorder.runAt = .appending event')
    (hlarge : event'.payload.length > kMaxPayloadBytes) (hopen : s.recorder.writer.closed = false)
    (hnone : s.recorder.writerError = none)
    (hclose : (s.recorder.queue.step (.call .writer .close)).isSome = true) :
    ∃ s', Transition.run ((hpblrRecord opts).step engine) s
        [.writer none, .writer none, .producer 0 0 none, .producer 0 0 none] = some s' ∧
      s'.terminated = true ∧ s'.mainAt = s.mainAt := by
  obtain ⟨e, happend⟩ : ∃ e, s.recorder.writer.append event' = (.error e, s.recorder.writer) := by
    rcases s.recorder.writer.append_cases event' with ⟨hclosed, _⟩ | ⟨_, _, heq⟩ | ⟨_, hsmall, _⟩
    · exact absurd (hopen.symm.trans hclosed) Bool.false_ne_true
    · exact ⟨_, heq⟩
    · exact absurd hlarge hsmall.not_gt
  obtain ⟨queue, hqueue⟩ := Option.isSome_iff_exists.mp hclose
  -- `append` throws, its exception is kept, the check finds it, and it leaves the producer thread.
  simp [Transition.run, RecordingTool.step, hrunning, RecordingState.recorderStep,
    AsyncRecorder.step, AsyncRecorder.stepRun, hwriter, happend, AsyncRecorder.queueStep,
    AsyncRecorder.setWriterError, hnone, hqueue, stepProducer, hproducer, hsubmit,
    AsyncRecorder.stepSubmit, AsyncRecorder.submitReturns]

/-- The producer submits an event and comes to the check of its second one, and the background thread
is about to append the first one. -/
def secondCheck : List RecordingLabel :=
  List.replicate 2 (.main none) ++ List.replicate 15 (.producer 0 0 none) ++
  List.replicate 3 (.writer none)

/-- No record holds the first event, and the second `submit` throws in the producer thread. -/
theorem producer_terminates : ∃ opts s₀ s,
    RecordOptions.parse ["--producers", "1", "--payload-size", "16777217"] = .ok opts ∧
    (hpblrRecord opts).start countingEngine .reliable 0 = .ok s₀ ∧
    Transition.run ((hpblrRecord opts).step countingEngine) s₀
      (secondCheck ++ [.writer none, .writer none, .producer 0 0 none, .producer 0 0 none]) =
        some s ∧
    s.terminated = true ∧ s.mainAt = .joining 0 := by
  obtain ⟨opts, s₀, s₁, hparse, hstart, hsize, hrun, hrunning, hproducer, hsubmit, hwriter, hopen,
      hnone, hclose, hmain⟩ :=
    exists_run ["--producers", "1", "--payload-size", "16777217"] .reliable secondCheck
      (fun s => s.terminated = false ∧ s.producerAt 0 = .submitting ∧
        (match s.recorder.submitAt 0 with | .checking _ => true | _ => false) = true ∧
        (match s.recorder.runAt with | .appending _ => true | _ => false) = true ∧
        s.recorder.writer.closed = false ∧ s.recorder.writerError.isNone = true ∧
        (s.recorder.queue.step (.call .writer .close)).isSome = true ∧ s.mainAt = .joining 0)
      (fun tool _ => tool.payloadSize = 16777217) (by decide +kernel)
  split at hsubmit
  swap
  · cases hsubmit
  split at hwriter
  swap
  · cases hwriter
  rename_i event hchecking _ event' happending
  have hrecording := (Lifecycle.of_run hstart hrun).recording
  have haccepted : event' ∈ s₁.recorder.queue.accepted.map Prod.snd := by
    rw [hrecording.queue.channel.fifo, hrecording.writing.handed, happending]
    simp [AsyncRecorder.inFlight]
  have hlarge : event'.payload.length > kMaxPayloadBytes := by
    rw [payload_of_run hstart hrun event' haccepted, hsize]
    decide
  obtain ⟨s, hends, hterminated, hsame⟩ := terminates_of_oversized hrunning hproducer hchecking
    happending hlarge hopen (Option.isNone_iff_eq_none.mp hnone) hclose
  exact ⟨opts, s₀, s, hparse, hstart, Transition.run_append.mpr ⟨s₁, hrun, hends⟩, hterminated,
    hsame.trans hmain⟩

end RecordingTool

end Hpblr
