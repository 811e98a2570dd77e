import Hpblr.Apps.Provenance

/-!
# What a recording tool reports

After `stop` the tools print the counter `generated` and the statistics of the recorder, and
`hpblr_bench` asks for the size of its output file. In a finished run these numbers say what is in
the file. A producer owes a count to `generated` from the moment on at which its call of `submit`
has returned true.
-/

namespace Hpblr

variable {R : Type*}

/-! ## The counters of the recorder -/

namespace AsyncRecorder

variable {P : Type*} [DecidableEq P] {s s' : AsyncRecorder P} {l : RecorderLabel P} {p : P}
  {n : Option (RecorderThread P)}

/-- The steps of the thread that stops and the wake-ups leave the statistics as they are. -/
theorem stats_of_stopper (hstages : s.Stages) (h : RecorderMove s l s')
    (hl : l = .stop ∨ (∃ n, l = .run .stopper n) ∨ ∃ t, l = .wake t) : s'.stats = s.stats := by
  have hqueue {q : QueueState (RecorderThread P) Event} (hsame : q.queue = s.queue.queue)
      {s' : AsyncRecorder P} (hcounters : s'.submitted = s.submitted ∧ s'.rejected = s.rejected ∧
        s'.written = s.written ∧ s'.queue = q) : s'.stats = s.stats := by
    obtain ⟨hsubmitted, hrejected, hwritten, rfl⟩ := hcounters
    simp [stats, hsubmitted, hrejected, hwritten, hsame]
  cases h with
  | exchangesFirst _ _ hstep =>
    refine hqueue ?_ ⟨rfl, rfl, rfl, rfl⟩
    rw [(QueueState.step_move hstep).of_call.1]
  | stopCloseRuns _ hstep =>
    have hmove := QueueState.step_move hstep
    rcases hstages.inCall_cases hmove.inCall with ⟨_, _, hproducer, _⟩ | ⟨hwriter, _⟩ |
      ⟨hclosing, _⟩
    · cases hproducer
    · cases hwriter
    · exact hqueue (hmove.of_close hclosing).2.2.1 ⟨rfl, rfl, rfl, rfl⟩
  | wakes hstep => exact hqueue (QueueState.step_move hstep).of_wake.2.2.2.1 ⟨rfl, rfl, rfl, rfl⟩
  | stopCalled => rfl
  | exchangesAgain => rfl
  | stopCloseReturns => rfl
  | joins => rfl
  | hasJoined => rfl
  | stopThrows => rfl
  | stopReturns => rfl
  | _ => simp at hl

/-- The background thread takes no step once it has ended. -/
theorem runAt_of_writer (h : RecorderMove s (.run .writer n) s') : s.runAt ≠ .ended := by
  cases h <;> simp_all

/-- Only a call in the stage of rejection counts a rejected event. -/
theorem rejected_of_step (h : RecorderMove s l s') :
    s'.rejected = s.rejected ∨
      ∃ p event n, l = .run (.producer p) n ∧ s.submitAt p = .rejecting event := by
  cases h with
  | submitRejects hat => exact Or.inr ⟨_, _, _, rfl, hat⟩
  | _ => exact Or.inl rfl

/-- A step of a producer inside `submit` completes a call that returns true, and its stage says so,
or it completes no such call. -/
theorem results_of_run (h : RecorderMove s (.run (.producer p) n) s') :
    (s'.submitAt p = .returned (.returned true) ∧ s'.results true = s.results true + 1) ∨
    (s'.submitAt p ≠ .returned (.returned true) ∧ s'.results true = s.results true) := by
  cases h with
  | submitCounts => exact Or.inl ⟨Function.update_self .., by simp [results, submitReturns]⟩
  | submitThrows => exact Or.inr ⟨by simp [submitReturns], by simp [results, submitReturns]⟩
  | submitRejects => exact Or.inr ⟨by simp [submitReturns], by simp [results, submitReturns]⟩
  | submitPasses => exact Or.inr ⟨by simp [producerAt], rfl⟩
  | submitStopped => exact Or.inr ⟨by simp [producerAt], rfl⟩
  | pushCalled => exact Or.inr ⟨by simp, rfl⟩
  | pushRuns hat => exact Or.inr ⟨by simp [hat], rfl⟩
  | pushAccepted => exact Or.inr ⟨by simp [producerAt], rfl⟩
  | pushRefused => exact Or.inr ⟨by simp [producerAt], rfl⟩

/-- The other steps complete no call of `submit`. -/
theorem results_of_other (h : RecorderMove s l s') (hl : ∀ p n, l ≠ .run (.producer p) n) :
    s'.results true = s.results true := by
  rcases submits_cases h with hsame | ⟨p, _, _, n, heq, _⟩
  · rw [results, results, hsame]
  · exact absurd heq (hl p n)

end AsyncRecorder

/-! ## The counter of the tool -/

namespace RecordingState

/-- What a producer still has to add to `generated`. -/
def owes (s : RecordingState R) (p : ℕ) : ℕ :=
  match s.producerAt p with
  | .counting => 1
  | .submitting => if s.recorder.submitAt p = .returned (.returned true) then 1 else 0
  | _ => 0

/-- What all producers still have to add. -/
def owed (s : RecordingState R) (producers : ℕ) : ℕ := ∑ p ∈ Finset.range producers, s.owes p

end RecordingState

namespace RecordingTool

variable {tool : RecordingTool} {engine : RandomEngine R} {s s' s₀ : RecordingState R}
  {l : RecordingLabel} {device : Device} {now now' : UInt64} {p : ℕ}
  {n : Option (RecorderThread ℕ)} {events : UInt64} {labels : List RecordingLabel}

/-- The steps of the others leave what a producer owes. -/
theorem owes_of_other (hlife : Lifecycle tool s now) (h : RecordingMove tool engine s l s')
    (hl : ∀ now n, l ≠ .producer p now n) : s'.owes p = s.owes p := by
  have hsubmit : s'.recorder.submitAt p = s.recorder.submitAt p := by
    rcases recorder_of_other h hl with hsame | ⟨l', hstep, hl'⟩
    · rw [hsame]
    · exact AsyncRecorder.submitAt_of_other (AsyncRecorder.step_move hstep) hl'
  unfold RecordingState.owes
  rw [hsubmit]
  rcases producerAt_of_other h hl with hsame | ⟨hspawning, hstarted⟩
  · rw [hsame]
  · rw [hstarted, unborn_of_spawning hlife hspawning]

/-- A step of a producer changes what is owed by what this producer owes. -/
theorem owed_of_producer (hlife : Lifecycle tool s now)
    (h : RecordingMove tool engine s (.producer p now' n) s') {producers : ℕ}
    (hp : p < producers) :
    s'.owed producers + s.owes p = s.owed producers + s'.owes p := by
  have hmem := Finset.mem_range.mpr hp
  have hother : ∑ p' ∈ (Finset.range producers).erase p, s'.owes p' =
      ∑ p' ∈ (Finset.range producers).erase p, s.owes p' := by
    refine Finset.sum_congr rfl fun p' hp' => owes_of_other hlife h fun now n heq => ?_
    cases heq
    exact Finset.ne_of_mem_erase hp' rfl
  unfold RecordingState.owed
  rw [← Finset.add_sum_erase _ _ hmem, ← Finset.add_sum_erase _ _ hmem, hother]
  omega

/-- The steps of the other threads leave what is owed. -/
theorem owed_of_other (hlife : Lifecycle tool s now) (h : RecordingMove tool engine s l s')
    (hl : ∀ p now n, l ≠ .producer p now n) (producers : ℕ) :
    s'.owed producers = s.owed producers :=
  Finset.sum_congr rfl fun p _ => owes_of_other hlife h (hl p)

/-- A step of a producer: the calls that have returned true are those counted before, those that the
step counts and those that are still owed. -/
theorem owes_step (hcounts : tool.countsGenerated = true)
    (h : RecordingMove tool engine s (.producer p now' n) s') :
    ∃ k, s'.generated = s.generated + UInt64.ofNat k ∧
      s'.recorder.results true + s.owes p = s.recorder.results true + s'.owes p + k := by
  cases h with
  | seesStop hat => exact ⟨0, by simp [RecordingState.producerTo],
      by simp [RecordingState.owes, hat, RecordingState.producerTo]⟩
  | goesOn hat => exact ⟨0, by simp [RecordingState.producerTo],
      by simp [RecordingState.owes, hat, RecordingState.producerTo]⟩
  | draws hat => exact ⟨0, by simp [RecordingState.producerTo],
      by simp [RecordingState.owes, hat, RecordingState.producerTo]⟩
  | isPast hat => exact ⟨0, by simp [RecordingState.producerTo],
      by simp [RecordingState.owes, hat, RecordingState.producerTo]⟩
  | isWithin hat => exact ⟨0, by simp [RecordingState.producerTo],
      by simp [RecordingState.owes, hat, RecordingState.producerTo]⟩
  | generateThrows => exact ⟨0, by simp, rfl⟩
  | submitThrows => exact ⟨0, by simp, rfl⟩
  | generates hat _ hstep =>
    have hmove := AsyncRecorder.step_move hstep
    refine ⟨0, by simp [RecordingState.producerTo], ?_⟩
    have hsubmit := AsyncRecorder.submitAt_of_call hmove
    simp [RecordingState.owes, hat, RecordingState.producerTo, hsubmit,
      AsyncRecorder.results_of_other hmove]
  | submitRuns hat hstep =>
    have hmove := AsyncRecorder.step_move hstep
    have hin := (AsyncRecorder.submitAt_of_run hmove).1
    have hnot : s.recorder.submitAt p ≠ .returned (.returned true) := by
      intro hreturned
      rw [hreturned] at hin
      exact hin
    refine ⟨0, by simp, ?_⟩
    rcases AsyncRecorder.results_of_run hmove with ⟨hreturned, hresults⟩ | ⟨hreturned, hresults⟩
    · simp [RecordingState.owes, hat, hnot, hreturned, hresults]
    · simp [RecordingState.owes, hat, hnot, hreturned, hresults]
  | isAccepted hat hresult =>
    refine ⟨0, by simp [RecordingState.producerTo], ?_⟩
    simp [RecordingState.owes, hat, RecordingState.producerTo, hcounts, hresult]
  | isRefused hat hresult =>
    refine ⟨0, by simp [RecordingState.producerTo], ?_⟩
    simp [RecordingState.owes, hat, RecordingState.producerTo, hresult]
  | counts hat =>
    refine ⟨1, by simp, ?_⟩
    simp [RecordingState.owes, hat, RecordingState.producerTo]

theorem generated_of_other (h : RecordingMove tool engine s l s')
    (hl : ∀ p now n, l ≠ .producer p now n) : s'.generated = s.generated := by
  cases h with
  | counts => exact absurd rfl (hl _ _ _)
  | _ => rfl

/-! ## The tally of a run -/

/-- What is known of the counters in a reachable state. -/
structure Tallied (tool : RecordingTool) (s : RecordingState R) : Prop where
  accepting : s.recorder.stopAt = .outside → s.recorder.failure = none → s.recorder.Accepting
  rejected : s.recorder.failure = none → s.recorder.rejected = 0
  generated : tool.countsGenerated = true → UInt64.ofNat (s.recorder.results true) =
    s.generated + UInt64.ofNat (s.owed tool.producers.toNat)
  /-- The numbers that were reported are still the counters. -/
  reported : ∀ r, s.reported = some r →
    ((∃ code, s.mainAt = .leaving code) ∨ ∃ code, s.mainAt = .exited code) ∧
      r = (s.generated, s.recorder.stats)

private theorem rejected_step (htallied : tool.Tallied s) (hlife : Lifecycle tool s now)
    (h : RecordingMove tool engine s l s') (hfailure : s'.recorder.failure = none) :
    s'.recorder.rejected = 0 := by
  rcases recorder_step h with hsame | ⟨l', hstep, hown⟩
  · rw [hsame] at hfailure ⊢
    exact htallied.rejected hfailure
  · have hmove := AsyncRecorder.step_move hstep
    have hnone := AsyncRecorder.failure_of_step hmove hfailure
    rcases AsyncRecorder.rejected_of_step hmove with hsame | ⟨p, event, n, hl', hat⟩
    · rw [hsame]
      exact htallied.rejected hnone
    · -- Before `stop`, a queue whose writer has not failed refuses nothing.
      obtain ⟨now', n', rfl⟩ := hown p (Or.inr ⟨n, hl'⟩)
      obtain ⟨_, houtside⟩ := outside_of_producer hlife h
      exact absurd hat ((htallied.accepting houtside hnone).rejecting p event)

private theorem generated_step (htallied : tool.Tallied s) (hlife : Lifecycle tool s now)
    (h : RecordingMove tool engine s l s') (hcounts : tool.countsGenerated = true) :
    UInt64.ofNat (s'.recorder.results true) =
      s'.generated + UInt64.ofNat (s'.owed tool.producers.toNat) := by
  have hgenerated := htallied.generated hcounts
  by_cases hl : ∃ p now n, l = .producer p now n
  · obtain ⟨p, now', n, rfl⟩ := hl
    obtain ⟨hp, _⟩ := outside_of_producer hlife h
    have howed := owed_of_producer hlife h hp
    obtain ⟨k, hmore, hresults⟩ := owes_step hcounts h
    have hsum : s'.recorder.results true + s.owed tool.producers.toNat =
        s.recorder.results true + k + s'.owed tool.producers.toNat := by omega
    have hwords := congrArg UInt64.ofNat hsum
    rw [UInt64.ofNat_add, UInt64.ofNat_add, UInt64.ofNat_add, hgenerated] at hwords
    rw [hmore]
    refine (UInt64.add_left_inj (UInt64.ofNat (s.owed tool.producers.toNat))).mp ?_
    rw [hwords]
    ac_rfl
  · have hl' : ∀ p now n, l ≠ .producer p now n := fun p now n heq => hl ⟨p, now, n, heq⟩
    have hresults : s'.recorder.results true = s.recorder.results true := by
      rcases recorder_step h with hsame | ⟨l', hstep, hown⟩
      · rw [hsame]
      · refine AsyncRecorder.results_of_other (AsyncRecorder.step_move hstep) fun p n heq => ?_
        obtain ⟨now', n', hproducer⟩ := hown p (Or.inr ⟨n, heq⟩)
        exact hl' p now' n' hproducer
    rw [hresults, generated_of_other h hl', owed_of_other hlife h hl']
    exact hgenerated

/-- Once `main` has reported, the background thread has ended, and so have the producers. -/
theorem ended_of_reported (hlife : Lifecycle tool s now)
    (hat : (∃ code, s.mainAt = .leaving code) ∨ ∃ code, s.mainAt = .exited code) :
    (∀ p < tool.producers.toNat, s.producerAt p = .ended) ∧ s.recorder.runAt = .ended := by
  have hmain := hlife.main
  rcases hat with ⟨code, hat⟩ | ⟨code, hat⟩
  · rw [hat] at hmain
    exact ⟨hmain.2.1, hmain.2.2.2.1⟩
  · rw [hat] at hmain
    exact ⟨hmain.2.1, hmain.2.2.1⟩

private theorem reported_step (htallied : tool.Tallied s) (hlife : Lifecycle tool s now)
    (h : RecordingMove tool engine s l s') (r : UInt64 × AsyncRecorderStats)
    (hr : s'.reported = some r) :
    ((∃ code, s'.mainAt = .leaving code) ∨ ∃ code, s'.mainAt = .exited code) ∧
      r = (s'.generated, s'.recorder.stats) := by
  have hstages := hlife.recording.stages
  by_cases hl : ∃ p now n, l = .producer p now n
  · -- A producer takes no step after the report.
    obtain ⟨p, now', n, rfl⟩ := hl
    have hbefore : s.reported = some r := by
      cases h <;> exact hr
    have hended := (ended_of_reported hlife (htallied.reported r hbefore).1).1 p
      (outside_of_producer hlife h).1
    cases h <;> simp_all
  · cases h with
    | reports hat hreport hstep =>
      have hstats := AsyncRecorder.stats_of_stopper hstages (AsyncRecorder.step_move hstep)
        (Or.inl rfl)
      cases hr
      exact ⟨Or.inl ⟨0, rfl⟩, by simp [hstats]⟩
    | writes hstep =>
      have hended := (ended_of_reported hlife (htallied.reported r hr).1).2
      exact absurd hended (AsyncRecorder.runAt_of_writer (AsyncRecorder.step_move hstep))
    | wakes hstep =>
      obtain ⟨hat, rfl⟩ := htallied.reported r hr
      have hstats := AsyncRecorder.stats_of_stopper hstages (AsyncRecorder.step_move hstep)
        (Or.inr (Or.inr ⟨_, rfl⟩))
      exact ⟨hat, by simp [hstats]⟩
    | stopRuns hat hstep =>
      obtain ⟨hat, rfl⟩ := htallied.reported r hr
      have hstats := AsyncRecorder.stats_of_stopper hstages (AsyncRecorder.step_move hstep)
        (Or.inr (Or.inl ⟨_, rfl⟩))
      exact ⟨hat, by simp [hstats]⟩
    | signals => exact htallied.reported r hr
    | exits hat =>
      obtain ⟨_, rfl⟩ := htallied.reported r hr
      exact ⟨Or.inr ⟨_, rfl⟩, rfl⟩
    | spawns hat => have hmain := (htallied.reported r hr).1; simp [hat] at hmain
    | allSpawned hat => have hmain := (htallied.reported r hr).1; simp [hat] at hmain
    | joins hat => have hmain := (htallied.reported r hr).1; simp [hat] at hmain
    | stops hat => have hmain := (htallied.reported r hr).1; simp [hat] at hmain
    | stopReturns hat => have hmain := (htallied.reported r hr).1; simp [hat] at hmain
    | stopThrows hat => have hmain := (htallied.reported r hr).1; simp [hat] at hmain
    | reportThrows hat => have hmain := (htallied.reported r hr).1; simp [hat] at hmain
    | _ => exact absurd ⟨_, _, _, rfl⟩ hl

/-- Every step keeps the tally. -/
theorem Tallied.step (htallied : tool.Tallied s) (hlife : Lifecycle tool s now)
    (h : RecordingMove tool engine s l s') : tool.Tallied s' where
  accepting := by
    rcases recorder_step h with hsame | ⟨l', hstep, _⟩
    · rw [hsame]
      exact htallied.accepting
    · exact AsyncRecorder.accepting_step hlife.recording htallied.accepting
        (AsyncRecorder.step_move hstep)
  rejected := rejected_step htallied hlife h
  generated := generated_step htallied hlife h
  reported := reported_step htallied hlife h

theorem Tallied.start (h : tool.start engine device now = .ok s) : tool.Tallied s := by
  obtain ⟨recorder, hnew, rfl⟩ := start_eq h
  have hfirst : recorder.rejected = 0 ∧ recorder.results true = 0 ∧ recorder.Accepting := by
    have haccepting := AsyncRecorder.Accepting.new hnew
    obtain ⟨writer, _, rfl⟩ := AsyncRecorder.new_eq hnew
    exact ⟨rfl, rfl, haccepting⟩
  refine ⟨fun _ _ => hfirst.2.2, fun _ => hfirst.1, fun _ => ?_, by simp⟩
  simp [hfirst.2.1, RecordingState.owed, RecordingState.owes]

theorem tallied_of_run (hstart : tool.start engine device now = .ok s₀)
    (hrun : Transition.run (tool.step engine) s₀ labels = some s) : tool.Tallied s :=
  (Transition.run_invariant (I := fun s => Lifecycle tool s now ∧ tool.Tallied s)
    (fun hs hstep => ⟨hs.1.step hstep, hs.2.step hs.1 (step_move hstep).2⟩)
    ⟨.start hstart, .start hstart⟩ hrun).2

/-! ## Finished runs -/

/-- In a finished run every call of `submit` has completed. -/
theorem Finishes.submitsCompleted (h : tool.Finishes engine events device now labels s₀ s) :
    s.recorder.SubmitsCompleted := by
  have hlife := Lifecycle.of_run h.start h.run
  intro p hin
  have hat := (ended_of_hasStopped hlife h.stopped).1 p
  rw [(hlife.submit p).submitting hin] at hat
  split at hat <;> cases hat

/-- The statistics after `stop` are the number of recorded events. -/
theorem Finishes.stats_eq (h : tool.Finishes engine events device now labels s₀ s) :
    s.recorder.results true = (recordedEvents s).length ∧
    s.recorder.stats = {
      submitted := UInt64.ofNat (recordedEvents s).length
      rejected := 0
      written := UInt64.ofNat (recordedEvents s).length
      queueDepth := 0 } := by
  have hrecording := (Lifecycle.of_run h.start h.run).recording
  obtain ⟨hended, hempty⟩ := ended_of_hasStopped (Lifecycle.of_run h.start h.run) h.stopped
  obtain ⟨hqueue, haccepted⟩ := hrecording.file_of_ended hempty h.failure
  have hlength : s.recorder.results true = (recordedEvents s).length := by
    rw [recordedEvents, List.length_map,
      (hrecording.accounts.accepted_perm h.submitsCompleted).length_eq,
      AsyncRecorder.length_confirmed]
  have hwritten : s.recorder.written = UInt64.ofNat (recordedEvents s).length := by
    have hwritten := hrecording.writing.written
    rw [hempty, ← haccepted] at hwritten
    simpa [AsyncRecorder.uncounted, recordedEvents] using hwritten
  refine ⟨hlength, ?_⟩
  rw [AsyncRecorder.stats, hrecording.accounts.submitted, hlength, hwritten, hqueue,
    (tallied_of_run h.start h.run).rejected h.failure]
  rfl

/-- Every recorded event is as the generator of its producer is configured. -/
theorem Finishes.configured (h : tool.Finishes engine events device now labels s₀ s) {k : ℕ}
    (hcompleted : tool.Completed events s k) : ∀ event ∈ recordedEvents s,
      EventGenerator.Configured (tool.generatorConfig event.producerId.toNat) event := by
  intro event hevent
  obtain ⟨_, hyields⟩ := h.streams hcompleted
  obtain ⟨clock, hrun⟩ := hyields event.producerId.toNat
  have hmem : event ∈ (recordedEvents s).filter
      (fun other => other.producerId.toNat = event.producerId.toNat) :=
    List.mem_filter.mpr ⟨hevent, by simp⟩
  exact EventGenerator.configured_of_run (congrArg Prod.fst hrun) event hmem

/-- The records of events with payloads of one size. -/
theorem length_encodeRecords {log : List Event} {size : ℕ}
    (hsize : ∀ event ∈ log, event.payload.length = size) :
    (encodeRecords log).length = log.length * (48 + size) := by
  induction log with
  | nil => simp
  | cons event log ih =>
    have hrest := ih fun event hevent => hsize event (List.mem_cons_of_mem _ hevent)
    rw [encodeRecords, List.flatMap_cons, List.length_append, ← encodeRecords, hrest,
      length_recordBytes, hsize event List.mem_cons_self, List.length_cons, Nat.succ_mul]
    omega

/-- **The summary is true.** For both tools, any options, any engine, any device, any interleaving
and a stop signal that becomes visible to the producers at any moments: if `main` has returned from
`stop` and the writer has not failed, the statistics of the recorder are the number of events that
the file reads back as, with none rejected and none left in the queue. So is the counter `generated`
of `hpblr_record`. What the tool has reported is what the counters say to the end, and from the
return of `stop` on the size of the file is that of its header and of so many records with payloads
of the configured size. -/
theorem summary_agrees (h : tool.Finishes engine events device now labels s₀ s) :
    ∃ log, s.recorder.ReadsBack tool.output log ∧ log.length < 2 ^ 64 ∧
      s.recorder.stats = {
        submitted := UInt64.ofNat log.length
        rejected := 0
        written := UInt64.ofNat log.length
        queueDepth := 0 } ∧
      (tool.countsGenerated = true → s.generated = UInt64.ofNat log.length) ∧
      (∀ report, s.reported = some report → report = (s.generated, s.recorder.stats)) ∧
      s.recorder.writer.out.content.length = 36 + log.length * (48 + tool.payloadSize.toNat) ∧
      (events ≠ 0 →
        (tool.stopsOnSignal = true → ∀ p < tool.producers.toNat, s.stopRequested p = false) →
          log.length = events.toNat) := by
  obtain ⟨k, hcompleted⟩ := h.completed
  have hlife := Lifecycle.of_run h.start h.run
  have htallied := tallied_of_run h.start h.run
  obtain ⟨hended, hrunAt⟩ := ended_of_hasStopped hlife h.stopped
  have hlength : (recordedEvents s).length = k := by
    simpa using hcompleted.numbers.length_eq
  obtain ⟨hresults, hstats⟩ := h.stats_eq
  refine ⟨recordedEvents s, hcompleted.reads, hlength ▸ hcompleted.small, hstats,
    fun hcounts => ?_, fun report hreport => (htallied.reported report hreport).2, ?_, ?_⟩
  · -- Producers that have ended owe nothing.
    have howed : s.owed tool.producers.toNat = 0 := by
      refine Finset.sum_eq_zero fun p hp => ?_
      have hat := hended p
      rw [if_pos (Finset.mem_range.mp hp)] at hat
      simp [RecordingState.owes, hat]
    have hgenerated := htallied.generated hcounts
    rw [howed, hresults] at hgenerated
    simpa using hgenerated.symm
  · obtain ⟨_, haccepted⟩ := hlife.recording.file_of_ended hrunAt h.failure
    have hpayloads : ∀ event ∈ recordedEvents s,
        event.payload.length = tool.payloadSize.toNat :=
      fun event hevent => (h.configured hcompleted event hevent).payload
    rw [recordedEvents, haccepted] at hpayloads ⊢
    rw [hlife.recording.writing.content_of_ended hrunAt h.failure, List.length_append,
      length_fileHeader, length_encodeRecords hpayloads]
  · exact fun hevents hunstopped => hlength.trans (hcompleted.limit hevents hunstopped)

/-- What `hpblr_record` prints about one event with 24 bytes of payload, and the size of its file. -/
theorem summary_agrees_one : ∃ (s : RecordingState UInt64) (log : List Event),
    s.recorder.ReadsBack oneEvent.output log ∧ log.length = 1 ∧
    s.reported = some (1, { submitted := 1, rejected := 0, written := 1, queueDepth := 0 }) ∧
    s.recorder.writer.out.content.length = 108 := by
  obtain ⟨s₀, s, hfinishes, hsignal, hsome⟩ := finishes_one
  obtain ⟨log, hreads, _, hstats, hgenerated, hreported, hlength, hall⟩ :=
    summary_agrees hfinishes
  have hone : log.length = 1 := hall (by decide) fun _ p hp => by
    obtain rfl := Nat.lt_one_iff.mp (show p < 1 from hp)
    exact hsignal
  obtain ⟨report, hreport⟩ := Option.isSome_iff_exists.mp hsome
  rw [hone] at hstats hgenerated hlength
  refine ⟨s, log, hreads, hone, ?_, hlength⟩
  rw [hreport, hreported report hreport, hstats, hgenerated rfl]
  rfl

end RecordingTool

end Hpblr
