import Hpblr.Apps.Summary
import Hpblr.Apps.Termination
import Hpblr.Recorder.Batching

/-!
# When a recording succeeds

With payloads that fit into a record, and a device that carries out the operations that the events can
need at most, the writer never fails. So no exception reaches a producer, and `main` returns 0 after a
bounded number of steps, with the events in the file.
-/

namespace Hpblr

namespace RecordingTool

open BinaryLogWriter

variable {R : Type*} {tool : RecordingTool} {engine : RandomEngine R} {s s' s₀ : RecordingState R}
  {l : RecordingLabel} {device : Device} {now events : UInt64} {drawn : ℕ}
  {labels : List RecordingLabel}

/-! ## What the accepted events need -/

/-- How many operations of the device so many events can need at most. -/
def deviceOperations (tool : RecordingTool) (events : UInt64) : ℕ :=
  4 + min events.toNat (events.toNat * (48 + tool.payloadSize.toNat) /
    (effectiveOptions { flushThresholdBytes := tool.flushBytes }).flushThresholdBytes.toNat)

theorem eventWrites_le {log : List Event}
    (hsize : ∀ event ∈ log, event.payload.length = tool.payloadSize.toNat)
    (hlength : log.length ≤ events.toNat) :
    4 + eventWrites { flushThresholdBytes := tool.flushBytes } log ≤
      tool.deviceOperations events := by
  have hbytes := Nat.div_le_div_right
    (c := (effectiveOptions { flushThresholdBytes := tool.flushBytes }).flushThresholdBytes.toNat)
    (Nat.mul_le_mul_right (48 + tool.payloadSize.toNat) hlength)
  unfold eventWrites deviceOperations
  rw [if_neg Bool.false_ne_true, length_encodeRecords hsize]
  omega

/-- As long as the writer has not failed, no more events are accepted than are to be generated. -/
theorem Numbering.length_le (hnumbering : tool.Numbering s drawn) (htool : Generates tool events)
    (hevents : events ≠ 0) : (recordedEvents s).length ≤ events.toNat := by
  have haccounted := Tickets.Accounted.of_moves hnumbering.moves
  have hbelow : (s.desk drawn).filed.map Prod.snd ⊆ List.range events.toNat := by
    intro i hi
    obtain ⟨x, hx, rfl⟩ := List.mem_map.mp hi
    have hwithin := haccounted.filed_within x hx
    obtain ⟨y, _, rfl⟩ := List.mem_map.mp hx
    rw [htool.past_nat_iff y.2.sequence.toNat_lt] at hwithin
    apply List.mem_range.mpr
    by_contra hge
    exact hwithin ⟨hevents, Nat.not_lt.mp hge⟩
  have hlength := (List.subperm_of_subset haccounted.nodup hbelow).length_le
  simpa [recordedEvents, RecordingState.desk] using hlength

/-! ## The writer does not fail -/

/-- A step with which the writer fails accepts nothing. -/
theorem recordedEvents_of_failing (hlife : Lifecycle tool s now)
    (h : RecordingMove tool engine s l s') (hnone : s.recorder.failure = none)
    (hfailed : s'.recorder.failure ≠ none) : recordedEvents s' = recordedEvents s := by
  rcases recorder_step h with hsame | ⟨l', hstep, _⟩
  · rw [hsame] at hfailed
    exact absurd hnone hfailed
  · have hmove := AsyncRecorder.step_move hstep
    obtain ⟨n, rfl⟩ : ∃ n, l' = .run .writer n := by
      by_contra hother
      have hsame := AsyncRecorder.sameWriter_of_move hlife.recording.stages hmove
        (not_exists.mp hother)
      exact hfailed (hsame.failure.trans hnone)
    rcases AsyncRecorder.accepted_cases hlife.recording.stages hmove with hsame | ⟨p, event, n', hl, _⟩
    · rw [recordedEvents, hsame, recordedEvents]
    · cases hl

/-- Without a writer error, and with payloads that a vector can hold, every step is clear. -/
theorem clear_of_running (herror : s.recorder.writerError = none)
    (hfits : tool.payloadSize ≤ vectorMaxSize) (l : RecordingLabel) : tool.clear s l = true := by
  cases l with
  | producer p now' n =>
    cases hat : s.producerAt p with
    | submitting => cases hsubmit : s.recorder.submitAt p <;> simp [clear, hat, hsubmit, herror]
    | generating sequence => simp [clear, hat, hfits]
    | _ => simp [clear, hat]
  | _ => rfl

/-- With such a device, in every run the writer does not fail and no exception reaches a producer. -/
theorem running_of_device (htool : Generates tool events) (hevents : events ≠ 0)
    (hproducers : tool.producers.toNat ≤ 2 ^ 32)
    (hbound : events.toNat + tool.producers.toNat < 2 ^ 64)
    (hpayload : tool.payloadSize.toNat ≤ kMaxPayloadBytes)
    (hdevice : ∀ n < tool.deviceOperations events, device n = none)
    (hstart : tool.start engine device now = .ok s₀)
    (hrun : Transition.run (tool.step engine) s₀ labels = some s) :
    s.recorder.failure = none ∧ s.Contained := by
  let I (t : RecordingState R) : Prop :=
    (∃ before, Transition.run (tool.step engine) s₀ before = some t) ∧
      t.recorder.failure = none ∧ t.Contained
  have hinv {t t' : RecordingState R} {l : RecordingLabel} (ht : I t)
      (hstep : tool.step engine t l = some t') : I t' := by
    obtain ⟨⟨before, hbefore⟩, hnone, hcontained⟩ := ht
    have hlife := Lifecycle.of_run hstart hbefore
    have hrun' : Transition.run (tool.step engine) s₀ (before ++ [l]) = some t' :=
      Transition.run_append.mpr ⟨t, hbefore, Transition.run_cons.mpr ⟨t', hstep, rfl⟩⟩
    have hfits : tool.payloadSize ≤ vectorMaxSize :=
      UInt64.le_iff_toNat_le.mpr (hpayload.trans (by decide))
    have hclear := clear_of_running (hlife.recording.writing.running hnone).writerError hfits l
    refine ⟨⟨_, hrun'⟩, ?_, contained_step hlife hcontained hclear hstep⟩
    by_contra hfailed
    -- The step that fails accepts nothing, so the device has carried out all that was asked of it.
    have hnumbering := (tracked_of_run htool hproducers hbound hstart hbefore).numbering hnone
      fun hzero => absurd hzero hevents
    have hlength := hnumbering.length_le htool hevents
    rw [← recordedEvents_of_failing hlife (step_move hstep).2 hnone hfailed] at hlength
    have hsize := payload_of_run hstart hrun'
    have hneeds := eventWrites_le hsize hlength
    obtain ⟨labels', hrecorder⟩ := recorder_run hrun'
    obtain ⟨recorder, hnew, rfl⟩ := start_eq hstart
    obtain ⟨failure, hfailure⟩ := Option.ne_none_iff_exists'.mp hfailed
    obtain ⟨event, hevent, _, hlarge⟩ := (AsyncRecorder.failure_of_device hnew hrecorder
      fun n hn => hdevice n (hn.trans_le hneeds)).2 failure hfailure
    have hsmall := hsize event hevent
    omega
  have hfirst : s₀.recorder.failure = none := by
    obtain ⟨recorder, hnew, rfl⟩ := start_eq hstart
    obtain ⟨writer, _, rfl⟩ := AsyncRecorder.new_eq hnew
    rfl
  exact (Transition.run_invariant (I := I) hinv
    ⟨⟨[], rfl⟩, hfirst, contained_start hstart⟩ hrun).2

/-! ## The end -/

/-- **When a recording succeeds.** For both tools with a number of events to generate, payloads that fit
into a record, a report that can be written and a device that carries out the operations that these
events can need at most, in every interleaving: the process is not terminated, it takes a bounded
number of steps, and some thread can go on until `main` has returned. Then the exit code is 0, and the
file reads back as events that are numbered from zero on without gap or repetition, as many as were to
be generated unless a stop was requested. -/
theorem recording_succeeds (htool : Generates tool events) (hevents : events ≠ 0)
    (hproducers : tool.producers.toNat ≤ 2 ^ 32)
    (hbound : events.toNat + tool.producers.toNat < 2 ^ 64)
    (hpayload : tool.payloadSize.toNat ≤ kMaxPayloadBytes) (hreport : tool.report = .ok ())
    (hdevice : ∀ n < tool.deviceOperations events, device n = none)
    (hstart : tool.start engine device now = .ok s₀)
    (hrun : Transition.run (tool.step engine) s₀ labels = some s) :
    s.terminated = false ∧
    Transition.total RecordingLabel.cost labels ≤
      18 * events.toNat + 9 * tool.producers.toNat + 33 +
        Transition.total RecordingLabel.credit labels ∧
    ((∀ code, s.mainAt ≠ .exited code) → tool.CanStep engine s) ∧
    ∀ code, s.mainAt = .exited code → code = 0 ∧
      ∃ log, s.recorder.ReadsBack tool.output log ∧
        (log.map (fun event => event.sequence.toNat)).Perm (List.range log.length) ∧
        log.length ≤ events.toNat ∧
        ((tool.stopsOnSignal = true → ∀ p < tool.producers.toNat, s.stopRequested p = false) →
          log.length = events.toNat) := by
  obtain ⟨hfailure, hcontained⟩ :=
    running_of_device htool hevents hproducers hbound hpayload hdevice hstart hrun
  have hlife := Lifecycle.of_run hstart hrun
  refine ⟨hcontained.running, limited_cost_le htool hevents hbound hstart hrun,
    canStep hlife hcontained.running, fun code hexited => ⟨?_, ?_⟩⟩
  · have hmain := hlife.main
    rw [hexited] at hmain
    rw [hmain.2.2.2, hfailure, hreport]
    rfl
  · have hfinishes : tool.Finishes engine events device now labels s₀ s :=
      ⟨htool, hproducers, hbound, fun hzero => absurd hzero hevents, hstart, hrun, hfailure,
        by rw [hexited]; trivial⟩
    obtain ⟨k, hcompleted⟩ := hfinishes.completed
    have hlength : (recordedEvents s).length = k := by
      simpa using hcompleted.numbers.length_eq
    have hnumbering := (tracked_of_run htool hproducers hbound hstart hrun).numbering hfailure
      fun hzero => absurd hzero hevents
    refine ⟨recordedEvents s, hcompleted.reads, ?_, hnumbering.length_le htool hevents,
      fun hunstopped => hlength.trans (hcompleted.limit hevents hunstopped)⟩
    rw [hlength]
    exact hcompleted.numbers

/-- One event with 24 bytes of payload needs four operations of the device. -/
theorem recording_succeeds_one : ∃ (s₀ s : RecordingState UInt64) (log : List Event),
    (hpblrRecord oneEvent).start countingEngine (.lasting 4) 0 = .ok s₀ ∧
    Transition.run ((hpblrRecord oneEvent).step countingEngine) s₀ (oneProducer 0) = some s ∧
    s.mainAt = .exited 0 ∧ s.recorder.ReadsBack oneEvent.output log ∧ log.length = 1 := by
  have hparse : RecordOptions.parse
      ["--producers", "1", "--events", "1", "--payload-size", "24"] = .ok oneEvent := by
    decide +kernel
  obtain ⟨_, s₀, s, hopts, hstart, _, hrun, hexited, hsignal⟩ :=
    exists_run ["--producers", "1", "--events", "1", "--payload-size", "24"] (.lasting 4)
      (oneProducer 0)
      (fun s => s.mainAt = .exited 0 ∧ s.stopRequested 0 = false) (fun _ _ => True)
      (by decide +kernel)
  cases hparse.symm.trans hopts
  have hdevice : ∀ n < (hpblrRecord oneEvent).deviceOperations 1, Device.lasting 4 n = none := by
    have hfour : (hpblrRecord oneEvent).deviceOperations 1 = 4 := by decide
    intro n hn
    rw [hfour] at hn
    exact if_pos hn
  obtain ⟨_, _, _, hends⟩ := recording_succeeds (.record hparse) (by decide) (by decide) (by decide)
    (by decide) rfl hdevice hstart hrun
  obtain ⟨_, log, hreads, _, _, hall⟩ := hends 0 hexited
  refine ⟨s₀, s, log, hstart, hrun, hexited, hreads, hall fun _ p hp => ?_⟩
  have hzero : p = 0 := Nat.lt_one_iff.mp hp
  exact hzero ▸ hsignal

end RecordingTool

end Hpblr
