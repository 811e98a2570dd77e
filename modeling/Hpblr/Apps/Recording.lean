import Hpblr.Apps.Options
import Hpblr.EventGenerator
import Hpblr.Recorder.AsyncRecorder

/-!
# The recording tools

`main` of `hpblr_record` and `hpblr_bench` once the options are parsed. Both start the producers,
join them, stop the recorder and report. The loops of the producers differ in the stop flag and in
the test that ends them. An exception that leaves a producer thread ends in `std::terminate`.

The log, the printed messages and the pacing delay are left out: no step below depends on them.
-/

namespace Hpblr

/-- What a recording tool makes of its options. -/
structure RecordingTool where
  output : String
  producers : UInt64
  payloadSize : UInt64
  queueCapacity : UInt64
  flushBytes : UInt64
  /-- The seed of the first producer. -/
  seed : UInt64
  /-- Whether the loop of a producer tests `g_stop_requested`. -/
  stopsOnSignal : Bool
  /-- The test that ends the loop of a producer at a sequence number. -/
  past : UInt64 → Bool
  /-- Whether a producer counts the accepted events in `generated`. -/
  countsGenerated : Bool
  /-- What `main` does between `stop` and `return 0`. -/
  report : Except Exception Unit

/-- `hpblr_record`. -/
def hpblrRecord (opts : RecordOptions) : RecordingTool where
  output := opts.output
  producers := opts.producers
  payloadSize := opts.payloadSize
  queueCapacity := opts.queueCapacity
  flushBytes := opts.flushBytes
  seed := 0xBADC0FFEE
  stopsOnSignal := true
  past := fun sequence => decide (opts.events ≠ 0 ∧ sequence ≥ opts.events)
  countsGenerated := true
  report := .ok ()

/-- `hpblr_bench`, given the result of `std::filesystem::file_size` for the output and whether the
file of the report can be opened. -/
def hpblrBench (opts : BenchOptions) (fileSize : Except Exception UInt64) (reportOpens : Bool) :
    RecordingTool where
  output := opts.output
  producers := opts.producers
  payloadSize := opts.payloadSize
  queueCapacity := opts.queueCapacity
  flushBytes := opts.flushBytes
  seed := 0x123456780000
  stopsOnSignal := false
  past := fun sequence => decide (sequence ≥ opts.events)
  countsGenerated := false
  report :=
    match fileSize with
    | .error e => .error e
    | .ok _ =>
      if opts.report ≠ "" ∧ reportOpens = false then
        .error (.runtimeError ("failed to open benchmark report: " ++ opts.report))
      else .ok ()

/-- Where a producer thread stands. -/
inductive ProducerStage where
  /-- Before its start. -/
  | unborn
  /-- Before the test of `g_stop_requested`. -/
  | testing
  /-- Before `next_sequence.fetch_add`. -/
  | drawing
  /-- Before the test that ends the loop. -/
  | limiting (sequence : UInt64)
  /-- Before `generator.next`. -/
  | generating (sequence : UInt64)
  /-- Inside `recorder.submit`. -/
  | submitting
  /-- Before `generated.fetch_add`. -/
  | counting
  | ended
  deriving DecidableEq

/-- Where `main` stands. -/
inductive MainStage where
  /-- Before the start of the producer with this number. -/
  | spawning (k : ℕ)
  /-- In `producers.clear`, before the join of the producer with this number. -/
  | joining (k : ℕ)
  /-- Inside `recorder.stop`. -/
  | stopping
  /-- Before the report. -/
  | reporting
  /-- In the destructor of the recorder, inside `stop`, with this exit code to come. -/
  | leaving (code : ℕ)
  | exited (code : ℕ)
  deriving DecidableEq

/-- The process of a recording tool. The threads that are not started yet are part of it. -/
structure RecordingState (R : Type*) where
  recorder : AsyncRecorder ℕ
  nextSequence : UInt64 := 0
  generated : UInt64 := 0
  /-- Whether a producer sees the stop flag set. -/
  stopRequested : ℕ → Bool := fun _ => false
  generators : ℕ → EventGenerator R
  producerAt : ℕ → ProducerStage := fun _ => .unborn
  mainAt : MainStage := .spawning 0
  /-- What `main` has reported: `generated` and the statistics of the recorder. -/
  reported : Option (UInt64 × AsyncRecorderStats) := none
  /-- Whether `std::terminate` was called. -/
  terminated : Bool := false

/-- What can happen next: the stop flag becomes visible to a producer, a thread runs, with a value
of the clock for a producer that needs one, or a thread wakes up without a notification. -/
inductive RecordingLabel where
  | signal (p : ℕ)
  | main (notified : Option (RecorderThread ℕ))
  | producer (p : ℕ) (now : UInt64) (notified : Option (RecorderThread ℕ))
  | writer (notified : Option (RecorderThread ℕ))
  | wake (t : RecorderThread ℕ)
  deriving DecidableEq

namespace RecordingTool

variable {R : Type*}

/-- The configuration of the generator of a producer. -/
def generatorConfig (tool : RecordingTool) (p : ℕ) : GeneratorConfig where
  producerId := UInt32.ofNat p
  eventTypeBase := UInt16.ofNat (100 + p * 10)
  payloadSize := tool.payloadSize
  seed := tool.seed + UInt64.ofNat p

/-- The state in which `main` starts the first producer. -/
def start (tool : RecordingTool) (engine : RandomEngine R) (device : Device) (now : UInt64) :
    Except Exception (RecordingState R) :=
  match AsyncRecorder.new tool.output tool.queueCapacity.toNat
      { flushThresholdBytes := tool.flushBytes } device now with
  | .error e => .error e
  | .ok recorder =>
    .ok {
      recorder := recorder
      generators := fun p => EventGenerator.new engine (tool.generatorConfig p) }

theorem start_eq {tool : RecordingTool} {engine : RandomEngine R} {device : Device} {now : UInt64}
    {s : RecordingState R} (h : tool.start engine device now = .ok s) :
    ∃ recorder, AsyncRecorder.new tool.output tool.queueCapacity.toNat
        { flushThresholdBytes := tool.flushBytes } device now = .ok recorder ∧
      s = {
        recorder := recorder
        generators := fun p => EventGenerator.new engine (tool.generatorConfig p) } := by
  unfold start at h
  split at h
  · cases h
  · rename_i recorder hnew
    cases h
    exact ⟨recorder, hnew, rfl⟩

end RecordingTool

namespace RecordingState

variable {R : Type*}

/-- A step of the recorder. -/
def recorderStep (s : RecordingState R) (l : RecorderLabel ℕ) : Option (RecordingState R) :=
  (s.recorder.step l).map (fun recorder => { s with recorder := recorder })

/-- A producer gets to another stage. -/
def producerTo (s : RecordingState R) (p : ℕ) (stage : ProducerStage) : RecordingState R :=
  { s with producerAt := Function.update s.producerAt p stage }

@[simp] theorem producerAt_producerTo (s : RecordingState R) (p : ℕ) (stage : ProducerStage) :
    (s.producerTo p stage).producerAt p = stage := Function.update_self ..

end RecordingState

namespace RecordingTool

variable {R : Type*} (tool : RecordingTool) (engine : RandomEngine R)

/-- The next step of a producer. -/
def stepProducer (s : RecordingState R) (p : ℕ) (now : UInt64)
    (notified : Option (RecorderThread ℕ)) : Option (RecordingState R) :=
  match s.producerAt p with
  | .unborn | .ended => none
  | .testing =>
    if tool.stopsOnSignal && s.stopRequested p then some (s.producerTo p .ended)
    else some (s.producerTo p .drawing)
  | .drawing =>
    some { s.producerTo p (.limiting s.nextSequence) with nextSequence := s.nextSequence + 1 }
  | .limiting sequence =>
    if tool.past sequence then some (s.producerTo p .ended)
    else some (s.producerTo p (.generating sequence))
  | .generating sequence =>
    match (s.generators p).next engine sequence now with
    | (.error _, _) => some { s with terminated := true }
    | (.ok event, generator) =>
      RecordingState.recorderStep
        { s.producerTo p .submitting with
          generators := Function.update s.generators p generator } (.submit p event)
  | .submitting =>
    match s.recorder.submitAt p with
    | .returned (.returned true) =>
      some (s.producerTo p (if tool.countsGenerated then .counting else .testing))
    | .returned (.returned false) => some (s.producerTo p .ended)
    | .returned (.threw _) => some { s with terminated := true }
    | _ => s.recorderStep (.run (.producer p) notified)
  | .counting => some { s.producerTo p .testing with generated := s.generated + 1 }

/-- The next step of `main`. Leaving the scope destroys the recorder, which calls `stop` once more
and ignores its exception. -/
def stepMain (s : RecordingState R) (notified : Option (RecorderThread ℕ)) :
    Option (RecordingState R) :=
  match s.mainAt with
  | .spawning k =>
    if k < tool.producers.toNat then
      some { s.producerTo k .testing with mainAt := .spawning (k + 1) }
    else some { s with mainAt := .joining 0 }
  | .joining k =>
    if k < tool.producers.toNat then
      match s.producerAt k with
      | .ended => some { s with mainAt := .joining (k + 1) }
      | _ => none
    else RecordingState.recorderStep { s with mainAt := .stopping } .stop
  | .stopping =>
    match s.recorder.stopAt with
    | .returned .returned => some { s with mainAt := .reporting }
    | .returned (.threw _) => RecordingState.recorderStep { s with mainAt := .leaving 1 } .stop
    | _ => s.recorderStep (.run .stopper notified)
  | .reporting =>
    match tool.report with
    | .ok () => RecordingState.recorderStep
        { s with mainAt := .leaving 0, reported := some (s.generated, s.recorder.stats) } .stop
    | .error _ => RecordingState.recorderStep { s with mainAt := .leaving 1 } .stop
  | .leaving code =>
    match s.recorder.stopAt with
    | .returned _ => some { s with mainAt := .exited code }
    | _ => s.recorderStep (.run .stopper notified)
  | .exited _ => none

/-- One step of the process; `none` when the label is not enabled. -/
def step (s : RecordingState R) (l : RecordingLabel) : Option (RecordingState R) :=
  if s.terminated then none
  else
    match l with
    | .signal p =>
      if tool.stopsOnSignal then
        some { s with stopRequested := Function.update s.stopRequested p true }
      else none
    | .main notified => tool.stepMain s notified
    | .producer p now notified => tool.stepProducer engine s p now notified
    | .writer notified => s.recorderStep (.run .writer notified)
    | .wake t => s.recorderStep (.wake t)

end RecordingTool

end Hpblr
