import Hpblr.BinaryLog.Writer
import Hpblr.Queue.BlockingQueue

/-!
# The asynchronous recorder

`AsyncRecorder` with its threads: any number of producers that call `submit`, the background thread
that runs `run`, and a thread that calls `stop`. Each access to an atomic, each critical section
and each operation of the writer is one step. A step of a thread inside the queue is a step of the
queue with its threads.

The state keeps the history of the completed calls, and what became of the writer.
-/

namespace Hpblr

/-! ## Threads and stages -/

/-- The threads that use a recorder. -/
inductive RecorderThread (P : Type*) where
  | producer (p : P)
  | writer
  | stopper
  deriving DecidableEq

/-- What a completed call of `submit` did. -/
inductive SubmitResult where
  | returned (accepted : Bool)
  | threw (e : Exception)
  deriving DecidableEq

/-- What a completed call of `stop` did. -/
inductive StopResult where
  | returned
  | threw (e : Exception)
  deriving DecidableEq

/-- Where a producer stands in `submit`. -/
inductive SubmitStage where
  | outside
  /-- Before `rethrow_writer_error_if_any`. -/
  | checking (event : Event)
  /-- Before the load of `stopping_`. -/
  | loading (event : Event)
  /-- Inside `queue_.push`. -/
  | pushing (event : Event)
  /-- Before `rejected_` is incremented. -/
  | rejecting (event : Event)
  /-- Before `submitted_` is incremented. -/
  | counting (event : Event)
  | returned (result : SubmitResult)
  deriving DecidableEq

/-- The producer is inside `submit`. -/
def SubmitStage.InCall : SubmitStage → Prop
  | .outside | .returned _ => False
  | _ => True

instance (stage : SubmitStage) : Decidable stage.InCall := by
  cases stage <;> unfold SubmitStage.InCall <;> infer_instance

/-- Where the background thread stands in `run`. -/
inductive RunStage where
  /-- Before the call of `queue_.pop`. -/
  | fetching
  /-- Inside `queue_.pop`. -/
  | popping
  /-- Before `writer_.append`. -/
  | appending (event : Event)
  /-- Before `written_` is incremented. -/
  | counting
  /-- Before `writer_.flush`. -/
  | flushing
  /-- In the handler, before `set_writer_error`. -/
  | settingError (e : Exception)
  /-- In the handler, inside `queue_.close`. -/
  | closing
  | ended
  deriving DecidableEq

/-- Where the stopping thread stands in `stop`. -/
inductive StopStage where
  | outside
  /-- Before the exchange of `stopping_`. -/
  | exchanging
  /-- Inside `queue_.close`. -/
  | closing
  /-- Before `joinable` and `join`. -/
  | joining
  /-- Before `rethrow_writer_error_if_any`. -/
  | checking
  | returned (result : StopResult)
  deriving DecidableEq

/-- The thread is inside `stop`. -/
def StopStage.InCall : StopStage → Prop
  | .outside | .returned _ => False
  | _ => True

instance (stage : StopStage) : Decidable stage.InCall := by
  cases stage <;> unfold StopStage.InCall <;> infer_instance

/-- The operation of the writer that failed. -/
inductive WriterFailure where
  /-- `append` of the event. -/
  | append (event : Event)
  /-- The final `flush`. -/
  | flush
  deriving DecidableEq

/-! ## The state -/

/-- `AsyncRecorder`, where its threads stand, and the history. -/
structure AsyncRecorder (P : Type*) where
  writer : BinaryLogWriter
  queue : QueueState (RecorderThread P) Event
  /-- `writer_thread_.joinable()`. -/
  joinable : Bool := true
  stopping : Bool := false
  submitted : UInt64 := 0
  rejected : UInt64 := 0
  written : UInt64 := 0
  writerError : Option Exception := none
  submitAt : P → SubmitStage
  runAt : RunStage := .fetching
  stopAt : StopStage := .outside
  /-- The completed calls of `submit`, in the order of their completion. -/
  submits : List (P × Event × SubmitResult) := []
  /-- The completed calls of `stop`. -/
  stops : List StopResult := []
  /-- The events whose `append` returned normally. -/
  appended : List Event := []
  /-- The operation of the writer that threw, if one did. -/
  failure : Option WriterFailure := none

/-- `AsyncRecorderStats`. -/
structure AsyncRecorderStats where
  submitted : UInt64 := 0
  rejected : UInt64 := 0
  written : UInt64 := 0
  queueDepth : UInt64 := 0
  deriving DecidableEq

/-- What can happen next: a call, the next step of a thread, or a wake-up without a notification.
A step that notifies one thread names the sleeper it wakes. -/
inductive RecorderLabel (P : Type*) where
  | submit (p : P) (event : Event)
  | stop
  | run (t : RecorderThread P) (notified : Option (RecorderThread P))
  | wake (t : RecorderThread P)
  deriving DecidableEq

namespace AsyncRecorder

variable {P : Type*}

/-- The constructor: the writer and the queue, with the background thread started. -/
def new (path : String) (queueCapacity : ℕ) (writerOptions : WriterOptions) (device : Device)
    (now : UInt64) : Except Exception (AsyncRecorder P) :=
  match BinaryLogWriter.new path writerOptions device now with
  | .error e => .error e
  | .ok writer =>
    .ok {
      writer := writer
      queue := QueueState.new queueCapacity
      submitAt := fun _ => .outside }

/-- A new recorder has a new writer and a new queue, and nothing has happened to it. -/
theorem new_eq {path : String} {queueCapacity : ℕ} {writerOptions : WriterOptions} {device : Device}
    {now : UInt64} {s : AsyncRecorder P} (h : new path queueCapacity writerOptions device now = .ok s) :
    ∃ writer, BinaryLogWriter.new path writerOptions device now = .ok writer ∧
      s = { writer := writer, queue := QueueState.new queueCapacity, submitAt := fun _ => .outside } := by
  unfold new at h
  split at h
  · cases h
  · rename_i writer hwriter
    cases h
    exact ⟨writer, hwriter, rfl⟩

/-- `stats`, taken in one instant. -/
def stats (s : AsyncRecorder P) : AsyncRecorderStats where
  submitted := s.submitted
  rejected := s.rejected
  written := s.written
  queueDepth := UInt64.ofNat s.queue.queue.length

variable [DecidableEq P]

/-! ## The steps of the threads -/

/-- A producer gets to another stage. -/
def producerAt (s : AsyncRecorder P) (p : P) (stage : SubmitStage) : AsyncRecorder P :=
  { s with submitAt := Function.update s.submitAt p stage }

/-- A call of `submit` completes. -/
def submitReturns (s : AsyncRecorder P) (p : P) (event : Event) (result : SubmitResult) :
    AsyncRecorder P :=
  { s with
    submitAt := Function.update s.submitAt p (.returned result)
    submits := s.submits ++ [(p, event, result)] }

/-- A call of `stop` completes. -/
def stopReturns (s : AsyncRecorder P) (result : StopResult) : AsyncRecorder P :=
  { s with stopAt := .returned result, stops := s.stops ++ [result] }

/-- A step of the queue. -/
def queueStep (s : AsyncRecorder P) (l : QueueLabel (RecorderThread P) Event) :
    Option (AsyncRecorder P) :=
  (s.queue.step l).map (fun queue => { s with queue := queue })

/-- `set_writer_error`: the first error is kept. -/
def setWriterError (s : AsyncRecorder P) (e : Exception) : AsyncRecorder P :=
  if s.writerError.isNone then { s with writerError := some e } else s

/-- The next step of a producer inside `submit`. -/
def stepSubmit (s : AsyncRecorder P) (p : P) (notified : Option (RecorderThread P)) :
    Option (AsyncRecorder P) :=
  match s.submitAt p with
  | .outside | .returned _ => none
  | .checking event =>
    match s.writerError with
    | some e => some (s.submitReturns p event (.threw e))
    | none => some (s.producerAt p (.loading event))
  | .loading event =>
    if s.stopping then some (s.producerAt p (.rejecting event))
    else (s.producerAt p (.pushing event)).queueStep (.call (.producer p) (.push event))
  | .pushing event =>
    match s.queue.activity (.producer p) with
    | .returned (.pushed true) => some (s.producerAt p (.counting event))
    | .returned (.pushed false) => some (s.producerAt p (.rejecting event))
    | _ => s.queueStep (.run (.producer p) notified)
  | .rejecting event =>
    some (submitReturns { s with rejected := s.rejected + 1 } p event (.returned false))
  | .counting event =>
    some (submitReturns { s with submitted := s.submitted + 1 } p event (.returned true))

/-- The next step of the background thread. -/
def stepRun (s : AsyncRecorder P) (notified : Option (RecorderThread P)) :
    Option (AsyncRecorder P) :=
  match s.runAt with
  | .fetching => queueStep { s with runAt := .popping } (.call .writer .pop)
  | .popping =>
    match s.queue.activity .writer with
    | .returned (.popped (some event)) => some { s with runAt := .appending event }
    | .returned (.popped none) => some { s with runAt := .flushing }
    | _ => s.queueStep (.run .writer notified)
  | .appending event =>
    match s.writer.append event with
    | (.ok (), writer) =>
      some { s with writer := writer, runAt := .counting, appended := s.appended ++ [event] }
    | (.error e, writer) =>
      some { s with
        writer := writer, runAt := .settingError e, failure := some (.append event) }
  | .counting => some { s with written := s.written + 1, runAt := .fetching }
  | .flushing =>
    match s.writer.flush with
    | (.ok (), writer) => some { s with writer := writer, runAt := .ended }
    | (.error e, writer) =>
      some { s with writer := writer, runAt := .settingError e, failure := some .flush }
  | .settingError e =>
    queueStep { s.setWriterError e with runAt := .closing } (.call .writer .close)
  | .closing =>
    match s.queue.activity .writer with
    | .returned .closed => some { s with runAt := .ended }
    | _ => s.queueStep (.run .writer notified)
  | .ended => none

/-- The next step of the stopping thread inside `stop`. It waits in `join` until the background
thread has ended. -/
def stepStop (s : AsyncRecorder P) (notified : Option (RecorderThread P)) :
    Option (AsyncRecorder P) :=
  match s.stopAt with
  | .outside | .returned _ => none
  | .exchanging =>
    if s.stopping then some { s with stopAt := .joining }
    else queueStep { s with stopping := true, stopAt := .closing } (.call .stopper .close)
  | .closing =>
    match s.queue.activity .stopper with
    | .returned .closed => some { s with stopAt := .joining }
    | _ => s.queueStep (.run .stopper notified)
  | .joining =>
    if s.joinable then
      match s.runAt with
      | .ended => some { s with joinable := false, stopAt := .checking }
      | _ => none
    else some { s with stopAt := .checking }
  | .checking =>
    match s.writerError with
    | some e => some (s.stopReturns (.threw e))
    | none => some (s.stopReturns .returned)

/-- One step of the system; `none` when the label is not enabled. -/
def step (s : AsyncRecorder P) : RecorderLabel P → Option (AsyncRecorder P)
  | .submit p event =>
    if (s.submitAt p).InCall then none else some (s.producerAt p (.checking event))
  | .stop => if s.stopAt.InCall then none else some { s with stopAt := .exchanging }
  | .run (.producer p) notified => s.stepSubmit p notified
  | .run .writer notified => s.stepRun notified
  | .run .stopper notified => s.stepStop notified
  | .wake t => s.queueStep (.wake t)

end AsyncRecorder

end Hpblr
