import Hpblr.Event
import Hpblr.Lib.Transition
import Hpblr.OutputFile
import Hpblr.TimeUtils

/-!
# The logger

`Logger`, called by any threads. `log` tests the level and makes its line without the lock. Under the
lock each insertion into the console or into the log file is a step of its own.
-/

namespace Hpblr

/-! ## Lines -/

/-- `LogLevel`, with any value of the underlying `int`. -/
structure LogLevel where
  value : ℤ
  deriving DecidableEq

namespace LogLevel

def debug : LogLevel := ⟨0⟩

def info : LogLevel := ⟨1⟩

def warning : LogLevel := ⟨2⟩

def error : LogLevel := ⟨3⟩

end LogLevel

/-- `to_string` of a level. -/
def logLevelToString (level : LogLevel) : Text :=
  match level.value with
  | 0 => "DEBUG".toList
  | 1 => "INFO".toList
  | 2 => "WARN".toList
  | 3 => "ERROR".toList
  | _ => "UNKNOWN".toList

/-- The line of a message, without its end. -/
def logLine (now : UInt64) (level : LogLevel) (component message : Text) : Text :=
  formatUnixNsUtc now ++ " [".toList ++ logLevelToString level ++ "] [".toList ++ component ++
    "] ".toList ++ message

/-! ## The log file -/

/-- `std::ofstream file_`: the stream, and whether its buffer has a file. -/
structure LogFile where
  out : OutputFile
  isOpen : Bool := false
  deriving DecidableEq

namespace LogFile

/-- A stream without a file: it is good, but nothing can leave its buffer. -/
def unopened : LogFile := { out := { room := some 0, bufferSize := 0 } }

/-- `open` with `std::ios::app`. It sets failbit if the buffer has a file already or the file cannot
be opened, and clears the state if it succeeds. The content is what is appended from then on. -/
def «open» (file : LogFile) (device : OutputDevice) : LogFile :=
  if file.isOpen || !device.opens then { file with out := { file.out with failed := true } }
  else { out := OutputFile.create device, isOpen := true }

/-- A formatted insertion. -/
def insert (file : LogFile) (text : Text) : LogFile := { file with out := file.out.insert text }

/-- `flush`: a stream that has failed does nothing. -/
def flush (file : LogFile) : LogFile :=
  if file.out.failed then file else { file with out := file.out.drain }

end LogFile

/-! ## Threads -/

/-- The operations of the logger. -/
inductive LoggerCall where
  | setLevel (level : LogLevel)
  | setFile (path : String)
  | log (level : LogLevel) (component message : Text)
  deriving DecidableEq

/-- What a thread with the lock does next. -/
inductive CriticalStage where
  /-- Before `min_level_ = level`. -/
  | assigning (level : LogLevel)
  /-- Before `file_.open`. -/
  | opening (path : String)
  /-- Before the insertion of the line into `std::cerr`. -/
  | writing (line : Text)
  /-- Before the insertion of the end of line into `std::cerr`. -/
  | writingEnd (line : Text)
  /-- Before the test of `file_`. -/
  | testing (line : Text)
  /-- Before the insertion of the line into `file_`. -/
  | filing (line : Text)
  /-- Before the insertion of the end of line into `file_`. -/
  | filingEnd (line : Text)
  /-- Before `file_.flush`. -/
  | flushing (line : Text)
  /-- Before the lock is released, with the line that was written and the result to come. -/
  | unlocking (line : Option Text) (result : Except Exception Unit)

/-- Where a thread stands. -/
inductive LoggerStage where
  | outside
  /-- Before the test of the level. -/
  | checking (level : LogLevel) (component message : Text)
  /-- Before the line is made. -/
  | formatting (level : LogLevel) (component message : Text)
  /-- Before the lock is taken. -/
  | locking (critical : CriticalStage)
  /-- With the lock. -/
  | inside (critical : CriticalStage)
  | returned (result : Except Exception Unit)

/-- The thread is in a call. -/
def LoggerStage.InCall : LoggerStage → Prop
  | .outside | .returned _ => False
  | _ => True

instance LoggerStage.decidableInCall (stage : LoggerStage) : Decidable stage.InCall := by
  cases stage <;> unfold LoggerStage.InCall <;> infer_instance

/-- The first stage of a call. -/
def LoggerCall.entry : LoggerCall → LoggerStage
  | .setLevel level => .locking (.assigning level)
  | .setFile path => .locking (.opening path)
  | .log level component message => .checking level component message

/-- `Logger`, with the console and the threads that call it. -/
structure Logger (τ : Type*) where
  minLevel : LogLevel := .info
  file : LogFile := .unopened
  /-- `std::cerr`, which keeps nothing in its buffer. -/
  console : OutputFile
  /-- The thread that has the lock. -/
  owner : Option τ := none
  stageAt : τ → LoggerStage := fun _ => .outside

/-- What can happen next: a call, or the next step of a thread, with what the clock and the file
system return to it. -/
inductive LoggerLabel (τ : Type*) where
  | call (t : τ) (c : LoggerCall)
  | run (t : τ) (now : UInt64) (device : OutputDevice)

namespace Logger

variable {τ : Type*} [DecidableEq τ]

/-- The constructor, for a console that takes so many bytes before it starts to fail. -/
def new (room : Option ℕ) : Logger τ :=
  { console := OutputFile.create { room := room, bufferSize := 0 } }

/-- A thread gets to another stage. -/
def threadTo (s : Logger τ) (t : τ) (stage : LoggerStage) : Logger τ :=
  { s with stageAt := Function.update s.stageAt t stage }

/-- The next step with the lock: the logger, and what the thread does after it. -/
def stepCritical (s : Logger τ) (device : OutputDevice) :
    CriticalStage → Logger τ × CriticalStage
  | .assigning level => ({ s with minLevel := level }, .unlocking none (.ok ()))
  | .opening path =>
    let file := s.file.open device
    ({ s with file := file }, .unlocking none
      (if file.out.failed then .error (.runtimeError ("failed to open log file: " ++ path))
      else .ok ()))
  | .writing line => ({ s with console := s.console.insert line }, .writingEnd line)
  | .writingEnd line => ({ s with console := s.console.insert ['\n'] }, .testing line)
  | .testing line =>
    if s.file.out.failed then (s, .unlocking (some line) (.ok ())) else (s, .filing line)
  | .filing line => ({ s with file := s.file.insert line }, .filingEnd line)
  | .filingEnd line => ({ s with file := s.file.insert ['\n'] }, .flushing line)
  | .flushing line => ({ s with file := s.file.flush }, .unlocking (some line) (.ok ()))
  | .unlocking line result => (s, .unlocking line result)

/-- The next step of a thread. -/
def stepThread (s : Logger τ) (t : τ) (now : UInt64) (device : OutputDevice) :
    Option (Logger τ) :=
  match s.stageAt t with
  | .outside | .returned _ => none
  | .checking level component message =>
    if level.value < s.minLevel.value then some (s.threadTo t (.returned (.ok ())))
    else some (s.threadTo t (.formatting level component message))
  | .formatting level component message =>
    some (s.threadTo t (.locking (.writing (logLine now level component message))))
  | .locking critical =>
    match s.owner with
    | some _ => none
    | none => some { s.threadTo t (.inside critical) with owner := some t }
  | .inside (.unlocking _ result) =>
    some { s.threadTo t (.returned result) with owner := none }
  | .inside critical =>
    let (s, critical) := s.stepCritical device critical
    some (s.threadTo t (.inside critical))

/-- One step; `none` when the label is not enabled. -/
def step (s : Logger τ) : LoggerLabel τ → Option (Logger τ)
  | .call t c => if (s.stageAt t).InCall then none else some (s.threadTo t c.entry)
  | .run t now device => s.stepThread t now device

end Logger

end Hpblr
