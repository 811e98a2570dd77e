import Hpblr.Logging.Locking
import Mathlib.Data.List.Forall2

/-!
# The lines of the logger

Whatever the interleaving of the calls, the console is given whole lines, one after the other, in the
order in which the threads have the lock. Each thread's lines are those of its messages that pass the
test of the level, in the order of its calls. The log file is given the same lines from the moment on
at which it is opened, up to the next attempt to open it, which fails.
-/

namespace Hpblr

/-- Lines with their ends. -/
def linesText (lines : List Text) : Text := lines.flatMap (fun line => line ++ ['\n'])

@[simp] theorem linesText_nil : linesText [] = [] := rfl

@[simp] theorem linesText_append (lines more : List Text) :
    linesText (lines ++ more) = linesText lines ++ linesText more :=
  List.flatMap_append

@[simp] theorem linesText_singleton (line : Text) : linesText [line] = line ++ ['\n'] := by
  simp [linesText]

variable {τ : Type*} [DecidableEq τ]

/-! ## What is observed -/

/-- What `log` is called with. -/
structure LogMessage where
  level : LogLevel
  component : Text
  message : Text
  deriving DecidableEq

/-- What a run is told by: the calls, the tests of a level, the assignments of the least level, the
calls of `open`, and the lines that have been written when the lock is released. -/
inductive LoggerEvent (τ : Type*) where
  | called (t : τ) (c : LoggerCall)
  | tested (t : τ) (message : LogMessage) (kept : Bool)
  | assigned (t : τ) (level : LogLevel)
  | opens (t : τ) (path : String)
  | wrote (t : τ) (line : Text)
  deriving DecidableEq

namespace LoggerEvent

def thread : LoggerEvent τ → τ
  | called t _ | tested t _ _ | assigned t _ | opens t _ | wrote t _ => t

/-- The message of a call of `log`. -/
def calledMessage : LoggerEvent τ → Option LogMessage
  | called _ (.log level component message) => some ⟨level, component, message⟩
  | _ => none

/-- A message whose level is tested. -/
def testedMessage : LoggerEvent τ → Option LogMessage
  | tested _ message _ => some message
  | _ => none

/-- A message that passes the test. -/
def keptMessage : LoggerEvent τ → Option LogMessage
  | tested _ message true => some message
  | _ => none

def assignedLevel : LoggerEvent τ → Option LogLevel
  | assigned _ level => some level
  | _ => none

def writtenLine : LoggerEvent τ → Option Text
  | wrote _ line => some line
  | _ => none

def isOpens : LoggerEvent τ → Bool
  | opens _ _ => true
  | _ => false

end LoggerEvent

/-- The thread that takes a step. -/
def LoggerLabel.thread : LoggerLabel τ → τ
  | call t _ | run t _ _ => t

/-- The part of a history that is of one thread. -/
def ofThread (t : τ) (o : List (LoggerEvent τ)) : List (LoggerEvent τ) :=
  o.filter (fun event => event.thread = t)

/-- The level that has been assigned last, or the one of the constructor. -/
def levelAfter (o : List (LoggerEvent τ)) : LogLevel :=
  (o.filterMap LoggerEvent.assignedLevel).getLastD .info

namespace Logger

/-- What is observed of the next step of a thread. -/
def stageEvents (t : τ) (minLevel : LogLevel) : LoggerStage → List (LoggerEvent τ)
  | .checking level component message =>
    [.tested t ⟨level, component, message⟩ (decide (minLevel.value ≤ level.value))]
  | .inside (.assigning level) => [.assigned t level]
  | .inside (.opening path) => [.opens t path]
  | .inside (.unlocking (some line) _) => [.wrote t line]
  | _ => []

/-- What is observed of a step. -/
def events (s : Logger τ) : LoggerLabel τ → List (LoggerEvent τ)
  | .call t c => [.called t c]
  | .run t _ _ => stageEvents t s.minLevel (s.stageAt t)

/-- What is observed along a run. -/
def history (s : Logger τ) (labels : List (LoggerLabel τ)) : List (LoggerEvent τ) :=
  Transition.observe step (fun s l _ => s.events l) s labels

end Logger

/-! ## The stages of a line -/

namespace CriticalStage

/-- The line that a thread is about to write or has written. -/
def line : CriticalStage → Option Text
  | .assigning _ | .opening _ => none
  | .writing line | .writingEnd line | .testing line | .filing line | .filingEnd line
  | .flushing line => some line
  | .unlocking line _ => line

/-- What the console has been given of the line. -/
def onConsole : CriticalStage → Text
  | .assigning _ | .opening _ | .writing _ | .unlocking none _ => []
  | .writingEnd line => line
  | .testing line | .filing line | .filingEnd line | .flushing line
  | .unlocking (some line) _ => line ++ ['\n']

/-- What the log file has been given of the line. -/
def inFile : CriticalStage → Text
  | .assigning _ | .opening _ | .writing _ | .writingEnd _ | .testing _ | .filing _
  | .unlocking none _ => []
  | .filingEnd line => line
  | .flushing line | .unlocking (some line) _ => line ++ ['\n']

/-- Nothing has been written at an entry. -/
theorem IsEntry.nil {critical : CriticalStage} (h : critical.IsEntry) :
    critical.onConsole = [] ∧ critical.inFile = [] := by
  cases critical <;> first | exact ⟨rfl, rfl⟩ | exact h.elim

end CriticalStage

namespace LoggerStage

/-- The message that has been called and not tested. -/
def untested : LoggerStage → List LogMessage
  | .checking level component message => [⟨level, component, message⟩]
  | _ => []

/-- The message that has passed the test and has no line yet. -/
def unformatted : LoggerStage → List LogMessage
  | .formatting level component message => [⟨level, component, message⟩]
  | _ => []

/-- The line that has been made and not finished. -/
def unfinished : LoggerStage → List Text
  | .locking critical | .inside critical => critical.line.toList
  | _ => []

end LoggerStage

/-- A line is of a message, at some time of the clock. -/
def IsLineOf (line : Text) (message : LogMessage) : Prop :=
  ∃ now, line = logLine now message.level message.component message.message

/-- What has been observed of a thread accounts for all its messages: each has been tested, unless its
call has only begun, and those that are kept have become lines in this order. -/
structure LoggerStage.Accounted (stage : LoggerStage) (o : List (LoggerEvent τ)) : Prop where
  messages : o.filterMap LoggerEvent.calledMessage =
    o.filterMap LoggerEvent.testedMessage ++ stage.untested
  lines : ∃ formatted, o.filterMap LoggerEvent.keptMessage = formatted ++ stage.unformatted ∧
    List.Forall₂ IsLineOf (o.filterMap LoggerEvent.writtenLine ++ stage.unfinished) formatted

omit [DecidableEq τ] in
/-- A step that does nothing with a message leaves the account. -/
theorem LoggerStage.Accounted.quiet {stage stage' : LoggerStage} {observed more : List (LoggerEvent τ)}
    (h : stage.Accounted observed) (huntested : stage'.untested = stage.untested)
    (hunformatted : stage'.unformatted = stage.unformatted)
    (hunfinished : stage'.unfinished = stage.unfinished)
    (hmore : ∀ event ∈ more, event.calledMessage = none ∧ event.testedMessage = none ∧
      event.keptMessage = none ∧ event.writtenLine = none) :
    stage'.Accounted (observed ++ more) := by
  have hcalled : more.filterMap LoggerEvent.calledMessage = [] :=
    List.filterMap_eq_nil_iff.mpr fun event hevent => (hmore event hevent).1
  have htested : more.filterMap LoggerEvent.testedMessage = [] :=
    List.filterMap_eq_nil_iff.mpr fun event hevent => (hmore event hevent).2.1
  have hkept : more.filterMap LoggerEvent.keptMessage = [] :=
    List.filterMap_eq_nil_iff.mpr fun event hevent => (hmore event hevent).2.2.1
  have hwritten : more.filterMap LoggerEvent.writtenLine = [] :=
    List.filterMap_eq_nil_iff.mpr fun event hevent => (hmore event hevent).2.2.2
  obtain ⟨hmessages, formatted, hformatted, hlines⟩ := h
  refine ⟨?_, formatted, ?_, ?_⟩
  · simpa only [List.filterMap_append, hcalled, htested, List.append_nil, huntested] using hmessages
  · simpa only [List.filterMap_append, hkept, List.append_nil, hunformatted] using hformatted
  · simpa only [List.filterMap_append, hwritten, List.append_nil, hunfinished] using hlines

namespace Logger

/-- What the console has been given of the line at work. -/
def onConsole (s : Logger τ) : Text := (s.atWork.map CriticalStage.onConsole).getD []

/-- What the log file has been given of the line at work. -/
def inFile (s : Logger τ) : Text := (s.atWork.map CriticalStage.inFile).getD []

/-! ## The console -/

variable {s s' : Logger τ} {l : LoggerLabel τ} {o : List (LoggerEvent τ)} {room : Option ℕ}

omit [DecidableEq τ] in
/-- A step of a thread without the lock writes no line and opens no file. -/
theorem events_of_outside
    (hstage : ∀ t now device, l = .run t now device → ∀ critical, s.stageAt t ≠ .inside critical) :
    ∀ event ∈ s.events l, event.writtenLine = none ∧ event.isOpens = false := by
  cases l with
  | call t c => simp [events, LoggerEvent.writtenLine, LoggerEvent.isOpens]
  | run t now device =>
    have hnot := hstage t now device rfl
    rw [events]
    cases hat : s.stageAt t with
    | inside critical => exact absurd hat (hnot critical)
    | checking level component message =>
      simp [stageEvents, LoggerEvent.writtenLine, LoggerEvent.isOpens]
    | _ => simp [stageEvents]

omit [DecidableEq τ] in
/-- No line is finished before the lock is released. -/
theorem written_of_working {t : τ} {now : UInt64} {device : OutputDevice}
    {critical : CriticalStage} (hat : s.stageAt t = .inside critical)
    (hworks : ∀ line result, critical ≠ .unlocking line result) :
    (s.events (.run t now device)).filterMap LoggerEvent.writtenLine = [] := by
  rw [events, hat]
  cases critical with
  | unlocking line result => exact absurd rfl (hworks line result)
  | _ => rfl

omit [DecidableEq τ] in
/-- The work with the lock hands the console what it says. -/
theorem onConsole_stepCritical {text : Text} {critical : CriticalStage} (device : OutputDevice)
    (hworks : ∀ line result, critical ≠ .unlocking line result)
    (h : OutputFile.Received room (text ++ critical.onConsole) s.console) :
    OutputFile.Received room (text ++ (s.stepCritical device critical).2.onConsole)
      (s.stepCritical device critical).1.console := by
  cases critical with
  | unlocking line result => exact absurd rfl (hworks line result)
  | writing line => simpa [stepCritical, CriticalStage.onConsole] using h.insert line
  | writingEnd line => simpa [stepCritical, CriticalStage.onConsole] using h.insert ['\n']
  | testing line =>
    unfold stepCritical
    dsimp only
    split <;> exact h
  | _ => exact h

omit [DecidableEq τ] in
/-- Nothing stays in the buffer of the console. -/
theorem unbuffered_stepCritical (device : OutputDevice) (critical : CriticalStage)
    (h : s.console.pending = [] ∧ s.console.bufferSize = 0) :
    (s.stepCritical device critical).1.console.pending = [] ∧
      (s.stepCritical device critical).1.console.bufferSize = 0 := by
  cases critical with
  | writing line => exact OutputFile.insert_unbuffered h line
  | writingEnd line => exact OutputFile.insert_unbuffered h ['\n']
  | testing line =>
    unfold stepCritical
    dsimp only
    split <;> exact h
  | _ => exact h

/-- The console after whole lines and the beginning of the one at work. -/
structure Printed (room : Option ℕ) (o : List (LoggerEvent τ)) (s : Logger τ) : Prop where
  locked : s.Locked
  received : OutputFile.Received room
    (linesText (o.filterMap LoggerEvent.writtenLine) ++ s.onConsole) s.console
  unbuffered : s.console.pending = [] ∧ s.console.bufferSize = 0

omit [DecidableEq τ] in
theorem Printed.init (room : Option ℕ) : Printed room [] (new room : Logger τ) := by
  refine ⟨⟨fun t => ?_, fun t critical hat => ?_⟩, ?_, rfl, rfl⟩
  · exact iff_of_false (by rintro ⟨critical, ⟨⟩⟩) (by rintro ⟨⟩)
  · cases hat
  · exact OutputFile.create_received { room := room, bufferSize := 0 }

/-- Every step keeps the lines on the console whole. -/
theorem Printed.step (h : Printed room o s) (hmove : LoggerMove s l s') :
    Printed room (o ++ s.events l) s' := by
  have hlocked := h.locked.step hmove
  cases h.locked.effect hmove with
  | quiet hconsole hfile hwork hstage =>
    have hnone : (s.events l).filterMap LoggerEvent.writtenLine = [] :=
      List.filterMap_eq_nil_iff.mpr fun event hevent => (events_of_outside hstage event hevent).1
    have hon : s'.onConsole = s.onConsole := by
      rcases hwork with hsame | ⟨hbefore, critical, hentry, hafter⟩
      · rw [onConsole, onConsole, hsame]
      · simp [onConsole, hbefore, hafter, hentry.nil.1]
    refine ⟨hlocked, ?_, ?_⟩
    · rw [List.filterMap_append, hnone, List.append_nil, hon, hconsole]
      exact h.received
    · rw [hconsole]
      exact h.unbuffered
  | @works t now device critical hat hworks hbefore hafter hconsole hfile =>
    have hreceived := h.received
    have hon : s.onConsole = critical.onConsole := by rw [onConsole, hbefore]; rfl
    have hon' : s'.onConsole = (s.stepCritical device critical).2.onConsole := by
      rw [onConsole, hafter]
      rfl
    rw [hon] at hreceived
    refine ⟨hlocked, ?_, ?_⟩
    · rw [List.filterMap_append, written_of_working hat hworks, List.append_nil, hon', hconsole]
      exact onConsole_stepCritical device hworks hreceived
    · rw [hconsole]
      exact unbuffered_stepCritical device critical h.unbuffered
  | @unlocks t now device line result hat hbefore hafter hconsole hfile =>
    have hreceived := h.received
    refine ⟨hlocked, ?_, ?_⟩
    · rw [onConsole, hbefore] at hreceived
      rw [onConsole, hafter, hconsole, List.filterMap_append, events, hat]
      cases line with
      | none => simpa [stageEvents, CriticalStage.onConsole] using hreceived
      | some line =>
        simpa [stageEvents, LoggerEvent.writtenLine, CriticalStage.onConsole] using hreceived
    · rw [hconsole]
      exact h.unbuffered

/-! ## The messages of the threads -/

omit [DecidableEq τ] in
theorem levelAfter_append_of_none {more : List (LoggerEvent τ)}
    (hnone : more.filterMap LoggerEvent.assignedLevel = []) :
    levelAfter (o ++ more) = levelAfter o := by
  rw [levelAfter, List.filterMap_append, hnone, List.append_nil, levelAfter]

omit [DecidableEq τ] in
@[simp] theorem levelAfter_assigned (t : τ) (level : LogLevel) :
    levelAfter (o ++ [.assigned t level]) = level := by
  simp [levelAfter, LoggerEvent.assignedLevel]

omit [DecidableEq τ] in
/-- What is observed of a step is of the thread that takes it. -/
theorem thread_events : ∀ event ∈ s.events l, event.thread = l.thread := by
  cases l with
  | call t c => simp [events, LoggerEvent.thread, LoggerLabel.thread]
  | run t now device =>
    rw [events]
    cases s.stageAt t with
    | inside critical =>
      cases critical with
      | unlocking line result =>
        cases line <;> simp [stageEvents, LoggerEvent.thread, LoggerLabel.thread]
      | _ => simp [stageEvents, LoggerEvent.thread, LoggerLabel.thread]
    | _ => simp [stageEvents, LoggerEvent.thread, LoggerLabel.thread]

/-- A step is of one thread. -/
theorem stageAt_of_ne (hmove : LoggerMove s l s') {t : τ} (hne : t ≠ l.thread) :
    s'.stageAt t = s.stageAt t := by
  cases hmove with
  | works hat =>
    simp only [LoggerLabel.thread] at hne
    simp only [threadTo, Function.update_of_ne hne, owner_stepCritical]
  | _ =>
    simp only [LoggerLabel.thread] at hne
    simp only [threadTo, Function.update_of_ne hne]

/-- A step adds what is observed of it to the history of its thread. -/
theorem ofThread_append (t : τ) :
    ofThread t (o ++ s.events l) = ofThread t o ++ if t = l.thread then s.events l else [] := by
  rw [ofThread, List.filter_append]
  congr 1
  by_cases heq : t = l.thread
  · rw [if_pos heq, List.filter_eq_self]
    intro event hevent
    rw [thread_events event hevent, decide_eq_true heq.symm]
  · rw [if_neg heq, List.filter_eq_nil_iff]
    intro event hevent
    rw [thread_events event hevent, decide_eq_true_eq]
    exact Ne.symm heq

omit [DecidableEq τ] in
/-- The work with the lock does not change the line. -/
theorem line_stepCritical (device : OutputDevice) (critical : CriticalStage) :
    (s.stepCritical device critical).2.line = critical.line := by
  cases critical with
  | testing line =>
    unfold stepCritical
    dsimp only
    split <;> rfl
  | _ => rfl

/-- A step keeps the account of its thread. -/
theorem accounted_step (hmove : LoggerMove s l s')
    (h : (s.stageAt l.thread).Accounted (ofThread l.thread o)) :
    (s'.stageAt l.thread).Accounted (ofThread l.thread o ++ s.events l) := by
  generalize ofThread l.thread o = observed at h ⊢
  cases hmove with
  | @calls t c houtside =>
    simp only [LoggerLabel.thread, stageAt_threadTo] at h ⊢
    have hbefore : (s.stageAt t).untested = [] ∧ (s.stageAt t).unformatted = [] ∧
        (s.stageAt t).unfinished = [] := by
      revert houtside
      cases s.stageAt t <;> intro houtside <;>
        first | exact ⟨rfl, rfl, rfl⟩ | exact absurd trivial houtside
    obtain ⟨huntested, hunformatted, hunfinished⟩ := hbefore
    cases c with
    | log level component message =>
      obtain ⟨hmessages, formatted, hkept, hlines⟩ := h
      rw [huntested] at hmessages
      rw [hunformatted] at hkept
      rw [hunfinished] at hlines
      refine ⟨?_, formatted, ?_, ?_⟩
      · simpa [events, List.filterMap_cons, LoggerEvent.calledMessage, LoggerEvent.testedMessage,
          LoggerCall.entry, LoggerStage.untested] using hmessages
      · simpa [events, List.filterMap_cons, LoggerEvent.keptMessage, LoggerCall.entry,
          LoggerStage.unformatted] using hkept
      · simpa [events, List.filterMap_cons, LoggerEvent.writtenLine, LoggerCall.entry,
          LoggerStage.unfinished] using hlines
    | setLevel level =>
      exact h.quiet huntested.symm hunformatted.symm hunfinished.symm (by
        simp [events, LoggerEvent.calledMessage, LoggerEvent.testedMessage,
          LoggerEvent.keptMessage, LoggerEvent.writtenLine])
    | setFile path =>
      exact h.quiet huntested.symm hunformatted.symm hunfinished.symm (by
        simp [events, LoggerEvent.calledMessage, LoggerEvent.testedMessage,
          LoggerEvent.keptMessage, LoggerEvent.writtenLine])
  | @drops t now device level component message hat hlow =>
    simp only [LoggerLabel.thread, stageAt_threadTo, hat, events] at h ⊢
    obtain ⟨hmessages, formatted, hkept, hlines⟩ := h
    have hfalse : decide (s.minLevel.value ≤ level.value) = false := decide_eq_false (by omega)
    refine ⟨?_, formatted, ?_, ?_⟩
    · simpa [stageEvents, List.filterMap_cons, LoggerEvent.calledMessage, LoggerEvent.testedMessage,
        LoggerStage.untested] using hmessages
    · simpa [stageEvents, List.filterMap_cons, hfalse, LoggerEvent.keptMessage,
        LoggerStage.unformatted] using hkept
    · simpa [stageEvents, List.filterMap_cons, LoggerEvent.writtenLine,
        LoggerStage.unfinished] using hlines
  | @passes t now device level component message hat hhigh =>
    simp only [LoggerLabel.thread, stageAt_threadTo, hat, events] at h ⊢
    obtain ⟨hmessages, formatted, hkept, hlines⟩ := h
    refine ⟨?_, formatted, ?_, ?_⟩
    · simpa [stageEvents, List.filterMap_cons, LoggerEvent.calledMessage, LoggerEvent.testedMessage,
        LoggerStage.untested] using hmessages
    · simpa [stageEvents, List.filterMap_cons, hhigh, LoggerEvent.keptMessage,
        LoggerStage.unformatted] using hkept
    · simpa [stageEvents, List.filterMap_cons, LoggerEvent.writtenLine,
        LoggerStage.unfinished] using hlines
  | @formats t now device level component message hat =>
    simp only [LoggerLabel.thread, stageAt_threadTo, hat, events] at h ⊢
    obtain ⟨hmessages, formatted, hkept, hlines⟩ := h
    refine ⟨?_, formatted ++ [⟨level, component, message⟩], ?_, ?_⟩
    · simpa [stageEvents, LoggerStage.untested] using hmessages
    · simpa [stageEvents, LoggerStage.unformatted] using hkept
    · simp only [stageEvents, List.append_nil, LoggerStage.unfinished] at hlines ⊢
      exact List.rel_append hlines (.cons ⟨now, rfl⟩ .nil)
  | @locks t now device critical hat hfree =>
    simp only [LoggerLabel.thread, stageAt_threadTo, hat, events] at h ⊢
    exact h.quiet rfl rfl rfl (by simp [stageEvents])
  | @works t now device critical hat hworks =>
    simp only [LoggerLabel.thread, stageAt_threadTo, hat, events] at h ⊢
    refine h.quiet rfl rfl ?_ ?_
    · rw [LoggerStage.unfinished, LoggerStage.unfinished, line_stepCritical]
    · cases critical with
      | unlocking line result => exact absurd rfl (hworks line result)
      | _ =>
        simp [stageEvents, LoggerEvent.calledMessage, LoggerEvent.testedMessage,
          LoggerEvent.keptMessage, LoggerEvent.writtenLine]
  | @unlocks t now device line result hat =>
    simp only [LoggerLabel.thread, stageAt_threadTo, hat, events] at h ⊢
    cases line with
    | none => exact h.quiet rfl rfl rfl (by simp [stageEvents])
    | some line =>
      obtain ⟨hmessages, formatted, hkept, hlines⟩ := h
      refine ⟨?_, formatted, ?_, ?_⟩
      · simpa [stageEvents, List.filterMap_cons, LoggerEvent.calledMessage,
          LoggerEvent.testedMessage, LoggerStage.untested] using hmessages
      · simpa [stageEvents, List.filterMap_cons, LoggerEvent.keptMessage,
          LoggerStage.unformatted] using hkept
      · simpa [stageEvents, List.filterMap_cons, LoggerEvent.writtenLine, LoggerStage.unfinished,
          CriticalStage.line] using hlines

/-- The account of the messages, and of the level against which they are tested. -/
structure Told (o : List (LoggerEvent τ)) (s : Logger τ) : Prop where
  level : s.minLevel = levelAfter o
  threads : ∀ t, (s.stageAt t).Accounted (ofThread t o)
  tests : ∀ before t message kept, before ++ [.tested t message kept] <+: o →
    (kept = true ↔ (levelAfter before).value ≤ message.level.value)

theorem Told.init (room : Option ℕ) : Told [] (new room : Logger τ) := by
  refine ⟨rfl, fun t => ⟨rfl, [], rfl, .nil⟩, fun before t message kept h => ?_⟩
  simpa using h.length_le

/-- The level of the logger is the one that has been assigned last. -/
theorem level_step (hlevel : s.minLevel = levelAfter o) (hmove : LoggerMove s l s') :
    s'.minLevel = levelAfter (o ++ s.events l) := by
  have hquiet : ∀ {more : List (LoggerEvent τ)}, (∀ event ∈ more, event.assignedLevel = none) →
      s.minLevel = levelAfter (o ++ more) := fun hmore => by
    rw [levelAfter_append_of_none (List.filterMap_eq_nil_iff.mpr hmore), hlevel]
  cases hmove with
  | calls houtside => exact hquiet (by simp [events, LoggerEvent.assignedLevel])
  | drops hat hlow =>
    exact hquiet (by simp [events, hat, stageEvents, LoggerEvent.assignedLevel])
  | passes hat hhigh =>
    exact hquiet (by simp [events, hat, stageEvents, LoggerEvent.assignedLevel])
  | formats hat => exact hquiet (by simp [events, hat, stageEvents])
  | locks hat hfree => exact hquiet (by simp [events, hat, stageEvents])
  | @works t now device critical hat hworks =>
    rw [events, hat]
    cases critical with
    | assigning level => exact (levelAfter_assigned t level).symm
    | unlocking line result => exact absurd rfl (hworks line result)
    | testing line =>
      have hsame : (s.stepCritical device (.testing line)).1.minLevel = s.minLevel := by
        unfold stepCritical
        dsimp only
        split <;> rfl
      exact hsame.trans (hquiet (by simp [stageEvents]))
    | _ => exact hquiet (by simp [stageEvents, LoggerEvent.assignedLevel])
  | @unlocks t now device line result hat =>
    rw [events, hat]
    cases line with
    | none => exact hquiet (by simp [stageEvents])
    | some line => exact hquiet (by simp [stageEvents, LoggerEvent.assignedLevel])

omit [DecidableEq τ] in
/-- A step is observed at most once, and a test is against the level of the logger. -/
theorem events_cases (s : Logger τ) (l : LoggerLabel τ) : s.events l = [] ∨
    ∃ event, s.events l = [event] ∧ ∀ t message kept, event = .tested t message kept →
      kept = decide (s.minLevel.value ≤ message.level.value) := by
  cases l with
  | call t c => exact Or.inr ⟨_, rfl, by simp⟩
  | run t now device =>
    rw [events]
    cases s.stageAt t with
    | checking level component message => exact Or.inr ⟨_, rfl, by rintro _ _ _ ⟨⟩; rfl⟩
    | inside critical =>
      cases critical with
      | assigning level => exact Or.inr ⟨_, rfl, by simp⟩
      | opening path => exact Or.inr ⟨_, rfl, by simp⟩
      | unlocking line result =>
        cases line with
        | none => exact Or.inl rfl
        | some line => exact Or.inr ⟨_, rfl, by simp⟩
      | _ => exact Or.inl rfl
    | _ => exact Or.inl rfl

/-- Every step keeps the account. -/
theorem Told.step (h : Told o s) (hmove : LoggerMove s l s') : Told (o ++ s.events l) s' := by
  refine ⟨level_step h.level hmove, fun t => ?_, fun before t message kept hfront => ?_⟩
  · rw [ofThread_append]
    by_cases heq : t = l.thread
    · subst heq
      rw [if_pos rfl]
      exact accounted_step hmove (h.threads l.thread)
    · rw [if_neg heq, List.append_nil, stageAt_of_ne hmove heq]
      exact h.threads t
  · rcases events_cases s l with hnone | ⟨event, hevent, htested⟩
    · rw [hnone, List.append_nil] at hfront
      exact h.tests before t message kept hfront
    · rw [hevent, List.prefix_concat_iff] at hfront
      rcases hfront with hlast | hearlier
      · obtain ⟨rfl, hlast⟩ := List.append_inj' hlast rfl
        have hkept := htested t message kept (by simpa using hlast.symm)
        rw [hkept, decide_eq_true_eq, h.level]
      · exact h.tests before t message kept hearlier

/-- **The console.** Whatever the interleaving of the calls, at most one thread is in a critical
section, and the console has been given whole lines, in the order in which their threads released the
lock, and the beginning of the line at work. Each thread's messages have been tested in the order of
its calls against the level assigned last, and those that passed are its lines. -/
theorem console_lines {labels : List (LoggerLabel τ)}
    (hrun : Transition.run step (new room) labels = some s) :
    (∀ t critical, s.stageAt t = .inside critical → s.owner = some t) ∧
    s.console.content = stored room
      (linesText ((history (new room) labels).filterMap LoggerEvent.writtenLine) ++
        s.onConsole) ∧
    (∀ t, (s.stageAt t).Accounted (ofThread t (history (new room) labels))) ∧
    ∀ before t message kept, before ++ [.tested t message kept] <+: history (new room) labels →
      (kept = true ↔ (levelAfter before).value ≤ message.level.value) := by
  have hinv := Transition.run_observe (I := fun o s => Printed room o s ∧ Told o s)
    (f := fun s l _ => s.events l)
    (fun h hstep => ⟨h.1.step (step_move hstep), h.2.step (step_move hstep)⟩)
    ⟨Printed.init room, Told.init room⟩ hrun
  rw [List.nil_append] at hinv
  obtain ⟨hprinted, htold⟩ := hinv
  refine ⟨fun t critical hat => (hprinted.locked.owner t).mp ⟨critical, hat⟩, ?_, htold.threads,
    htold.tests⟩
  exact hprinted.received.content_eq hprinted.unbuffered.1

/-- A run in which one thread makes its line first and the other one writes first. -/
def twoLogs : List (LoggerLabel Bool) :=
  let next := fun t now => LoggerLabel.run t now { bufferSize := 0 }
  [.call false (.log .info "a".toList "first".toList), next false 0, next false 0,
    .call true (.log .error "b".toList "second".toList)] ++
  List.replicate 10 (next true 1) ++ List.replicate 5 (next false 2)

theorem console_lines_two : ∃ s : Logger Bool,
    Transition.run step (new none) twoLogs = some s ∧ s.console.content = linesText
      [logLine 1 .error "b".toList "second".toList, logLine 0 .info "a".toList "first".toList] := by
  obtain ⟨s, hrun⟩ := Option.isSome_iff_exists.mp
    (show (Transition.run step (new none) twoLogs).isSome by decide +kernel)
  have howner : (Transition.run step (new none) twoLogs).map (fun s => s.owner) = some none := by
    decide +kernel
  have hlines : (history (new none) twoLogs).filterMap LoggerEvent.writtenLine =
      [logLine 1 .error "b".toList "second".toList, logLine 0 .info "a".toList "first".toList] := by
    decide +kernel
  rw [hrun, Option.map_some, Option.some.injEq] at howner
  have hcontent := (console_lines hrun).2.1
  rw [hlines, onConsole, atWork_eq_none howner] at hcontent
  exact ⟨s, hrun, by simpa [stored] using hcontent⟩

end Logger

end Hpblr
