import Hpblr.Logging.Lines

/-!
# The log file

From the moment on at which it is opened, the log file is given the lines of the console, each of them
before the lock is released. A second attempt to open it fails, and no line is filed after it.
-/

namespace Hpblr

/-- What is observed before the next attempt to open the file. -/
def beforeOpens {τ : Type*} (o : List (LoggerEvent τ)) : List (LoggerEvent τ) :=
  o.takeWhile (fun event => !event.isOpens)

/-- The file may hold a part of the line in its buffer. -/
def CriticalStage.Filling : CriticalStage → Prop
  | .filingEnd _ | .flushing _ => True
  | _ => False

namespace Logger

variable {τ : Type*} [DecidableEq τ] {s s' : Logger τ} {l : LoggerLabel τ}
  {o : List (LoggerEvent τ)} {device : OutputDevice} {room : Option ℕ}

omit [DecidableEq τ] in
theorem beforeOpens_of_none {o : List (LoggerEvent τ)} (h : o.any LoggerEvent.isOpens = false) :
    beforeOpens o = o := by
  rw [beforeOpens, List.takeWhile_eq_self_iff]
  intro event hevent
  rw [List.any_eq_false] at h
  simpa using h event hevent

omit [DecidableEq τ] in
/-- Nothing is added behind an attempt to open the file. -/
theorem beforeOpens_append {o : List (LoggerEvent τ)} (h : o.any LoggerEvent.isOpens = true)
    (more : List (LoggerEvent τ)) : beforeOpens (o ++ more) = beforeOpens o := by
  rw [beforeOpens, beforeOpens, List.takeWhile_append]
  rw [if_neg]
  intro hlength
  obtain ⟨event, hevent, hopens⟩ := List.any_eq_true.mp h
  have hfront : o.takeWhile (fun event => !event.isOpens) <+: o := List.takeWhile_prefix _
  have hall := List.takeWhile_eq_self_iff.mp (hfront.eq_of_length hlength)
  simpa [hopens] using hall event hevent

/-! ## The work with the lock -/

omit [DecidableEq τ] in
/-- The work with the lock hands the file what it says, unless it opens the file. -/
theorem inFile_stepCritical {text : Text} {critical : CriticalStage} (device : OutputDevice)
    (hworks : ∀ line result, critical ≠ .unlocking line result)
    (hopening : ∀ path, critical ≠ .opening path)
    (h : OutputFile.Received room (text ++ critical.inFile) s.file.out) :
    OutputFile.Received room (text ++ (s.stepCritical device critical).2.inFile)
      (s.stepCritical device critical).1.file.out := by
  cases critical with
  | unlocking line result => exact absurd rfl (hworks line result)
  | opening path => exact absurd rfl (hopening path)
  | testing line =>
    have hnothing : text ++ (CriticalStage.testing line).inFile = text := List.append_nil text
    rw [hnothing] at h
    by_cases hfailed : s.file.out.failed
    · simpa [stepCritical, hfailed, CriticalStage.inFile] using h.skip hfailed (line ++ ['\n'])
    · simpa [stepCritical, hfailed, CriticalStage.inFile] using h
  | filing line => simpa [stepCritical, LogFile.insert, CriticalStage.inFile] using h.insert line
  | filingEnd line => simpa [stepCritical, LogFile.insert, CriticalStage.inFile] using h.insert ['\n']
  | flushing line =>
    by_cases hfailed : s.file.out.failed
    · simpa [stepCritical, LogFile.flush, hfailed, CriticalStage.inFile] using h
    · simpa [stepCritical, LogFile.flush, hfailed, CriticalStage.inFile] using h.drain.1
  | _ => exact h

omit [DecidableEq τ] in
/-- Nothing stays in the buffer of the file when a line is finished. -/
theorem flushed_stepCritical {text : Text} {critical : CriticalStage} (device : OutputDevice)
    (hopening : ∀ path, critical ≠ .opening path)
    (hreceived : OutputFile.Received room text s.file.out)
    (h : ¬ critical.Filling → s.file.out.pending = [])
    (hfilling : ¬ (s.stepCritical device critical).2.Filling) :
    (s.stepCritical device critical).1.file.out.pending = [] := by
  cases critical with
  | opening path => exact absurd rfl (hopening path)
  | testing line =>
    have hpending := h (by simp [CriticalStage.Filling])
    unfold stepCritical
    dsimp only
    split <;> exact hpending
  | filing line => exact absurd trivial hfilling
  | filingEnd line => exact absurd trivial hfilling
  | flushing line =>
    by_cases hfailed : s.file.out.failed
    · rcases hreceived with ⟨hgood, _⟩ | ⟨_, _, hpending, _⟩
      · rw [hfailed] at hgood
        cases hgood
      · simpa [stepCritical, LogFile.flush, hfailed] using hpending
    · simpa [stepCritical, LogFile.flush, hfailed] using hreceived.drain.2
  | _ => exact h (by simp [CriticalStage.Filling])

omit [DecidableEq τ] in
/-- The work with the lock does not close the file, and a stream that has failed stays as it is. -/
theorem file_stepCritical (device : OutputDevice) (critical : CriticalStage)
    (hopen : s.file.isOpen = true) : (s.stepCritical device critical).1.file.isOpen = true ∧
    (s.file.out.failed = true → (s.stepCritical device critical).1.file = s.file) := by
  obtain ⟨minLevel, ⟨out, isOpen⟩, console, owner, stageAt⟩ := s
  obtain rfl : isOpen = true := hopen
  cases critical with
  | opening path =>
    refine ⟨by simp [stepCritical, LogFile.open], fun hfailed => ?_⟩
    dsimp only at hfailed
    simp [stepCritical, LogFile.open, ← hfailed]
  | testing line => by_cases hfailed : out.failed <;> simp [stepCritical, hfailed]
  | filing line =>
    refine ⟨rfl, fun hfailed => ?_⟩
    dsimp only at hfailed
    simp [stepCritical, LogFile.insert, OutputFile.insert, hfailed]
  | filingEnd line =>
    refine ⟨rfl, fun hfailed => ?_⟩
    dsimp only at hfailed
    simp [stepCritical, LogFile.insert, OutputFile.insert, hfailed]
  | flushing line => by_cases hfailed : out.failed <;> simp [stepCritical, LogFile.flush, hfailed]
  | _ => exact ⟨rfl, fun _ => rfl⟩

/-! ## The file along a run -/

/-- The file while it is given lines, and after an attempt to open it again. -/
structure Filing (device : OutputDevice) (o : List (LoggerEvent τ)) (s : Logger τ) : Prop where
  locked : s.Locked
  isOpen : s.file.isOpen = true
  given : o.any LoggerEvent.isOpens = false →
    OutputFile.Received device.room (linesText (o.filterMap LoggerEvent.writtenLine) ++ s.inFile)
      s.file.out ∧
    ((∀ critical, s.atWork = some critical → ¬ critical.Filling) → s.file.out.pending = [])
  silent : o.any LoggerEvent.isOpens = true → s.file.out.failed = true ∧
    s.file.out.content =
      stored device.room (linesText ((beforeOpens o).filterMap LoggerEvent.writtenLine))

/-- A file that is opened has been given nothing. -/
theorem Filing.init {t : τ} {now : UInt64} {path : String} (hlocked : s.Locked)
    (hat : s.stageAt t = .inside (.opening path)) (hclosed : s.file.isOpen = false)
    (hopens : device.opens = true) (hstep : s.step (.run t now device) = some s') :
    Filing device [] s' := by
  have hmove := step_move hstep
  have hlocked' := hlocked.step hmove
  have heffect := hlocked.effect hmove
  cases heffect with
  | quiet _ _ _ hstage => exact absurd hat (hstage t now device rfl _)
  | unlocks hat' =>
    rw [hat] at hat'
    cases hat'
  | works hat' hworks hbefore hafter hconsole hfile =>
    rw [hat] at hat'
    cases hat'
    have hfile' : s'.file = { out := OutputFile.create device, isOpen := true } := by
      simp [hfile, stepCritical, LogFile.open, hclosed, hopens]
    refine ⟨hlocked', by rw [hfile'], fun _ => ?_, fun h => by cases h⟩
    have hnothing : s'.inFile = [] := by
      rw [inFile, hafter]
      rfl
    rw [hfile', hnothing]
    exact ⟨OutputFile.create_received device, fun _ => rfl⟩

omit [DecidableEq τ] in
/-- A step that leaves the file alone, and finishes the line that the file has been given if any. -/
theorem Filing.keep {more : List (LoggerEvent τ)} (h : Filing device o s) (hlocked : s'.Locked)
    (hfile : s'.file = s.file) (hmore : more.any LoggerEvent.isOpens = false)
    (hgiven : linesText (more.filterMap LoggerEvent.writtenLine) ++ s'.inFile = s.inFile)
    (hwork : (∀ critical, s'.atWork = some critical → ¬ critical.Filling) →
      ∀ critical, s.atWork = some critical → ¬ critical.Filling) :
    Filing device (o ++ more) s' := by
  refine ⟨hlocked, by rw [hfile, h.isOpen], fun hnone => ?_, fun hsome => ?_⟩
  · rw [List.any_append, hmore, Bool.or_false] at hnone
    obtain ⟨hreceived, hpending⟩ := h.given hnone
    rw [hfile, List.filterMap_append, linesText_append, List.append_assoc, hgiven]
    exact ⟨hreceived, fun hidle => hpending (hwork hidle)⟩
  · rw [List.any_append, hmore, Bool.or_false] at hsome
    rw [hfile, beforeOpens_append hsome]
    exact h.silent hsome

omit [DecidableEq τ] in
/-- A second attempt to open the file sets the fail bit of its stream and nothing else. -/
theorem Filing.opened {t : τ} {path : String} (h : Filing device o s) (hlocked : s'.Locked)
    (hbefore : s.atWork = some (.opening path))
    (hfile : s'.file = { s.file with out := { s.file.out with failed := true } }) :
    Filing device (o ++ [.opens t path]) s' := by
  refine ⟨hlocked, by rw [hfile, h.isOpen], fun hnone => ?_, fun _ => ?_⟩
  · simp [LoggerEvent.isOpens] at hnone
  · rw [hfile]
    refine ⟨rfl, ?_⟩
    cases hany : o.any LoggerEvent.isOpens with
    | true =>
      rw [beforeOpens_append hany]
      exact (h.silent hany).2
    | false =>
      have hbeforeOpens : beforeOpens (o ++ [.opens t path]) = o := by
        have hall := beforeOpens_of_none hany
        rw [beforeOpens, List.takeWhile_eq_self_iff] at hall
        rw [beforeOpens, List.takeWhile_append_of_pos hall]
        simp [LoggerEvent.isOpens]
      obtain ⟨hreceived, hpending⟩ := h.given hany
      rw [inFile, hbefore] at hreceived
      have hidle : s.file.out.pending = [] := hpending fun critical hcritical => by
        rw [hbefore, Option.some.injEq] at hcritical
        subst hcritical
        exact id
      have hcontent := hreceived.content_eq hidle
      rw [hbeforeOpens]
      simpa [CriticalStage.inFile] using hcontent

/-- Every step keeps the lines in the file whole. -/
theorem Filing.step (h : Filing device o s) (hmove : LoggerMove s l s') :
    Filing device (o ++ s.events l) s' := by
  have hlocked := h.locked.step hmove
  cases h.locked.effect hmove with
  | quiet hconsole hfile hwork hstage =>
    have hnone : (s.events l).filterMap LoggerEvent.writtenLine = [] :=
      List.filterMap_eq_nil_iff.mpr fun event hevent => (events_of_outside hstage event hevent).1
    have hopens : (s.events l).any LoggerEvent.isOpens = false := by
      rw [List.any_eq_false]
      intro event hevent
      simp [(events_of_outside hstage event hevent).2]
    refine h.keep hlocked hfile hopens ?_ ?_
    · rw [hnone, linesText_nil, List.nil_append]
      rcases hwork with hsame | ⟨hbefore, critical, hentry, hafter⟩
      · rw [inFile, inFile, hsame]
      · simp [inFile, hbefore, hafter, hentry.nil.2]
    · intro hidle critical hcritical
      rcases hwork with hsame | ⟨hbefore, _⟩
      · exact hidle critical (hsame.trans hcritical)
      · rw [hbefore] at hcritical
        cases hcritical
  | @works t now device' critical hat hworks hbefore hafter hconsole hfile =>
    by_cases hopening : ∃ path, critical = .opening path
    · obtain ⟨path, rfl⟩ := hopening
      have hevents : s.events (.run t now device') = [.opens t path] := by rw [events, hat]; rfl
      rw [hevents]
      refine h.opened hlocked hbefore ?_
      simp [hfile, stepCritical, LogFile.open, h.isOpen]
    · have hother : ∀ path, critical ≠ .opening path := fun path heq => hopening ⟨path, heq⟩
      have hopens : (s.events (.run t now device')).any LoggerEvent.isOpens = false := by
        rw [events, hat]
        cases critical with
        | opening path => exact absurd rfl (hother path)
        | unlocking line result => exact absurd rfl (hworks line result)
        | _ => rfl
      obtain ⟨hisOpen, hsame⟩ := file_stepCritical device' critical h.isOpen
      refine ⟨hlocked, by rw [hfile, hisOpen], fun hnone => ?_, fun hsome => ?_⟩
      · rw [List.any_append, hopens, Bool.or_false] at hnone
        obtain ⟨hreceived, hpending⟩ := h.given hnone
        rw [List.filterMap_append, written_of_working hat hworks, List.append_nil, hfile]
        rw [inFile, hbefore] at hreceived
        refine ⟨?_, fun hidle => ?_⟩
        · rw [inFile, hafter]
          exact inFile_stepCritical device' hworks hother hreceived
        · refine flushed_stepCritical device' hother hreceived (fun hfilling => hpending ?_)
            (hidle _ hafter)
          intro critical' hcritical
          rw [hbefore, Option.some.injEq] at hcritical
          rwa [← hcritical]
      · rw [List.any_append, hopens, Bool.or_false] at hsome
        obtain ⟨hfailed, hcontent⟩ := h.silent hsome
        rw [hfile, hsame hfailed, beforeOpens_append hsome]
        exact ⟨hfailed, hcontent⟩
  | @unlocks t now device' line result hat hbefore hafter hconsole hfile =>
    refine h.keep hlocked hfile ?_ ?_ ?_
    · rw [events, hat]
      cases line <;> rfl
    · rw [events, hat, inFile, inFile, hbefore, hafter]
      cases line with
      | none => rfl
      | some line => simp [stageEvents, LoggerEvent.writtenLine, CriticalStage.inFile]
    · rintro - critical hcritical
      rw [hbefore, Option.some.injEq] at hcritical
      subst hcritical
      exact id

omit [DecidableEq τ] in
/-- Whatever has happened, the file holds a beginning of the lines. -/
theorem Filing.front_lines (h : Filing device o s) : s.file.out.content <+:
    linesText (o.filterMap LoggerEvent.writtenLine) ++ s.inFile := by
  cases hany : o.any LoggerEvent.isOpens with
  | false =>
    rcases (h.given hany).1 with ⟨_, htext, _⟩ | ⟨_, hcontent, _⟩
    · exact ⟨_, htext⟩
    · rw [hcontent]
      exact stored_front _ _
  | true =>
    have hfront : beforeOpens o <+: o := List.takeWhile_prefix _
    obtain ⟨more, hmore⟩ := hfront
    rw [(h.silent hany).2]
    refine (stored_front _ _).trans ?_
    conv_rhs => rw [← hmore]
    rw [List.filterMap_append, linesText_append, List.append_assoc]
    exact List.prefix_append ..

/-- **The log file.** From the moment on at which it is opened, and whatever the interleaving, the file
holds a beginning of the lines that the console is given. Whenever the lock is free it holds all of
them that the device has room for, up to the next attempt to open it. This attempt throws, and nothing
is filed after it. -/
theorem file_lines {before after : List (LoggerLabel τ)} {s₁ s₂ : Logger τ} {t : τ} {now : UInt64}
    {path : String} (hbefore : Transition.run step (new room) before = some s₁)
    (hat : s₁.stageAt t = .inside (.opening path)) (hclosed : s₁.file.isOpen = false)
    (hopens : device.opens = true) (hstep : s₁.step (.run t now device) = some s₂)
    (hafter : Transition.run step s₂ after = some s) :
    s.file.out.content <+:
      linesText ((s₂.history after).filterMap LoggerEvent.writtenLine) ++ s.inFile ∧
    (s.owner = none → s.file.out.content = stored device.room
      (linesText ((beforeOpens (s₂.history after)).filterMap LoggerEvent.writtenLine))) ∧
    ∀ (t' : τ) (path' : String) (device' : OutputDevice),
      s.stageAt t' = .inside (.opening path') →
      (s.stepCritical device' (.opening path')).2 =
        .unlocking none (.error (.runtimeError ("failed to open log file: " ++ path'))) := by
  have hlocked : s₁.Locked := Transition.run_invariant
    (fun hlocked hstep => hlocked.step (step_move hstep)) (Printed.init room).locked hbefore
  have hfiling := Transition.run_observe (I := Filing device) (f := fun s l _ => s.events l)
    (fun h hstep => h.step (step_move hstep)) (Filing.init hlocked hat hclosed hopens hstep) hafter
  rw [List.nil_append] at hfiling
  refine ⟨hfiling.front_lines, fun hfree => ?_, fun t' path' device' _ => ?_⟩
  · cases hany : (Transition.observe step (fun s l _ => s.events l) s₂ after).any
        LoggerEvent.isOpens with
    | true => exact (hfiling.silent hany).2
    | false =>
      obtain ⟨hreceived, hpending⟩ := hfiling.given hany
      rw [inFile, atWork_eq_none hfree] at hreceived
      have hcontent := hreceived.content_eq (hpending fun critical hcritical => by
        rw [atWork_eq_none hfree] at hcritical
        cases hcritical)
      rw [history, beforeOpens_of_none hany]
      simpa using hcontent
  · simp [stepCritical, LogFile.open, hfiling.isOpen]

/-- A run behind the call of `open` in which a line is filed, a second attempt to open the file fails
and another line is not filed. -/
def afterOpening : List (LoggerLabel Bool) :=
  let next := fun t now => LoggerLabel.run t now { bufferSize := 4 }
  [.call true (.log .error "b".toList "filed".toList), next true 1, next true 1, next false 0] ++
  List.replicate 8 (next true 1) ++ [.call true (.setFile "g")] ++ List.replicate 3 (next true 1) ++
  [.call false (.log .info "a".toList "lost".toList)] ++ List.replicate 7 (next false 2)

theorem file_lines_reopened : ∃ s₂ s : Logger Bool, Transition.run step s₂ afterOpening = some s ∧
    s.file.out.content = linesText [logLine 1 .error "b".toList "filed".toList] ∧
    s.console.content = linesText [logLine 1 .error "b".toList "filed".toList,
      logLine 2 .info "a".toList "lost".toList] := by
  let before : List (LoggerLabel Bool) :=
    [.call false (.setFile "f"), .run false 0 { bufferSize := 4 }]
  let opening : LoggerLabel Bool := .run false 0 { bufferSize := 4 }
  obtain ⟨s, hrun⟩ := Option.isSome_iff_exists.mp (show
    (Transition.run step (new none) (before ++ opening :: afterOpening)).isSome by decide +kernel)
  have hfinal : (Transition.run step (new none) (before ++ opening :: afterOpening)).map
      (fun s => (s.owner, s.console.content)) = some (none, linesText
        [logLine 1 .error "b".toList "filed".toList, logLine 2 .info "a".toList "lost".toList]) := by
    decide +kernel
  rw [hrun, Option.map_some, Option.some.injEq, Prod.mk.injEq] at hfinal
  obtain ⟨s₁, hbefore, hrest⟩ := Transition.run_append.mp hrun
  obtain ⟨s₂, hstep, hafter⟩ := Transition.run_cons.mp hrest
  have hat : s₁.stageAt false = .inside (.opening "f") := by
    cases hbefore
    rfl
  have hclosed : s₁.file.isOpen = false := by
    cases hbefore
    rfl
  have hfiled := (file_lines hbefore hat hclosed rfl hstep hafter).2.1 hfinal.1
  refine ⟨s₂, s, hafter, hfiled.trans ?_, hfinal.2⟩
  cases hbefore
  cases hstep
  decide +kernel

end Logger

end Hpblr
