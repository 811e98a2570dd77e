import Hpblr.Logging.Logger

/-!
# The lock of the logger

At most one thread is in a critical section, and the sections enter at their beginnings. What a step
does to the console and to the log file depends on the thread with the lock alone.
-/

namespace Hpblr

variable {τ : Type*} [DecidableEq τ]

/-! ## Steps -/

/-- The steps of the logger. -/
inductive LoggerMove (s : Logger τ) : LoggerLabel τ → Logger τ → Prop
  | calls {t : τ} {c : LoggerCall} (houtside : ¬ (s.stageAt t).InCall) :
      LoggerMove s (.call t c) (s.threadTo t c.entry)
  | drops {t : τ} {now : UInt64} {device : OutputDevice} {level : LogLevel}
      {component message : Text} (hat : s.stageAt t = .checking level component message)
      (hlow : level.value < s.minLevel.value) :
      LoggerMove s (.run t now device) (s.threadTo t (.returned (.ok ())))
  | passes {t : τ} {now : UInt64} {device : OutputDevice} {level : LogLevel}
      {component message : Text} (hat : s.stageAt t = .checking level component message)
      (hhigh : s.minLevel.value ≤ level.value) :
      LoggerMove s (.run t now device) (s.threadTo t (.formatting level component message))
  | formats {t : τ} {now : UInt64} {device : OutputDevice} {level : LogLevel}
      {component message : Text} (hat : s.stageAt t = .formatting level component message) :
      LoggerMove s (.run t now device)
        (s.threadTo t (.locking (.writing (logLine now level component message))))
  | locks {t : τ} {now : UInt64} {device : OutputDevice} {critical : CriticalStage}
      (hat : s.stageAt t = .locking critical) (hfree : s.owner = none) :
      LoggerMove s (.run t now device) { s.threadTo t (.inside critical) with owner := some t }
  | works {t : τ} {now : UInt64} {device : OutputDevice} {critical : CriticalStage}
      (hat : s.stageAt t = .inside critical)
      (hworks : ∀ line result, critical ≠ .unlocking line result) :
      LoggerMove s (.run t now device)
        ((s.stepCritical device critical).1.threadTo t
          (.inside (s.stepCritical device critical).2))
  | unlocks {t : τ} {now : UInt64} {device : OutputDevice} {line : Option Text}
      {result : Except Exception Unit} (hat : s.stageAt t = .inside (.unlocking line result)) :
      LoggerMove s (.run t now device) { s.threadTo t (.returned result) with owner := none }

namespace Logger

variable {s s' : Logger τ} {t : τ} {l : LoggerLabel τ}

theorem step_move (h : s.step l = some s') : LoggerMove s l s' := by
  cases l with
  | call t c =>
    rw [step] at h
    by_cases hin : (s.stageAt t).InCall
    · rw [if_pos hin] at h
      cases h
    · rw [if_neg hin] at h
      cases h
      exact .calls hin
  | run t now device =>
    rw [step, stepThread] at h
    cases hat : s.stageAt t with
    | outside => simp [hat] at h
    | returned result => simp [hat] at h
    | checking level component message =>
      simp only [hat] at h
      by_cases hlow : level.value < s.minLevel.value
      · rw [if_pos hlow] at h
        cases h
        exact .drops hat hlow
      · rw [if_neg hlow] at h
        cases h
        exact .passes hat (Int.not_lt.mp hlow)
    | formatting level component message =>
      simp only [hat] at h
      cases h
      exact .formats hat
    | locking critical =>
      simp only [hat] at h
      cases hfree : s.owner with
      | some owner => simp [hfree] at h
      | none =>
        simp only [hfree] at h
        cases h
        exact .locks hat hfree
    | inside critical =>
      simp only [hat] at h
      cases critical with
      | unlocking line result =>
        cases h
        exact .unlocks hat
      | _ =>
        cases h
        exact .works hat (by simp)

@[simp] theorem stageAt_threadTo (stage : LoggerStage) : (s.threadTo t stage).stageAt t = stage :=
  Function.update_self ..

omit [DecidableEq τ] in
/-- The work with the lock leaves the lock and the threads. -/
@[simp] theorem owner_stepCritical (device : OutputDevice) (critical : CriticalStage) :
    (s.stepCritical device critical).1.owner = s.owner ∧
      (s.stepCritical device critical).1.stageAt = s.stageAt := by
  cases critical with
  | testing line =>
    unfold stepCritical
    dsimp only
    split <;> exact ⟨rfl, rfl⟩
  | _ => exact ⟨rfl, rfl⟩

end Logger

/-- The stages in which a thread waits for the lock. -/
def CriticalStage.IsEntry : CriticalStage → Prop
  | .assigning _ | .opening _ | .writing _ => True
  | _ => False

namespace Logger

variable {s s' : Logger τ} {t : τ} {l : LoggerLabel τ}

/-! ## The lock -/

/-- What the thread with the lock does next. -/
def atWork (s : Logger τ) : Option CriticalStage :=
  s.owner.bind fun t =>
    match s.stageAt t with
    | .inside critical => some critical
    | _ => none

/-- At most one thread has the lock, and only threads at an entry wait for it. -/
structure Locked (s : Logger τ) : Prop where
  owner : ∀ t, (∃ critical, s.stageAt t = .inside critical) ↔ s.owner = some t
  entry : ∀ t critical, s.stageAt t = .locking critical → critical.IsEntry

omit [DecidableEq τ] in
theorem Locked.atWork_eq (hlocked : s.Locked) {critical : CriticalStage}
    (hat : s.stageAt t = .inside critical) : s.atWork = some critical := by
  have howner := (hlocked.owner t).mp ⟨critical, hat⟩
  simp [atWork, howner, hat]

omit [DecidableEq τ] in
theorem atWork_eq_none (hfree : s.owner = none) : s.atWork = none := by
  rw [atWork, hfree]
  rfl

/-- A thread that does not have the lock gets to another stage without it. -/
theorem Locked.threadTo (hlocked : s.Locked) {stage : LoggerStage}
    (hat : ∀ critical, s.stageAt t ≠ .inside critical)
    (hstage : ∀ critical, stage ≠ .inside critical)
    (hentry : ∀ critical, stage = .locking critical → critical.IsEntry) :
    (s.threadTo t stage).Locked ∧ (s.threadTo t stage).atWork = s.atWork := by
  have hnot : s.owner ≠ some t := by
    intro howner
    obtain ⟨critical, hinside⟩ := (hlocked.owner t).mpr howner
    exact hat critical hinside
  refine ⟨⟨fun t' => ?_, fun t' critical hlocking => ?_⟩, ?_⟩
  · by_cases heq : t' = t
    · subst heq
      rw [stageAt_threadTo]
      exact iff_of_false (fun ⟨critical, h⟩ => hstage critical h) hnot
    · simp only [Logger.threadTo, Function.update_of_ne heq]
      exact hlocked.owner t'
  · by_cases heq : t' = t
    · subst heq
      rw [stageAt_threadTo] at hlocking
      exact hentry critical hlocking
    · simp only [Logger.threadTo, Function.update_of_ne heq] at hlocking
      exact hlocked.entry t' critical hlocking
  · unfold atWork Logger.threadTo
    cases howner : s.owner with
    | none => rfl
    | some t' =>
      have hne : t' ≠ t := by
        rintro rfl
        exact hnot howner
      simp [Function.update_of_ne hne]

/-- The first stage of a call. -/
theorem LoggerCall.entry_cases (c : LoggerCall) : (∀ critical, c.entry ≠ .inside critical) ∧
    ∀ critical, c.entry = .locking critical → critical.IsEntry := by
  cases c with
  | setLevel level =>
    refine ⟨by simp [LoggerCall.entry], fun critical h => ?_⟩
    cases h
    trivial
  | setFile path =>
    refine ⟨by simp [LoggerCall.entry], fun critical h => ?_⟩
    cases h
    trivial
  | log level component message => exact ⟨by simp [LoggerCall.entry], by simp [LoggerCall.entry]⟩

/-- The lock changes hands: a thread that does not have it takes it while it is free. -/
theorem Locked.locks (hlocked : s.Locked) {critical : CriticalStage}
    (hat : s.stageAt t = .locking critical) (hfree : s.owner = none) :
    ({ s.threadTo t (.inside critical) with owner := some t } : Logger τ).Locked := by
  refine ⟨fun t' => ?_, fun t' critical' hlocking => ?_⟩
  · by_cases heq : t' = t
    · subst heq
      simp
    · have hother := hlocked.owner t'
      rw [hfree] at hother
      simp only [Logger.threadTo, Function.update_of_ne heq, hother]
      simp [Ne.symm heq]
  · by_cases heq : t' = t
    · subst heq
      simp at hlocking
    · refine hlocked.entry t' critical' ?_
      simpa [Logger.threadTo, Function.update_of_ne heq] using hlocking

/-- The thread with the lock goes on. -/
theorem Locked.works (hlocked : s.Locked) {critical critical' : CriticalStage} {w : Logger τ}
    (hat : s.stageAt t = .inside critical) (hsame : w.owner = s.owner ∧ w.stageAt = s.stageAt) :
    (w.threadTo t (.inside critical')).Locked := by
  have howner := (hlocked.owner t).mp ⟨critical, hat⟩
  refine ⟨fun t' => ?_, fun t' critical'' hlocking => ?_⟩
  · by_cases heq : t' = t
    · subst heq
      simpa [Logger.threadTo, hsame.1] using howner
    · simp only [Logger.threadTo, Function.update_of_ne heq, hsame]
      exact hlocked.owner t'
  · by_cases heq : t' = t
    · subst heq
      simp at hlocking
    · refine hlocked.entry t' critical'' ?_
      simpa [Logger.threadTo, Function.update_of_ne heq, hsame] using hlocking

/-- The thread with the lock releases it. -/
theorem Locked.unlocks (hlocked : s.Locked) {critical : CriticalStage}
    {result : Except Exception Unit} (hat : s.stageAt t = .inside critical) :
    ({ s.threadTo t (.returned result) with owner := none } : Logger τ).Locked := by
  have howner := (hlocked.owner t).mp ⟨critical, hat⟩
  refine ⟨fun t' => ?_, fun t' critical' hlocking => ?_⟩
  · by_cases heq : t' = t
    · subst heq
      simp
    · have hother := hlocked.owner t'
      rw [howner] at hother
      simp only [Logger.threadTo, Function.update_of_ne heq, hother]
      simp [Ne.symm heq]
  · by_cases heq : t' = t
    · subst heq
      simp at hlocking
    · refine hlocked.entry t' critical' ?_
      simpa [Logger.threadTo, Function.update_of_ne heq] using hlocking

/-- Every step keeps the lock in order. -/
theorem Locked.step (hlocked : s.Locked) (h : LoggerMove s l s') : s'.Locked := by
  cases h with
  | @calls t c houtside =>
    obtain ⟨hinside, hentry⟩ := LoggerCall.entry_cases c
    refine (hlocked.threadTo (fun critical hat => ?_) hinside hentry).1
    rw [hat] at houtside
    exact houtside trivial
  | drops hat => exact (hlocked.threadTo (by simp [hat]) (by simp) (by simp)).1
  | passes hat => exact (hlocked.threadTo (by simp [hat]) (by simp) (by simp)).1
  | formats hat =>
    refine (hlocked.threadTo (by simp [hat]) (by simp) fun critical h => ?_).1
    cases h
    trivial
  | locks hat hfree => exact hlocked.locks hat hfree
  | works hat => exact hlocked.works hat (owner_stepCritical _ _)
  | unlocks hat => exact hlocked.unlocks hat

/-- What a step does to the console and the file: nothing, while the lock may be taken; the next work
of the thread with the lock; or the end of this work. -/
inductive Effect (s s' : Logger τ) : LoggerLabel τ → Prop
  | quiet {l : LoggerLabel τ} (hconsole : s'.console = s.console) (hfile : s'.file = s.file)
      (hwork : s'.atWork = s.atWork ∨
        s.atWork = none ∧ ∃ critical : CriticalStage, critical.IsEntry ∧ s'.atWork = some critical)
      (hstage : ∀ t now device, l = .run t now device → ∀ critical, s.stageAt t ≠ .inside critical) :
      Effect s s' l
  | works {t : τ} {now : UInt64} {device : OutputDevice} {critical : CriticalStage}
      (hat : s.stageAt t = .inside critical)
      (hworks : ∀ line result, critical ≠ .unlocking line result)
      (hbefore : s.atWork = some critical)
      (hafter : s'.atWork = some (s.stepCritical device critical).2)
      (hconsole : s'.console = (s.stepCritical device critical).1.console)
      (hfile : s'.file = (s.stepCritical device critical).1.file) :
      Effect s s' (.run t now device)
  | unlocks {t : τ} {now : UInt64} {device : OutputDevice} {line : Option Text}
      {result : Except Exception Unit} (hat : s.stageAt t = .inside (.unlocking line result))
      (hbefore : s.atWork = some (.unlocking line result)) (hafter : s'.atWork = none)
      (hconsole : s'.console = s.console) (hfile : s'.file = s.file) :
      Effect s s' (.run t now device)

/-- The effect of a step. -/
theorem Locked.effect (hlocked : s.Locked) (h : LoggerMove s l s') : Effect s s' l := by
  have hlocked' := hlocked.step h
  cases h with
  | @calls t c houtside =>
    obtain ⟨hinside, hentry⟩ := LoggerCall.entry_cases c
    refine .quiet rfl rfl (Or.inl (hlocked.threadTo (fun critical hat => ?_) hinside hentry).2)
      (by simp)
    rw [hat] at houtside
    exact houtside trivial
  | drops hat =>
    exact .quiet rfl rfl (Or.inl (hlocked.threadTo (by simp [hat]) (by simp) (by simp)).2)
      (by rintro _ _ _ ⟨⟩; simp [hat])
  | @passes t now device level component message hat =>
    exact .quiet rfl rfl (Or.inl (hlocked.threadTo (by simp [hat]) (by simp) (by simp)).2)
      (by rintro _ _ _ ⟨⟩; simp [hat])
  | @formats t now device level component message hat =>
    refine .quiet rfl rfl (Or.inl (hlocked.threadTo (by simp [hat]) (by simp) ?_).2)
      (by rintro _ _ _ ⟨⟩; simp [hat])
    intro critical h
    cases h
    trivial
  | @locks t now device critical hat hfree =>
    refine .quiet rfl rfl (Or.inr ⟨atWork_eq_none hfree, critical, hlocked.entry t critical hat, ?_⟩)
      (by rintro _ _ _ ⟨⟩; simp [hat])
    exact hlocked'.atWork_eq (t := t) (by simp)
  | @works t now device critical hat hworks =>
    refine .works hat hworks (hlocked.atWork_eq hat) ?_ rfl rfl
    exact hlocked'.atWork_eq (stageAt_threadTo _)
  | unlocks hat => exact .unlocks hat (hlocked.atWork_eq hat) (atWork_eq_none rfl) rfl rfl

end Logger

end Hpblr
