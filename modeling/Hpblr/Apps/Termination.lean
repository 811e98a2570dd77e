import Hpblr.Apps.Boundary
import Hpblr.Apps.Sequences
import Hpblr.Recorder.Work

/-!
# The recording tools end

A recording process takes a bounded number of steps, whatever the schedule: with a number of events
to generate from its start on, and otherwise from the moment on at which the producers see the stop
flag. Only wake-ups without a notification add to it, one step each. Since some thread can go on
until `main` has returned, every run that is not cut short comes to the exit of `main`, or to
`std::terminate`.
-/

namespace Hpblr

variable {R : Type*}

/-- What a label costs: one step of a thread. -/
def RecordingLabel.cost : RecordingLabel → ℕ
  | .main _ | .producer _ _ _ | .writer _ => 1
  | .signal _ | .wake _ => 0

/-- The work that a label brings. -/
def RecordingLabel.credit : RecordingLabel → ℕ
  | .wake _ => 1
  | _ => 0

namespace RecordingTool

/-! ## The work of the process -/

/-- How the loop of a producer is weighed: its work before the stop test, before it draws a number,
and the work that a value of the counter leaves to the numbers to come. -/
structure Pace where
  testing : ℕ
  drawing : ℕ
  tickets : UInt64 → ℕ

/-- Each number below the limit pays for the round of the loop that it starts. -/
def limitedPace (events : UInt64) : Pace :=
  ⟨3, 2, fun next => 18 * (events.toNat - next.toNat)⟩

/-- Every producer sees the stop flag, and finishes the round it is in. -/
def stoppingPace : Pace := ⟨1, 20, fun _ => 0⟩

/-- The work of a producer, apart from its work in `submit`. -/
def stageWork (tool : RecordingTool) (pace : Pace) : ProducerStage → ℕ
  | .unborn => pace.testing + 1
  | .testing => pace.testing
  | .drawing => pace.drawing
  | .limiting sequence => if tool.past sequence then 1 else 19
  | .generating _ => 18
  | .submitting => 5
  | .counting => 4
  | .ended => 0

/-- The work of `main`, apart from its work in `stop`, when there are `k` producers. -/
def mainWork (k : ℕ) : MainStage → ℕ
  | .spawning _ => 3 * k + 21
  | .joining i => (k - i) + 2 * k + 20
  | .stopping => k + 11
  | .reporting => k + 10
  | .leaving _ => 1
  | .exited _ => 0

/-- The work of the process. -/
def work (tool : RecordingTool) (pace : Pace) (s : RecordingState R) : ℕ :=
  (∑ p ∈ Finset.range tool.producers.toNat, tool.stageWork pace (s.producerAt p)) +
    mainWork tool.producers.toNat s.mainAt + pace.tickets s.nextSequence +
    s.recorder.work (Finset.range tool.producers.toNat) + (!s.terminated).toNat

/-- The pace fits the state: a producer goes on past the stop test only with work left, and the
number it draws is paid for. -/
structure Keeps (tool : RecordingTool) (pace : Pace) (s : RecordingState R) : Prop where
  few : pace.testing ≤ 3
  some : 0 < pace.testing
  goesOn : ∀ p < tool.producers.toNat, (tool.stopsOnSignal = true → s.stopRequested p = false) →
    pace.drawing < pace.testing
  draws : ∀ p, s.producerAt p = .drawing →
    tool.stageWork pace (.limiting s.nextSequence) + pace.tickets (s.nextSequence + 1) + 1 ≤
      pace.drawing + pace.tickets s.nextSequence

variable {tool : RecordingTool} {engine : RandomEngine R} {pace : Pace}
  {s s' s₀ : RecordingState R} {l : RecordingLabel} {device : Device} {now : UInt64} {p : ℕ}

/-- Only started producers are inside `submit`. -/
theorem onlyCalledBy (hlife : Lifecycle tool s now) :
    s.recorder.OnlyCalledBy (Finset.range tool.producers.toNat) := by
  intro p hin
  have hat := (hlife.submit p).submitting hin
  exact Finset.mem_range.mpr (hlife.of_producer (by simp [hat]) (by simp [hat])).1

/-! ## What a change of the state does to the work -/

/-- A producer gets to another stage. -/
private theorem work_producerTo (pace : Pace) {stage : ProducerStage} (hat : s.producerAt p = stage)
    (hp : p < tool.producers.toNat) (stage' : ProducerStage) :
    tool.work pace (s.producerTo p stage') + tool.stageWork pace stage =
      tool.work pace s + tool.stageWork pace stage' := by
  have hmem := Finset.mem_range.mpr hp
  have hother : ∑ p' ∈ (Finset.range tool.producers.toNat).erase p,
        tool.stageWork pace ((s.producerTo p stage').producerAt p') =
      ∑ p' ∈ (Finset.range tool.producers.toNat).erase p,
        tool.stageWork pace (s.producerAt p') := by
    refine Finset.sum_congr rfl fun p' hp' => ?_
    have hsame : (s.producerTo p stage').producerAt p' = s.producerAt p' :=
      Function.update_of_ne (Finset.ne_of_mem_erase hp') _ _
    rw [hsame]
  rw [work, work, ← Finset.add_sum_erase _ _ hmem, ← Finset.add_sum_erase _ _ hmem, hother,
    RecordingState.producerAt_producerTo, hat]
  simp only [RecordingState.producerTo]
  omega

private theorem work_nextSequence (tool : RecordingTool) (pace : Pace) (next : UInt64) :
    tool.work pace { s with nextSequence := next } + pace.tickets s.nextSequence =
      tool.work pace s + pace.tickets next := by
  simp only [work]
  omega

private theorem work_mainAt (tool : RecordingTool) (pace : Pace) {stage : MainStage}
    (hat : s.mainAt = stage) (stage' : MainStage) :
    tool.work pace { s with mainAt := stage' } + mainWork tool.producers.toNat stage =
      tool.work pace s + mainWork tool.producers.toNat stage' := by
  simp only [work, hat]
  omega

private theorem work_terminated (tool : RecordingTool) (pace : Pace) (hrunning : s.terminated = false) :
    tool.work pace { s with terminated := true } + 1 = tool.work pace s := by
  simp [work, hrunning]

/-- The recorder takes a step. -/
private theorem work_recorder (pace : Pace) (hlife : Lifecycle tool s now) {recorder : AsyncRecorder ℕ}
    {l : RecorderLabel ℕ} (hlabel : ∀ p event, l = .submit p event → p < tool.producers.toNat)
    (hstep : s.recorder.step l = some recorder) :
    l.cost + tool.work pace { s with recorder := recorder } ≤
      tool.work pace s + l.credit tool.producers.toNat := by
  have hwork := hlife.recording.work_step (hlife.recording.step hstep) (onlyCalledBy hlife)
    (fun p event heq => Finset.mem_range.mpr (hlabel p event heq)) (AsyncRecorder.step_move hstep)
  rw [Finset.card_range] at hwork
  simp only [work]
  omega

/-- A producer takes a step outside `submit`. -/
private theorem work_producer (pace : Pace) (hlife : Lifecycle tool s now) {stage : ProducerStage}
    (hat : s.producerAt p = stage) (hstage : stage ≠ .unborn ∧ stage ≠ .ended)
    (stage' : ProducerStage) :
    tool.work pace (s.producerTo p stage') + tool.stageWork pace stage =
      tool.work pace s + tool.stageWork pace stage' :=
  work_producerTo pace hat (hlife.of_producer (hat ▸ hstage.1) (hat ▸ hstage.2)).1 stage'

/-- `main` calls `stop`, and then gets to another stage. -/
private theorem work_stopCalled (pace : Pace) (hlife : Lifecycle tool s now) {recorder : AsyncRecorder ℕ}
    {stage : MainStage} (hat : s.mainAt = stage) (hstep : s.recorder.step .stop = some recorder)
    (stage' : MainStage) :
    tool.work pace { s with mainAt := stage', recorder := recorder } +
        mainWork tool.producers.toNat stage ≤
      tool.work pace s + mainWork tool.producers.toNat stage' + (tool.producers.toNat + 8) := by
  have hwork := work_recorder pace hlife (by simp) hstep
  have hmain : tool.work pace { s with mainAt := stage', recorder := recorder } +
      mainWork tool.producers.toNat stage =
        tool.work pace { s with recorder := recorder } +
          mainWork tool.producers.toNat stage' :=
    work_mainAt tool pace (s := { s with recorder := recorder }) hat stage'
  simp only [RecorderLabel.cost, RecorderLabel.credit] at hwork
  omega

/-! ## A step uses up work -/

/-- A step of a producer. -/
private theorem producer_work_step (hlife : Lifecycle tool s now) (hkeeps : tool.Keeps pace s)
    (hrunning : s.terminated = false) {now' : UInt64} {n : Option (RecorderThread ℕ)}
    (h : RecordingMove tool engine s (.producer p now' n) s') :
    tool.work pace s' + 1 ≤ tool.work pace s := by
  have hpositive := hkeeps.some
  have hfew := hkeeps.few
  cases h with
  | seesStop hat =>
    have hwork := work_producer pace hlife hat (by simp) .ended
    simp only [stageWork] at hwork
    omega
  | goesOn hat hstop =>
    have hwork := work_producer pace hlife hat (by simp) .drawing
    have hlt := hkeeps.goesOn p (hlife.of_producer (by simp [hat]) (by simp [hat])).1 hstop
    simp only [stageWork] at hwork
    omega
  | draws hat =>
    have hwork := work_producer pace hlife hat (by simp) (.limiting s.nextSequence)
    have hcounter := work_nextSequence tool pace (s := s.producerTo p (.limiting s.nextSequence))
      (s.nextSequence + 1)
    change _ + pace.tickets s.nextSequence = _ at hcounter
    dsimp only
    have hpaid := hkeeps.draws p hat
    rw [show tool.stageWork pace .drawing = pace.drawing from rfl] at hwork
    omega
  | isPast hat hpast =>
    have hwork := work_producer pace hlife hat (by simp) .ended
    simp only [stageWork, if_pos hpast] at hwork
    omega
  | @isWithin _ sequence _ _ hat hpast =>
    have hwork := work_producer pace hlife hat (by simp) (.generating sequence)
    simp only [stageWork, hpast, Bool.false_eq_true, if_false] at hwork
    omega
  | generateThrows =>
    have hwork := work_terminated tool pace hrunning
    omega
  | @generates p _ _ _ event generator recorder hat _ hstep =>
    have hp := (hlife.of_producer (p := p) (by simp [hat]) (by simp [hat])).1
    have hwork := work_recorder pace hlife (fun p' event' heq => by
      cases heq
      exact hp) hstep
    have hsubmits := work_producerTo pace (s := { s with recorder := recorder }) hat hp .submitting
    change tool.work pace (({ s with recorder := recorder } : RecordingState R).producerTo p
      .submitting) + 1 ≤ tool.work pace s
    simp only [stageWork] at hsubmits
    simp only [RecorderLabel.cost, RecorderLabel.credit] at hwork
    omega
  | submitRuns _ hstep =>
    have hwork := work_recorder pace hlife (by simp) hstep
    simp only [RecorderLabel.cost, RecorderLabel.credit] at hwork
    omega
  | isAccepted hat =>
    split
    · have hwork := work_producer pace hlife hat (by simp) .counting
      simp only [stageWork] at hwork
      omega
    · have hwork := work_producer pace hlife hat (by simp) .testing
      simp only [stageWork] at hwork
      omega
  | isRefused hat =>
    have hwork := work_producer pace hlife hat (by simp) .ended
    simp only [stageWork] at hwork
    omega
  | submitThrows =>
    have hwork := work_terminated tool pace hrunning
    omega
  | counts hat =>
    have hwork := work_producer pace hlife hat (by simp) .testing
    change tool.work pace (s.producerTo p .testing) + 1 ≤ tool.work pace s
    simp only [stageWork] at hwork
    omega

/-- A step of `main`. -/
private theorem main_work_step (pace : Pace) (hlife : Lifecycle tool s now) {n : Option (RecorderThread ℕ)}
    (h : RecordingMove tool engine s (.main n) s') :
    tool.work pace s' + 1 ≤ tool.work pace s := by
  cases h with
  | @spawns k _ hat hk =>
    have hwork := work_producerTo pace (unborn_of_spawning hlife hat) hk .testing
    have hmain := work_mainAt tool pace (s := s.producerTo k .testing) hat (.spawning (k + 1))
    simp only [stageWork] at hwork
    simp only [mainWork] at hmain
    dsimp only
    omega
  | allSpawned hat =>
    have hmain := work_mainAt tool pace hat (.joining 0)
    simp only [mainWork] at hmain
    omega
  | @joins k _ hat hk =>
    have hmain := work_mainAt tool pace hat (.joining (k + 1))
    simp only [mainWork] at hmain
    omega
  | stops hat hk hstep =>
    have hwork := work_stopCalled pace hlife hat hstep .stopping
    simp only [mainWork] at hwork
    omega
  | stopRuns _ hstep =>
    have hwork := work_recorder pace hlife (by simp) hstep
    simp only [RecorderLabel.cost, RecorderLabel.credit] at hwork
    omega
  | stopReturns hat =>
    have hmain := work_mainAt tool pace hat .reporting
    simp only [mainWork] at hmain
    omega
  | stopThrows hat _ hstep =>
    have hwork := work_stopCalled pace hlife hat hstep (.leaving 1)
    simp only [mainWork] at hwork
    omega
  | @reports _ recorder hat _ hstep =>
    have hwork := work_stopCalled pace hlife hat hstep (.leaving 0)
    change tool.work pace { s with mainAt := .leaving 0, recorder := recorder } + 1 ≤
      tool.work pace s
    simp only [mainWork] at hwork
    omega
  | reportThrows hat _ hstep =>
    have hwork := work_stopCalled pace hlife hat hstep (.leaving 1)
    simp only [mainWork] at hwork
    omega
  | @exits _ code _ hat =>
    have hmain := work_mainAt tool pace hat (.exited code)
    simp only [mainWork] at hmain
    omega

/-- **Every step uses up work**, one unit at least, but for the stop signal and wake-ups. -/
theorem work_step (hlife : Lifecycle tool s now) (hkeeps : tool.Keeps pace s)
    (h : tool.step engine s l = some s') :
    l.cost + tool.work pace s' ≤ tool.work pace s + l.credit := by
  obtain ⟨hrunning, hmove⟩ := step_move h
  cases l with
  | signal p =>
    cases hmove with
    | signals =>
      simp only [RecordingLabel.cost, RecordingLabel.credit, work]
      omega
  | main n =>
    have hwork := main_work_step pace hlife hmove
    simp only [RecordingLabel.cost, RecordingLabel.credit]
    omega
  | producer p now' n =>
    have hwork := producer_work_step hlife hkeeps hrunning hmove
    simp only [RecordingLabel.cost, RecordingLabel.credit]
    omega
  | writer n =>
    cases hmove with
    | writes hstep =>
      have hwork := work_recorder pace hlife (by simp) hstep
      simp only [RecorderLabel.cost, RecorderLabel.credit] at hwork
      simp only [RecordingLabel.cost, RecordingLabel.credit]
      omega
  | wake t =>
    cases hmove with
    | wakes hstep =>
      have hwork := work_recorder pace hlife (by simp) hstep
      simp only [RecorderLabel.cost, RecorderLabel.credit] at hwork
      simp only [RecordingLabel.cost, RecordingLabel.credit]
      omega

/-! ## The two paces -/

variable {events : UInt64} {drawn : ℕ}

/-- With a number of events to generate, the numbers below it pay for the rounds. -/
private theorem keeps_limited (htool : Generates tool events) (hevents : events ≠ 0)
    (hbound : events.toNat + tool.producers.toNat < 2 ^ 64) (hlife : Lifecycle tool s now)
    (hcounted : tool.Counted events s drawn) : tool.Keeps (limitedPace events) s where
  few := by simp [limitedPace]
  some := by simp [limitedPace]
  goesOn := fun _ _ _ => by simp [limitedPace]
  draws := by
    intro p hat
    have hlt := (hlife.of_producer (p := p) (by simp [hat]) (by simp [hat])).1
    -- The producer is not finished yet, so the counter is not at its end.
    have hcard : (tool.finishedProducers s).card < tool.producers.toNat := by
      have hsub : tool.finishedProducers s ⊆ (Finset.range tool.producers.toNat).erase p := by
        intro p' hp'
        obtain ⟨hlt', hfinished⟩ := mem_finishedProducers.mp hp'
        refine Finset.mem_erase.mpr ⟨?_, Finset.mem_range.mpr hlt'⟩
        rintro rfl
        simp [hat, finished] at hfinished
      have hle := Finset.card_le_card hsub
      rw [Finset.card_erase_of_mem (Finset.mem_range.mpr hlt), Finset.card_range] at hle
      omega
    have hfew := hcounted.few hevents
    have hnext : s.nextSequence.toNat = drawn := by
      have hdrawn : drawn < 2 ^ 64 := by omega
      rw [hcounted.next, UInt64.toNat_ofNat_of_lt' hdrawn]
    have hsucc : (s.nextSequence + 1).toNat = s.nextSequence.toNat + 1 := by
      rw [UInt64.toNat_add, UInt64.toNat_one]
      exact Nat.mod_eq_of_lt (by omega)
    simp only [stageWork, limitedPace]
    by_cases hpast : tool.past s.nextSequence = true
    · obtain ⟨_, hle⟩ := (htool.past_iff _).mp hpast
      rw [UInt64.le_iff_toNat_le] at hle
      rw [if_pos hpast, hsucc]
      omega
    · have hbelow : s.nextSequence.toNat < events.toNat := by
        rw [← UInt64.lt_iff_toNat_lt, ← UInt64.not_le]
        exact fun hle => hpast ((htool.past_iff _).mpr ⟨hevents, hle⟩)
      rw [if_neg hpast, hsucc]
      omega

/-- When every producer sees the stop flag, no round is started. -/
private theorem keeps_stopping (hsignal : tool.stopsOnSignal = true)
    (hvisible : ∀ p < tool.producers.toNat, s.stopRequested p = true) :
    tool.Keeps stoppingPace s where
  few := by decide
  some := by decide
  goesOn := by
    intro p hp hstop
    rw [hvisible p hp] at hstop
    exact absurd (hstop hsignal) (by simp)
  draws := by
    intro p _
    simp only [stageWork, stoppingPace]
    split <;> omega

/-- The stop flag stays visible. -/
private theorem stopRequested_step {engine : RandomEngine R} (h : RecordingMove tool engine s l s')
    (hp : s.stopRequested p = true) : s'.stopRequested p = true := by
  cases h with
  | @signals p' _ =>
    dsimp only
    by_cases heq : p = p'
    · subst heq
      exact Function.update_self ..
    · rwa [Function.update_of_ne heq]
  | _ => exact hp

/-! ## Runs -/

/-- Until `main` has returned or the process was terminated, someone can go on. -/
private theorem ended_or_canStep (hlife : Lifecycle tool s now) :
    (∃ code, s.mainAt = .exited code) ∨ s.terminated = true ∨ tool.CanStep engine s := by
  by_cases hexited : ∃ code, s.mainAt = .exited code
  · exact Or.inl hexited
  · by_cases hterminated : s.terminated = true
    · exact Or.inr (Or.inl hterminated)
    · exact Or.inr (Or.inr (canStep hlife (by simpa using hterminated) (not_exists.mp hexited)))

/-- The work at the start. -/
private theorem work_start (hstart : tool.start engine device now = .ok s₀) :
    tool.work (limitedPace events) s₀ = 18 * events.toNat + 9 * tool.producers.toNat + 33 := by
  obtain ⟨recorder, hnew, rfl⟩ := start_eq hstart
  have hrecorder := (AsyncRecorder.work_new (Finset.range tool.producers.toNat) hnew).1
  have hstages : ∑ p ∈ Finset.range tool.producers.toNat,
      tool.stageWork (limitedPace events) .unborn = tool.producers.toNat * 4 := by
    rw [Finset.sum_const_nat (fun _ _ => rfl), Finset.card_range]
    rfl
  have hnumbers : (limitedPace events).tickets 0 = 18 * events.toNat := by simp [limitedPace]
  rw [Finset.card_range] at hrecorder
  simp only [work, hstages, hnumbers, mainWork, hrecorder, Bool.not_false, Bool.toNat_true]
  omega

/-- The steps of a run with a number of events to generate. -/
theorem limited_cost_le (htool : Generates tool events) (hevents : events ≠ 0)
    (hbound : events.toNat + tool.producers.toNat < 2 ^ 64)
    (hstart : tool.start engine device now = .ok s₀) {labels : List RecordingLabel}
    (hrun : Transition.run (tool.step engine) s₀ labels = some s) :
    Transition.total RecordingLabel.cost labels ≤
      18 * events.toNat + 9 * tool.producers.toNat + 33 +
        Transition.total RecordingLabel.credit labels := by
  let I (s : RecordingState R) : Prop := Lifecycle tool s now ∧ ∃ drawn, tool.Counted events s drawn
  have hinv {s s' : RecordingState R} {l : RecordingLabel} (hs : I s) (_ : True)
      (hstep : tool.step engine s l = some s') : I s' := by
    obtain ⟨hlife, drawn, hcounted⟩ := hs
    refine ⟨hlife.step hstep, _, hcounted.step hlife hbound ?_ (step_move hstep).2⟩
    exact fun sequence hevents hle => (htool.past_iff sequence).mpr ⟨hevents, hle⟩
  have hpays {s s' : RecordingState R} {l : RecordingLabel} (hs : I s) (_ : True)
      (hstep : tool.step engine s l = some s') : l.cost + tool.work (limitedPace events) s' ≤
        tool.work (limitedPace events) s + l.credit := by
    obtain ⟨hlife, drawn, hcounted⟩ := hs
    exact work_step hlife (keeps_limited htool hevents hbound hlife hcounted) hstep
  have hcounted : tool.Counted events s₀ 0 := by
    obtain ⟨recorder, _, rfl⟩ := start_eq hstart
    exact ⟨rfl, fun _ => Nat.zero_le _⟩
  have hpaid := Transition.total_add_rank_le (tool.step engine) hinv hpays ⟨.start hstart, 0, hcounted⟩
    (fun _ _ => trivial) hrun
  rw [work_start hstart] at hpaid
  omega

/-- **A limited recording ends.** For both tools with a number of events to generate, any device and
any schedule: the threads take at most 18 steps for each event and 9 for each producer, with 33
steps more, and one step for each wake-up without a notification. In every state of the run the
process has exited or was terminated, or some thread can go on. -/
theorem limited_run_ends (htool : Generates tool events) (hevents : events ≠ 0)
    (hbound : events.toNat + tool.producers.toNat < 2 ^ 64)
    (hstart : tool.start engine device now = .ok s₀) {labels : List RecordingLabel}
    (hrun : Transition.run (tool.step engine) s₀ labels = some s) :
    Transition.total RecordingLabel.cost labels ≤
      18 * events.toNat + 9 * tool.producers.toNat + 33 +
        Transition.total RecordingLabel.credit labels ∧
    ((∃ code, s.mainAt = .exited code) ∨ s.terminated = true ∨ tool.CanStep engine s) :=
  ⟨limited_cost_le htool hevents hbound hstart hrun, ended_or_canStep (.of_run hstart hrun)⟩

/-- One event is recorded by one producer, and `main` returns after 44 steps. -/
theorem limited_run_ends_flush : ∃ opts s₀ s,
    RecordOptions.parse ["--producers", "1", "--events", "1", "--payload-size", "0"] = .ok opts ∧
    (hpblrRecord opts).start countingEngine .full 0 = .ok s₀ ∧
    Transition.run ((hpblrRecord opts).step countingEngine) s₀ failingFlush = some s ∧
    Transition.total RecordingLabel.cost failingFlush ≤ 60 := by
  obtain ⟨opts, s₀, s, hparse, hstart, ⟨hproducers, hzero, hone⟩, hrun, _⟩ :=
    exists_run ["--producers", "1", "--events", "1", "--payload-size", "0"]
      .full failingFlush (fun s => s.mainAt = .exited 1)
      (fun tool _ => tool.producers = 1 ∧ tool.past 0 = false ∧ tool.past 1 = true)
      (by decide +kernel)
  have hone : opts.events ≠ 0 ∧ opts.events ≤ 1 := of_decide_eq_true hone
  have hevents : opts.events = 1 := by
    have hle := UInt64.le_iff_toNat_le.mp hone.2
    have hne : opts.events.toNat ≠ 0 := fun hzero => hone.1 (UInt64.toNat_inj.mp hzero)
    apply UInt64.toNat_inj.mp
    simp only [UInt64.toNat_one] at hle ⊢
    omega
  have hends := (limited_run_ends (.record hparse) hone.1
    (by rw [hevents, hproducers]; decide) hstart hrun).1
  rw [hevents, hproducers] at hends
  exact ⟨opts, s₀, s, hparse, hstart, hrun, hends⟩

/-! ## After the stop signal -/

/-- The work of a recorder is bounded by its producers and the elements it stores. -/
private theorem recorder_work_le (r : AsyncRecorder ℕ) (k : ℕ) :
    r.work (Finset.range k) ≤ 15 * k + 22 + 6 * r.queue.queue.length := by
  have hclose (a : Activity Event) : a.closeWork k ≤ k + 4 := by
    unfold Activity.closeWork
    split <;> omega
  have hproducers : ∑ p ∈ Finset.range k, r.producerWork p ≤ k * 12 := by
    have hle : ∑ p ∈ Finset.range k, r.producerWork p ≤ ∑ p ∈ Finset.range k, 12 := by
      refine Finset.sum_le_sum fun p _ => ?_
      unfold AsyncRecorder.producerWork SubmitStage.work
      split <;> omega
    rwa [Finset.sum_const_nat (fun _ _ => rfl), Finset.card_range] at hle
  have hrun : r.runAt.work k (r.queue.activity .writer) ≤ k + 13 := by
    unfold RunStage.work
    split <;> first | omega | exact (Nat.succ_le_succ (hclose _)).trans (by omega)
  have hstop : r.stopAt.work k (r.queue.activity .stopper) ≤ k + 8 := by
    unfold StopStage.work
    split <;> first | omega | exact (Nat.add_le_add_right (hclose _) 3).trans (by omega)
  rw [AsyncRecorder.work, Finset.card_range, QueueState.work]
  omega

/-- The work of a process whose producers see the stop flag. -/
private theorem work_stopping_le (tool : RecordingTool) (s : RecordingState R) :
    tool.work stoppingPace s ≤
      38 * tool.producers.toNat + 44 + 6 * s.recorder.queue.queue.length := by
  have hstages : ∑ p ∈ Finset.range tool.producers.toNat,
      tool.stageWork stoppingPace (s.producerAt p) ≤ tool.producers.toNat * 20 := by
    have hle : ∑ p ∈ Finset.range tool.producers.toNat,
        tool.stageWork stoppingPace (s.producerAt p) ≤
          ∑ p ∈ Finset.range tool.producers.toNat, 20 := by
      refine Finset.sum_le_sum fun p _ => ?_
      cases s.producerAt p <;> simp only [stageWork, stoppingPace] <;>
        first | omega | (split <;> omega)
    rwa [Finset.sum_const_nat (fun _ _ => rfl), Finset.card_range] at hle
  have hmain : mainWork tool.producers.toNat s.mainAt ≤ 3 * tool.producers.toNat + 21 := by
    unfold mainWork
    split <;> omega
  have hrecorder := recorder_work_le s.recorder tool.producers.toNat
  have hrunning := Bool.toNat_le (!s.terminated)
  have hnone : stoppingPace.tickets s.nextSequence = 0 := rfl
  rw [work, hnone]
  omega

/-- The queue has the capacity that the options ask for. -/
private theorem capacity_eq {opts : RecordOptions} {args : List String}
    (hparse : RecordOptions.parse args = .ok opts)
    (hstart : (hpblrRecord opts).start engine device now = .ok s₀) {labels : List RecordingLabel}
    (hrun : Transition.run ((hpblrRecord opts).step engine) s₀ labels = some s) :
    s.recorder.queue.capacity = opts.queueCapacity.toNat := by
  obtain ⟨labels₁, hrecorder⟩ := recorder_run hrun
  obtain ⟨labels₂, hqueue⟩ := AsyncRecorder.queue_run hrecorder
  rw [QueueState.capacity_of_run hqueue]
  obtain ⟨recorder, hnew, rfl⟩ := start_eq hstart
  obtain ⟨writer, _, rfl⟩ := AsyncRecorder.new_eq hnew
  have hne : opts.queueCapacity.toNat ≠ 0 := fun hzero =>
    (RecordOptions.parse_valid hparse).queueCapacity (UInt64.toNat_inj.mp hzero)
  exact if_neg hne

/-- **A stopped recording ends.** From the moment on at which the stop flag is visible to every
producer of `hpblr_record`, whatever the number of events, the device and the schedule: the threads
take a number of steps that is bounded by the number of producers and the capacity of the queue, and
one step for each wake-up without a notification. In every state of the run the process has exited
or was terminated, or some thread can go on. -/
theorem stopped_run_ends {opts : RecordOptions} {args : List String}
    (hparse : RecordOptions.parse args = .ok opts)
    (hstart : (hpblrRecord opts).start engine device now = .ok s₀) {before : List RecordingLabel}
    (hbefore : Transition.run ((hpblrRecord opts).step engine) s₀ before = some s)
    (hvisible : ∀ p < opts.producers.toNat, s.stopRequested p = true)
    {labels : List RecordingLabel}
    (hrun : Transition.run ((hpblrRecord opts).step engine) s labels = some s') :
    Transition.total RecordingLabel.cost labels ≤
      38 * opts.producers.toNat + 6 * opts.queueCapacity.toNat + 44 +
        Transition.total RecordingLabel.credit labels ∧
    ((∃ code, s'.mainAt = .exited code) ∨ s'.terminated = true ∨
      (hpblrRecord opts).CanStep engine s') := by
  have hlife := Lifecycle.of_run hstart hbefore
  let I (s : RecordingState R) : Prop := Lifecycle (hpblrRecord opts) s now ∧
    ∀ p < opts.producers.toNat, s.stopRequested p = true
  have hinv {s s' : RecordingState R} {l : RecordingLabel} (hs : I s)
      (hstep : (hpblrRecord opts).step engine s l = some s') : I s' :=
    ⟨hs.1.step hstep, fun p hp => stopRequested_step (step_move hstep).2 (hs.2 p hp)⟩
  refine ⟨?_, ended_or_canStep (Transition.run_invariant (I := I) hinv ⟨hlife, hvisible⟩ hrun).1⟩
  have hpays {s s' : RecordingState R} {l : RecordingLabel} (hs : I s) (_ : True)
      (hstep : (hpblrRecord opts).step engine s l = some s') :
      l.cost + (hpblrRecord opts).work stoppingPace s' ≤
        (hpblrRecord opts).work stoppingPace s + l.credit :=
    work_step hs.1 (keeps_stopping rfl hs.2) hstep
  have hpaid := Transition.total_add_rank_le ((hpblrRecord opts).step engine)
    (fun hs _ hstep => hinv hs hstep) hpays ⟨hlife, hvisible⟩ (fun _ _ => trivial) hrun
  have hwork := work_stopping_le (hpblrRecord opts) s
  have hlength := hlife.recording.queue.channel.bounded
  rw [capacity_eq hparse hstart hbefore] at hlength
  have hproducers : (hpblrRecord opts).producers = opts.producers := rfl
  rw [hproducers] at hwork
  omega

/-- The producer ends at its next test of the stop flag, and `main` returns. -/
def stoppedRun : List RecordingLabel :=
  .producer 0 0 none :: List.replicate 8 (.main none) ++ List.replicate 4 (.writer none) ++
  List.replicate 8 (.main none)

/-- A stop signal before the first event. -/
theorem stopped_run_ends_first : ∃ s₀ s s',
    RecordOptions.parse ["--producers", "1"] = .ok { producers := 1 } ∧
    (hpblrRecord { producers := 1 }).start countingEngine .reliable 0 = .ok s₀ ∧
    Transition.run ((hpblrRecord { producers := 1 }).step countingEngine) s₀
      [.main none, .signal 0] = some s ∧
    Transition.run ((hpblrRecord { producers := 1 }).step countingEngine) s stoppedRun = some s' ∧
    s'.mainAt = .exited 0 ∧ Transition.total RecordingLabel.cost stoppedRun ≤ 49234 := by
  obtain ⟨opts, s₀, s, hparse, hstart, _, hbefore, hvisible, s', hrun, hexited⟩ :=
    exists_run ["--producers", "1"] .reliable [.main none, .signal 0]
      (fun s => s.stopRequested 0 = true ∧
        ∃ s', Transition.run ((hpblrRecord { producers := 1 }).step countingEngine) s
          stoppedRun = some s' ∧ s'.mainAt = .exited 0)
      (fun _ _ => True) (by decide +kernel)
  have hopts : RecordOptions.parse ["--producers", "1"] = .ok { producers := 1 } := by decide
  cases hparse.symm.trans hopts
  refine ⟨s₀, s, s', hopts, hstart, hbefore, hrun, hexited, ?_⟩
  refine (stopped_run_ends hopts hstart hbefore (fun p hp => ?_) hrun).1
  have hzero : p = 0 := Nat.lt_one_iff.mp hp
  exact hzero ▸ hvisible

end RecordingTool

end Hpblr
