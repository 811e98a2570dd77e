import Mathlib.Data.Finset.Card
import Hpblr.Apps.Boundary
import Hpblr.Lib.Tickets
import Hpblr.Recorder.NoLoss

/-!
# The sequence numbers in the file

The producers are workers that draw numbers from `next_sequence`. A producer holds the number it
has drawn until the queue accepts the event with this number, or until the test that ends the loop
drops it. No event is refused before `stop`, which comes after the last producer, so the numbers in
the file have no gap and no duplicate.
-/

namespace Hpblr

variable {R : Type*}

/-- `main` has returned from `stop`. -/
def MainStage.HasStopped : MainStage → Prop
  | .reporting | .leaving _ | .exited _ => True
  | _ => False

instance (stage : MainStage) : Decidable stage.HasStopped := by
  cases stage <;> unfold MainStage.HasStopped <;> infer_instance

/-! ## The producers as workers -/

/-- The number that a producer at this stage holds, given its event that waits for the queue. -/
def ProducerStage.hand : ProducerStage → Option Event → Option ℕ
  | .limiting sequence, _ | .generating sequence, _ => some sequence.toNat
  | .submitting, waiting => waiting.map (fun event => event.sequence.toNat)
  | .unborn, _ | .testing, _ | .drawing, _ | .counting, _ | .ended, _ => none

namespace RecordingState

/-- The number that a producer holds. -/
def hand (s : RecordingState R) (p : ℕ) : Option ℕ :=
  (s.producerAt p).hand (s.recorder.waitingAt p)

/-- The numbers that a step draws from `next_sequence`. -/
def draws (s : RecordingState R) : RecordingLabel → List UInt64
  | .producer p _ _ => if s.producerAt p = .drawing then [s.nextSequence] else []
  | _ => []

/-- The producers at work, after so many numbers have been drawn: what each holds, and the producer
ids and the numbers of the events that the queue has accepted. -/
def desk (s : RecordingState R) (drawn : ℕ) : Tickets.Desk ℕ where
  drawn := drawn
  hand := s.hand
  filed := s.recorder.queue.accepted.map (fun x => (x.2.producerId.toNat, x.2.sequence.toNat))

end RecordingState

namespace RecordingTool

/-- The test that ends the loop, at a number below `2 ^ 64`. -/
def Past (tool : RecordingTool) (i : ℕ) : Prop := tool.past (UInt64.ofNat i) = true

/-- A producer at this stage draws no further number. -/
def finished (tool : RecordingTool) : ProducerStage → Bool
  | .limiting sequence => tool.past sequence
  | .ended => true
  | .unborn | .testing | .drawing | .generating _ | .submitting | .counting => false

/-- The numbers drawn along a run, in their order. -/
def drawn (tool : RecordingTool) (engine : RandomEngine R) (s₀ : RecordingState R)
    (labels : List RecordingLabel) : List UInt64 :=
  Transition.observe (tool.step engine) (fun s l _ => s.draws l) s₀ labels

variable {tool : RecordingTool} {engine : RandomEngine R} {s s' s₀ : RecordingState R}
  {l : RecordingLabel} {device : Device} {now now' : UInt64} {p : ℕ}
  {n : Option (RecorderThread ℕ)} {drawn : ℕ}

/-! ## What the other threads leave to a producer -/

theorem waitingAt_of_other (h : RecordingMove tool engine s l s')
    (hl : ∀ now n, l ≠ .producer p now n) :
    s'.recorder.waitingAt p = s.recorder.waitingAt p := by
  rcases recorder_of_other h hl with hsame | ⟨l', hstep, hl'⟩
  · rw [hsame]
  · exact AsyncRecorder.waitingAt_of_other (AsyncRecorder.step_move hstep) hl'

theorem hand_of_other (hlife : Lifecycle tool s now) (h : RecordingMove tool engine s l s')
    (hl : ∀ now n, l ≠ .producer p now n) : s'.hand p = s.hand p := by
  rw [RecordingState.hand, RecordingState.hand, waitingAt_of_other h hl]
  rcases producerAt_of_other h hl with hsame | ⟨hspawning, hstarted⟩
  · rw [hsame]
  · -- Before its start a producer holds nothing.
    rw [hstarted, unborn_of_spawning hlife hspawning]
    rfl

theorem accepted_of_other (hlife : Lifecycle tool s now) (h : RecordingMove tool engine s l s')
    (hl : ∀ p now n, l ≠ .producer p now n) :
    s'.recorder.queue.accepted = s.recorder.queue.accepted := by
  rcases recorder_step h with hsame | ⟨l', hstep, hown⟩
  · rw [hsame]
  · rcases AsyncRecorder.accepted_cases hlife.recording.stages (AsyncRecorder.step_move hstep) with
      hsame | ⟨p, event, n, hl', _⟩
    · exact hsame
    · obtain ⟨now', n', heq⟩ := hown p (Or.inr ⟨n, hl'⟩)
      exact absurd heq (hl p now' n')

/-- A step of a producer changes what this producer holds, and nothing that another one holds. -/
theorem hand_of_producer (hlife : Lifecycle tool s now)
    (h : RecordingMove tool engine s (.producer p now' n) s') :
    s'.hand = Function.update s.hand p (s'.hand p) := by
  funext p'
  by_cases heq : p' = p
  · subst heq
    rw [Function.update_self]
  · rw [Function.update_of_ne heq]
    refine hand_of_other hlife h fun now n hsame => heq ?_
    cases hsame
    rfl

@[simp] theorem hand_producerTo (stage : ProducerStage) :
    (s.producerTo p stage).hand p = stage.hand (s.recorder.waitingAt p) := by
  simp [RecordingState.hand, RecordingState.producerTo]

/-! ## How many numbers are drawn -/

/-- A step draws no number, or a producer draws the next one. -/
theorem draws_cases (h : RecordingMove tool engine s l s') :
    (s.draws l = [] ∧ s'.nextSequence = s.nextSequence) ∨
    ∃ p now n, l = .producer p now n ∧ s.producerAt p = .drawing ∧ s.draws l = [s.nextSequence] ∧
      s' = { s.producerTo p (.limiting s.nextSequence) with nextSequence := s.nextSequence + 1 } := by
  cases h with
  | draws hat => exact Or.inr ⟨_, _, _, rfl, hat, by simp [RecordingState.draws, hat], rfl⟩
  | seesStop hat => exact Or.inl ⟨by simp [RecordingState.draws, hat], rfl⟩
  | goesOn hat => exact Or.inl ⟨by simp [RecordingState.draws, hat], rfl⟩
  | isPast hat => exact Or.inl ⟨by simp [RecordingState.draws, hat], rfl⟩
  | isWithin hat => exact Or.inl ⟨by simp [RecordingState.draws, hat], rfl⟩
  | generateThrows hat => exact Or.inl ⟨by simp [RecordingState.draws, hat], rfl⟩
  | generates hat => exact Or.inl ⟨by simp [RecordingState.draws, hat], rfl⟩
  | submitRuns hat => exact Or.inl ⟨by simp [RecordingState.draws, hat], rfl⟩
  | isAccepted hat => exact Or.inl ⟨by simp [RecordingState.draws, hat], rfl⟩
  | isRefused hat => exact Or.inl ⟨by simp [RecordingState.draws, hat], rfl⟩
  | submitThrows hat => exact Or.inl ⟨by simp [RecordingState.draws, hat], rfl⟩
  | counts hat => exact Or.inl ⟨by simp [RecordingState.draws, hat], rfl⟩
  | _ => exact Or.inl ⟨rfl, rfl⟩

/-- A producer that draws no further number goes on drawing none. -/
theorem finished_step (hlife : Lifecycle tool s now) (h : RecordingMove tool engine s l s')
    (hfinished : tool.finished (s.producerAt p) = true) :
    tool.finished (s'.producerAt p) = true := by
  by_cases hl : ∃ now n, l = .producer p now n
  · obtain ⟨now', n, rfl⟩ := hl
    cases h with
    | isPast => simp [RecordingState.producerTo, finished]
    | isWithin hat hpast => simp [hat, finished, hpast] at hfinished
    | generateThrows => exact hfinished
    | submitThrows => exact hfinished
    | submitRuns => exact hfinished
    | seesStop hat => simp [hat, finished] at hfinished
    | goesOn hat => simp [hat, finished] at hfinished
    | draws hat => simp [hat, finished] at hfinished
    | generates hat => simp [hat, finished] at hfinished
    | isAccepted hat => simp [hat, finished] at hfinished
    | isRefused hat => simp [hat, finished] at hfinished
    | counts hat => simp [hat, finished] at hfinished
  · rcases producerAt_of_other h fun now n heq => hl ⟨now, n, heq⟩ with hsame | ⟨hspawning, _⟩
    · rwa [hsame]
    · rw [unborn_of_spawning hlife hspawning] at hfinished
      cases hfinished

/-- The producers that draw no further number. -/
def finishedProducers (tool : RecordingTool) (s : RecordingState R) : Finset ℕ :=
  (Finset.range tool.producers.toNat).filter (fun p => tool.finished (s.producerAt p) = true)

theorem mem_finishedProducers : p ∈ tool.finishedProducers s ↔
    p < tool.producers.toNat ∧ tool.finished (s.producerAt p) = true := by
  rw [finishedProducers, Finset.mem_filter, Finset.mem_range]

theorem card_finishedProducers (tool : RecordingTool) (s : RecordingState R) :
    (tool.finishedProducers s).card ≤ tool.producers.toNat := by
  refine (Finset.card_filter_le _ _).trans_eq ?_
  exact Finset.card_range _

/-- The counter counts the drawn numbers, and every number past a limit ends a producer. -/
structure Counted (tool : RecordingTool) (events : UInt64) (s : RecordingState R) (drawn : ℕ) :
    Prop where
  next : s.nextSequence = UInt64.ofNat drawn
  few : events ≠ 0 → drawn ≤ events.toNat + (tool.finishedProducers s).card

/-- With a limit, the counter does not wrap around. -/
theorem Counted.lt_size {events : UInt64} (hcounted : tool.Counted events s drawn)
    (hevents : events ≠ 0) (hbound : events.toNat + tool.producers.toNat < 2 ^ 64) :
    drawn < 2 ^ 64 := by
  have hfew := hcounted.few hevents
  have hcard := tool.card_finishedProducers s
  omega

/-- Every step keeps the count. -/
theorem Counted.step {events : UInt64} (hcounted : tool.Counted events s drawn)
    (hlife : Lifecycle tool s now) (hbound : events.toNat + tool.producers.toNat < 2 ^ 64)
    (hpast : ∀ sequence, events ≠ 0 → events ≤ sequence → tool.past sequence = true)
    (h : RecordingMove tool engine s l s') :
    tool.Counted events s' (drawn + (s.draws l).length) := by
  have hsubset : tool.finishedProducers s ⊆ tool.finishedProducers s' := by
    intro p hp
    obtain ⟨hlt, hfinished⟩ := mem_finishedProducers.mp hp
    exact mem_finishedProducers.mpr ⟨hlt, finished_step hlife h hfinished⟩
  rcases draws_cases h with ⟨hnone, hnext⟩ | ⟨p, now', n, rfl, hat, hdraws, rfl⟩
  · rw [hnone]
    exact ⟨hnext.trans hcounted.next, fun hevents =>
      (hcounted.few hevents).trans (Nat.add_le_add_left (Finset.card_le_card hsubset) _)⟩
  · rw [hdraws, List.length_singleton]
    refine ⟨by simp [hcounted.next, UInt64.ofNat_add], fun hevents => ?_⟩
    have hdrawn := hcounted.lt_size hevents hbound
    have hfew := hcounted.few hevents
    by_cases hlimit : events.toNat ≤ drawn
    · -- The number is past the limit, and the producer was not finished before.
      have hp := (hlife.of_producer (p := p) (by simp [hat]) (by simp [hat])).1
      have hnot : p ∉ tool.finishedProducers s := by
        simp [mem_finishedProducers, hat, finished]
      have hnumber : tool.past s.nextSequence = true := by
        refine hpast _ hevents ?_
        rwa [UInt64.le_iff_toNat_le, hcounted.next, UInt64.toNat_ofNat_of_lt' hdrawn]
      have hmem : p ∈ tool.finishedProducers { s.producerTo p (.limiting s.nextSequence) with
          nextSequence := s.nextSequence + 1 } := by
        simp [mem_finishedProducers, RecordingState.producerTo, finished, hp, hnumber]
      have hcard := Finset.card_le_card (Finset.insert_subset hmem hsubset)
      rw [Finset.card_insert_of_notMem hnot] at hcard
      omega
    · omega

/-! ## What a producer does with a number -/

/-- A step of a producer before `stop`, while the writer has not failed: what it holds stays, or it
draws a number, drops one past the limit, or has its event accepted. -/
theorem hand_cases (hlife : Lifecycle tool s now) (haccepting : s.recorder.Accepting)
    (hfailure : s.recorder.failure = none)
    (h : RecordingMove tool engine s (.producer p now' n) s') :
    (s.draws (.producer p now' n) = [] ∧ s'.hand p = s.hand p ∧
      s'.recorder.queue.accepted = s.recorder.queue.accepted) ∨
    (s.draws (.producer p now' n) = [s.nextSequence] ∧ s.hand p = none ∧
      s'.hand p = some s.nextSequence.toNat ∧
      s'.recorder.queue.accepted = s.recorder.queue.accepted) ∨
    (s.draws (.producer p now' n) = [] ∧ s'.hand p = none ∧
      s'.recorder.queue.accepted = s.recorder.queue.accepted ∧
      ∃ sequence, s.hand p = some sequence.toNat ∧ tool.past sequence = true) ∨
    (s.draws (.producer p now' n) = [] ∧ s'.hand p = none ∧
      ∃ event, s.hand p = some event.sequence.toNat ∧ s.recorder.waitingAt p = some event ∧
        s'.recorder.queue.accepted =
          s.recorder.queue.accepted ++ [(.producer p, event)]) := by
  -- Outside `submit`, a producer holds what its stage says.
  have hkeeps {stage : ProducerStage} (stage' : ProducerStage) (hat : s.producerAt p = stage)
      (hnot : stage ≠ .drawing) (hsame : stage'.hand (s.recorder.waitingAt p) =
        stage.hand (s.recorder.waitingAt p)) :
      s.draws (.producer p now' n) = [] ∧ (s.producerTo p stage').hand p = s.hand p := by
    refine ⟨by simp [RecordingState.draws, hat, hnot], ?_⟩
    rw [hand_producerTo, hsame, RecordingState.hand, hat]
  cases h with
  | seesStop hat =>
    obtain ⟨hdraws, hhand⟩ := hkeeps .ended hat (by simp) rfl
    exact Or.inl ⟨hdraws, hhand, rfl⟩
  | goesOn hat =>
    obtain ⟨hdraws, hhand⟩ := hkeeps .drawing hat (by simp) rfl
    exact Or.inl ⟨hdraws, hhand, rfl⟩
  | draws hat =>
    refine Or.inr (Or.inl ⟨by simp [RecordingState.draws, hat], ?_, ?_, rfl⟩)
    · simp [RecordingState.hand, hat, ProducerStage.hand]
    · simp [RecordingState.hand, RecordingState.producerTo, ProducerStage.hand]
  | isPast hat hpast =>
    refine Or.inr (Or.inr (Or.inl ⟨by simp [RecordingState.draws, hat], ?_, rfl, _, ?_, hpast⟩))
    · rw [hand_producerTo]
      rfl
    · rw [RecordingState.hand, hat]
      rfl
  | isWithin hat =>
    obtain ⟨hdraws, hhand⟩ := hkeeps (.generating _) hat (by simp) rfl
    exact Or.inl ⟨hdraws, hhand, rfl⟩
  | generateThrows hat => exact Or.inl ⟨by simp [RecordingState.draws, hat], rfl, rfl⟩
  | @generates _ _ _ _ event _ recorder hat hnext hstep =>
    have hmove := AsyncRecorder.step_move hstep
    refine Or.inl ⟨by simp [RecordingState.draws, hat], ?_, ?_⟩
    · have hwaiting := AsyncRecorder.waitingAt_of_call hmove
      have hsequence := (EventGenerator.next_ok engine hnext).2.1
      simp [RecordingState.hand, RecordingState.producerTo, ProducerStage.hand, hat, hwaiting,
        hsequence]
    · rcases AsyncRecorder.accepted_cases hlife.recording.stages hmove with
        hsame | ⟨_, _, _, hl, _⟩
      · exact hsame
      · cases hl
  | @submitRuns _ _ _ recorder hat hstep =>
    have hdraws : s.draws (.producer p now' n) = [] := by simp [RecordingState.draws, hat]
    have hhand {recorder : AsyncRecorder ℕ} : RecordingState.hand { s with recorder := recorder } p =
        (recorder.waitingAt p).map (fun event => event.sequence.toNat) := by
      rw [RecordingState.hand, hat]
      rfl
    have hbefore : s.hand p = (s.recorder.waitingAt p).map (fun event => event.sequence.toNat) :=
      hhand
    rw [hhand, hbefore]
    rcases AsyncRecorder.waitingAt_of_run hlife.recording.stages (AsyncRecorder.step_move hstep)
      with ⟨hsame, haccepted⟩ | ⟨event, hwaiting, hnone, haccepted | ⟨_, hlost⟩⟩
    · exact Or.inl ⟨hdraws, by rw [hsame], haccepted⟩
    · rw [hwaiting, hnone]
      exact Or.inr (Or.inr (Or.inr ⟨hdraws, rfl, event, rfl, rfl, haccepted⟩))
    · rcases hlost with herror | hrejecting
      · exact absurd (hlife.recording.writing.running hfailure).writerError herror
      · exact absurd hrejecting (haccepting.rejecting p event)
  | isAccepted hat hresult =>
    have hnone : s.recorder.waitingAt p = none :=
      AsyncRecorder.waitingAt_eq_none (by rw [hresult]; exact id)
    have hstage : ProducerStage.hand (if tool.countsGenerated then .counting else .testing)
        (s.recorder.waitingAt p) = ProducerStage.submitting.hand (s.recorder.waitingAt p) := by
      rw [hnone]
      split <;> rfl
    obtain ⟨hdraws, hhand⟩ := hkeeps _ hat (by simp) hstage
    exact Or.inl ⟨hdraws, hhand, rfl⟩
  | isRefused _ hresult => exact absurd hresult (haccepting.returned p)
  | submitThrows hat => exact Or.inl ⟨by simp [RecordingState.draws, hat], rfl, rfl⟩
  | counts hat =>
    obtain ⟨hdraws, hhand⟩ := hkeeps .testing hat (by simp) rfl
    exact Or.inl ⟨hdraws, hhand, rfl⟩

/-! ## Where the numbers are -/

/-- An event of a producer, with a number within the limit. -/
structure Carries (tool : RecordingTool) (p : ℕ) (event : Event) : Prop where
  producerId : event.producerId = UInt32.ofNat p
  severity : event.severity.IsEnumerator
  within : tool.past event.sequence = false

/-- Where the drawn numbers are, as long as the writer has not failed. -/
structure Numbering (tool : RecordingTool) (s : RecordingState R) (drawn : ℕ) : Prop where
  within : ∀ p sequence, s.producerAt p = .generating sequence → tool.past sequence = false
  waiting : ∀ p event, s.recorder.waitingAt p = some event → tool.Carries p event
  severity : ∀ x ∈ s.recorder.queue.accepted, x.2.severity.IsEnumerator
  /-- The producers work as workers that draw, file and drop numbers. -/
  moves : Relation.ReflTransGen (Tickets.Move tool.Past) .empty (s.desk drawn)
  ended : ∀ p, s.producerAt p = .ended →
    (tool.stopsOnSignal = true ∧ s.stopRequested p = true) ∨ ∃ i < drawn, tool.Past i

private theorem within_step (hnumbering : tool.Numbering s drawn)
    (h : RecordingMove tool engine s l s') (p : ℕ) (sequence : UInt64)
    (hat : s'.producerAt p = .generating sequence) : tool.past sequence = false := by
  by_cases hl : ∃ now n, l = .producer p now n
  · obtain ⟨now', n, rfl⟩ := hl
    cases h with
    | isWithin _ hpast =>
      rw [RecordingState.producerAt_producerTo] at hat
      cases hat
      exact hpast
    | generateThrows => exact hnumbering.within p sequence hat
    | submitRuns => exact hnumbering.within p sequence hat
    | submitThrows => exact hnumbering.within p sequence hat
    | isAccepted =>
      rw [RecordingState.producerAt_producerTo] at hat
      split at hat <;> cases hat
    | _ => simp at hat
  · rcases producerAt_of_other h fun now n heq => hl ⟨now, n, heq⟩ with hsame | ⟨_, hstarted⟩
    · exact hnumbering.within p sequence (hsame ▸ hat)
    · rw [hstarted] at hat
      cases hat

private theorem waiting_step (hlife : Lifecycle tool s now) (hnumbering : tool.Numbering s drawn)
    (h : RecordingMove tool engine s l s') (p : ℕ) (event : Event)
    (hwaiting : s'.recorder.waitingAt p = some event) : tool.Carries p event := by
  by_cases hl : ∃ now n, l = .producer p now n
  · obtain ⟨now', n, rfl⟩ := hl
    cases h with
    | generates hat hnext hstep =>
      obtain ⟨_, hsequence, hproducer, hseverity⟩ := EventGenerator.next_ok engine hnext
      have hcalled := AsyncRecorder.waitingAt_of_call (AsyncRecorder.step_move hstep)
      rw [← Option.some.inj (hcalled.symm.trans hwaiting)]
      refine ⟨?_, hseverity, ?_⟩
      · rw [hproducer, hlife.config p]
        rfl
      · rw [hsequence]
        exact hnumbering.within p _ hat
    | submitRuns _ hstep =>
      rcases AsyncRecorder.waitingAt_of_run hlife.recording.stages (AsyncRecorder.step_move hstep)
        with ⟨hsame, _⟩ | ⟨_, _, hnone, _⟩
      · exact hnumbering.waiting p event (hsame.symm.trans hwaiting)
      · exact absurd (hnone.symm.trans hwaiting) (by simp)
    | _ => exact hnumbering.waiting p event hwaiting
  · rw [waitingAt_of_other h fun now n heq => hl ⟨now, n, heq⟩] at hwaiting
    exact hnumbering.waiting p event hwaiting

private theorem ended_step (hnumbering : tool.Numbering s drawn)
    (haccepting : s.recorder.stopAt = .outside → s.recorder.Accepting) (hlife : Lifecycle tool s now)
    {drawn' : ℕ} (hdrawn : drawn ≤ drawn') (h : RecordingMove tool engine s l s') (p : ℕ)
    (hat : s'.producerAt p = .ended) :
    (tool.stopsOnSignal = true ∧ s'.stopRequested p = true) ∨ ∃ i < drawn', tool.Past i := by
  have hbefore (hat : s.producerAt p = .ended) :
      (tool.stopsOnSignal = true ∧ s.stopRequested p = true) ∨ ∃ i < drawn', tool.Past i := by
    refine (hnumbering.ended p hat).imp_right ?_
    rintro ⟨i, hi, hpast⟩
    exact ⟨i, hi.trans_le hdrawn, hpast⟩
  by_cases hl : ∃ now n, l = .producer p now n
  · obtain ⟨now', n, rfl⟩ := hl
    cases h with
    | seesStop _ hsignal hstop => exact Or.inl ⟨hsignal, hstop⟩
    | @isPast _ sequence _ _ hat' hpast =>
      have hheld : (s.desk drawn).hand p = some sequence.toNat := by
        simp [RecordingState.desk, RecordingState.hand, hat', ProducerStage.hand]
      have hlt := (Tickets.Accounted.of_moves hnumbering.moves).held_lt p _ hheld
      refine Or.inr ⟨sequence.toNat, hlt.trans_le hdrawn, ?_⟩
      rwa [Past, UInt64.ofNat_toNat]
    | isRefused hat' hresult =>
      have houtside := (hlife.of_producer (p := p) (by simp [hat']) (by simp [hat'])).2
      exact absurd hresult ((haccepting houtside).returned p)
    | generateThrows => exact hbefore hat
    | submitRuns => exact hbefore hat
    | submitThrows => exact hbefore hat
    | isAccepted =>
      rw [RecordingState.producerAt_producerTo] at hat
      split at hat <;> cases hat
    | _ => simp at hat
  · have hsame : s.producerAt p = .ended := by
      rcases producerAt_of_other h fun now n heq => hl ⟨now, n, heq⟩ with hsame | ⟨_, hstarted⟩
      · exact hsame ▸ hat
      · rw [hstarted] at hat
        cases hat
    refine (hbefore hsame).imp_left (And.imp_right fun hstop => ?_)
    cases h with
    | @signals p' =>
      by_cases heq : p = p'
      · rw [heq]
        exact Function.update_self ..
      · exact (Function.update_of_ne heq _ _).trans hstop
    | _ => exact hstop

/-- A step of a producer comes before `stop`. -/
theorem outside_of_producer (hlife : Lifecycle tool s now)
    (h : RecordingMove tool engine s (.producer p now' n) s') :
    p < tool.producers.toNat ∧ s.recorder.stopAt = .outside := by
  refine hlife.of_producer (fun hat => ?_) (fun hat => ?_)
  · cases h <;> simp_all
  · cases h <;> simp_all

/-- Every step of the process is a move of the workers or none. -/
private theorem moves_step (hnumbering : tool.Numbering s drawn) (hlife : Lifecycle tool s now)
    (haccepting : s.recorder.stopAt = .outside → s.recorder.Accepting)
    (hfailure : s.recorder.failure = none) (hproducers : tool.producers.toNat ≤ 2 ^ 32)
    (hnext : s.nextSequence = UInt64.ofNat drawn) (hdrawn : drawn < 2 ^ 64)
    (h : RecordingMove tool engine s l s') :
    Relation.ReflTransGen (Tickets.Move tool.Past) .empty
      (s'.desk (drawn + (s.draws l).length)) := by
  by_cases hl : ∃ p now n, l = .producer p now n
  · obtain ⟨p, now', n, rfl⟩ := hl
    obtain ⟨hp, houtside⟩ := outside_of_producer hlife h
    have hdesk (drawn : ℕ) : s'.desk drawn = {
        drawn := drawn
        hand := Function.update s.hand p (s'.hand p)
        filed := s'.recorder.queue.accepted.map
          (fun x => (x.2.producerId.toNat, x.2.sequence.toNat)) } :=
      Tickets.Desk.ext rfl (hand_of_producer hlife h) rfl
    rw [hdesk]
    rcases hand_cases hlife (haccepting houtside) hfailure h with ⟨hdraws, hhand, haccepted⟩ |
      ⟨hdraws, hfree, hhand, haccepted⟩ | ⟨hdraws, hhand, haccepted, sequence, hheld, hpast⟩ |
      ⟨hdraws, hhand, event, hheld, hwaiting, haccepted⟩
    · rw [hdraws, hhand, haccepted, Function.update_eq_self]
      exact hnumbering.moves
    · rw [hdraws, hhand, haccepted, hnext, UInt64.toNat_ofNat_of_lt' hdrawn]
      exact hnumbering.moves.tail (.draws hfree)
    · rw [hdraws, hhand, haccepted]
      refine hnumbering.moves.tail (.drops hheld ?_)
      rwa [Past, UInt64.ofNat_toNat]
    · have hcarries := hnumbering.waiting p event hwaiting
      have hid : event.producerId.toNat = p := by
        rw [hcarries.producerId]
        exact UInt32.toNat_ofNat_of_lt' (hp.trans_le hproducers)
      rw [hdraws, hhand, haccepted, List.map_append, List.map_singleton, hid]
      refine hnumbering.moves.tail (.files hheld ?_)
      rw [Past, UInt64.ofNat_toNat, hcarries.within]
      simp
  · have hl' : ∀ p now n, l ≠ .producer p now n := fun p now n heq => hl ⟨p, now, n, heq⟩
    have hdraws : s.draws l = [] := by
      rcases draws_cases h with ⟨hnone, _⟩ | ⟨p, now', n, heq, _⟩
      · exact hnone
      · exact absurd heq (hl' p now' n)
    have hdesk : s'.desk drawn = s.desk drawn := by
      refine Tickets.Desk.ext rfl (funext fun p => hand_of_other hlife h (hl' p)) ?_
      simp only [RecordingState.desk]
      rw [accepted_of_other hlife h hl']
    rw [hdraws, List.length_nil, Nat.add_zero, hdesk]
    exact hnumbering.moves

private theorem severity_step (hnumbering : tool.Numbering s drawn) (hlife : Lifecycle tool s now)
    (haccepting : s.recorder.stopAt = .outside → s.recorder.Accepting)
    (hfailure : s.recorder.failure = none) (h : RecordingMove tool engine s l s') :
    ∀ x ∈ s'.recorder.queue.accepted, x.2.severity.IsEnumerator := by
  by_cases hl : ∃ p now n, l = .producer p now n
  · obtain ⟨p, now', n, rfl⟩ := hl
    have houtside := (outside_of_producer hlife h).2
    rcases hand_cases hlife (haccepting houtside) hfailure h with ⟨_, _, hsame⟩ |
      ⟨_, _, _, hsame⟩ | ⟨_, _, hsame, _⟩ | ⟨_, _, event, _, hwaiting, hnew⟩
    · exact hsame ▸ hnumbering.severity
    · exact hsame ▸ hnumbering.severity
    · exact hsame ▸ hnumbering.severity
    · intro x hx
      rw [hnew] at hx
      rcases List.mem_append.mp hx with hold | hlast
      · exact hnumbering.severity x hold
      · rw [List.mem_singleton.mp hlast]
        exact (hnumbering.waiting p event hwaiting).severity
  · rw [accepted_of_other hlife h fun p now n heq => hl ⟨p, now, n, heq⟩]
    exact hnumbering.severity

/-- Every step keeps track of the numbers, while the writer has not failed. -/
theorem Numbering.step (hnumbering : tool.Numbering s drawn) (hlife : Lifecycle tool s now)
    (haccepting : s.recorder.stopAt = .outside → s.recorder.Accepting)
    (hfailure : s.recorder.failure = none) (hproducers : tool.producers.toNat ≤ 2 ^ 32)
    (hnext : s.nextSequence = UInt64.ofNat drawn) (hdrawn : drawn < 2 ^ 64)
    (h : RecordingMove tool engine s l s') :
    tool.Numbering s' (drawn + (s.draws l).length) where
  within := within_step hnumbering h
  waiting := waiting_step hlife hnumbering h
  severity := severity_step hnumbering hlife haccepting hfailure h
  moves := moves_step hnumbering hlife haccepting hfailure hproducers hnext hdrawn h
  ended := ended_step hnumbering haccepting hlife (Nat.le_add_right _ _) h

/-! ## Runs -/

/-- A tool as its command line makes it, and the number of events it is to generate: `0` means until
the stop signal, which only `hpblr_record` knows. -/
inductive Generates : RecordingTool → UInt64 → Prop
  | record {args : List String} {opts : RecordOptions} (h : RecordOptions.parse args = .ok opts) :
      Generates (hpblrRecord opts) opts.events
  | bench {args : List String} {opts : BenchOptions} (h : BenchOptions.parse args = .ok opts)
      (fileSize : Except Exception UInt64) (reportOpens : Bool) :
      Generates (hpblrBench opts fileSize reportOpens) opts.events

variable {events : UInt64}

theorem Generates.past_iff (h : Generates tool events) (sequence : UInt64) :
    tool.past sequence = true ↔ events ≠ 0 ∧ events ≤ sequence := by
  cases h with
  | record h => simp [hpblrRecord]
  | bench h => simp [hpblrBench, (BenchOptions.parse_valid h).events]

theorem Generates.producers_pos (h : Generates tool events) : 0 < tool.producers.toNat := by
  have hproducers : tool.producers ≠ 0 := by
    cases h with
    | record h => exact (RecordOptions.parse_valid h).producers
    | bench h => exact (BenchOptions.parse_valid h).producers
  rw [Nat.pos_iff_ne_zero]
  exact fun hzero => hproducers (UInt64.toNat_inj.mp hzero)

/-- What is known of a state that is reached with so many drawn numbers. -/
structure Tracked (tool : RecordingTool) (events : UInt64) (s : RecordingState R) (now : UInt64)
    (drawn : ℕ) : Prop where
  life : Lifecycle tool s now
  accepting : s.recorder.stopAt = .outside → s.recorder.failure = none → s.recorder.Accepting
  counted : tool.Counted events s drawn
  numbering : s.recorder.failure = none → (events = 0 → drawn < 2 ^ 64) → tool.Numbering s drawn

theorem Tracked.step (htracked : tool.Tracked events s now drawn) (htool : Generates tool events)
    (hproducers : tool.producers.toNat ≤ 2 ^ 32)
    (hbound : events.toNat + tool.producers.toNat < 2 ^ 64)
    (h : tool.step engine s l = some s') :
    tool.Tracked events s' now (drawn + (s.draws l).length) := by
  have hlife := htracked.life
  obtain ⟨_, hmove⟩ := step_move h
  have hpast (sequence : UInt64) (hevents : events ≠ 0) (hle : events ≤ sequence) :
      tool.past sequence = true := (htool.past_iff sequence).mpr ⟨hevents, hle⟩
  have hnone (hnone' : s'.recorder.failure = none) : s.recorder.failure = none := by
    rcases recorder_step hmove with hsame | ⟨l', hstep, _⟩
    · rwa [← hsame]
    · exact AsyncRecorder.failure_of_step (AsyncRecorder.step_move hstep) hnone'
  refine ⟨hlife.step h, ?_, htracked.counted.step hlife hbound hpast hmove,
    fun hnone' hdrawn => ?_⟩
  · rcases recorder_step hmove with hsame | ⟨l', hstep, _⟩
    · rw [hsame]
      exact htracked.accepting
    · exact AsyncRecorder.accepting_step hlife.recording htracked.accepting
        (AsyncRecorder.step_move hstep)
  · -- So far, the counter has not wrapped around.
    have hsmall : drawn < 2 ^ 64 := by
      by_cases hevents : events = 0
      · exact (Nat.le_add_right _ _).trans_lt (hdrawn hevents)
      · exact htracked.counted.lt_size hevents hbound
    exact (htracked.numbering (hnone hnone') fun _ => hsmall).step hlife
      (fun houtside => htracked.accepting houtside (hnone hnone')) (hnone hnone') hproducers
      htracked.counted.next hsmall hmove

theorem Tracked.start (h : tool.start engine device now = .ok s) : tool.Tracked events s now 0 := by
  have hlife := Lifecycle.start h
  obtain ⟨recorder, hnew, rfl⟩ := start_eq h
  have hidle : recorder.submitAt = (fun _ => .outside) ∧ recorder.queue.accepted = [] := by
    obtain ⟨writer, _, rfl⟩ := AsyncRecorder.new_eq hnew
    exact ⟨rfl, rfl⟩
  refine ⟨hlife, fun _ _ => .new hnew, ⟨rfl, fun _ => Nat.zero_le _⟩, fun _ _ => ?_⟩
  refine ⟨by simp, ?_, by simp [hidle.2], ?_, by simp⟩
  · simp [AsyncRecorder.waitingAt, hidle.1, AsyncRecorder.waiting]
  · have hdesk (generators : ℕ → EventGenerator R) :
        RecordingState.desk { recorder := recorder, generators := generators } 0 = .empty :=
      Tickets.Desk.ext rfl rfl (by simp [RecordingState.desk, hidle.2, Tickets.Desk.empty])
    rw [hdesk]

/-- Every state that a run reaches is known that well. -/
theorem tracked_of_run (htool : Generates tool events)
    (hproducers : tool.producers.toNat ≤ 2 ^ 32)
    (hbound : events.toNat + tool.producers.toNat < 2 ^ 64)
    (hstart : tool.start engine device now = .ok s₀) {labels : List RecordingLabel}
    (hrun : Transition.run (tool.step engine) s₀ labels = some s) :
    tool.Tracked events s now (tool.drawn engine s₀ labels).length := by
  have hstep {o : List UInt64} {s s' : RecordingState R} {l : RecordingLabel}
      (htracked : tool.Tracked events s now o.length) (h : tool.step engine s l = some s') :
      tool.Tracked events s' now (o ++ s.draws l).length := by
    rw [List.length_append]
    exact htracked.step htool hproducers hbound h
  exact Transition.run_observe (I := fun o s => tool.Tracked events s now o.length)
    (f := fun s l _ => s.draws l) hstep (o := []) (.start hstart) hrun

/-! ## The file -/

/-- When `main` has returned from `stop`, all producers and the background thread have ended. -/
theorem ended_of_hasStopped (hlife : Lifecycle tool s now)
    (hstopped : s.mainAt.HasStopped) :
    (∀ p, if p < tool.producers.toNat then s.producerAt p = .ended
      else s.producerAt p = .unborn) ∧ s.recorder.runAt = .ended := by
  have hmain := hlife.main
  have hproducers (hstarted : s.Started tool.producers.toNat)
      (hdone : ∀ p < tool.producers.toNat, s.producerAt p = .ended) (p : ℕ) :
      if p < tool.producers.toNat then s.producerAt p = .ended else s.producerAt p = .unborn := by
    split
    · exact hdone p ‹_›
    · exact not_not.mp (mt (hstarted p).mpr ‹_›)
  cases hat : s.mainAt with
  | reporting =>
    rw [hat] at hmain
    have hmem := hlife.recording.stopping.returned _ hmain.2.2
    exact ⟨hproducers hmain.1 hmain.2.1, (hlife.recording.stopping.stops _ hmem).1⟩
  | leaving code =>
    rw [hat] at hmain
    exact ⟨hproducers hmain.1 hmain.2.1, hmain.2.2.2.1⟩
  | exited code =>
    rw [hat] at hmain
    exact ⟨hproducers hmain.1 hmain.2.1, hmain.2.2.1⟩
  | _ =>
    rw [hat] at hstopped
    exact absurd hstopped id

/-- At a number that does not wrap around, the loop ends exactly from the limit on. -/
theorem Generates.past_nat_iff (htool : Generates tool events) {i : ℕ} (hi : i < 2 ^ 64) :
    tool.Past i ↔ events ≠ 0 ∧ events.toNat ≤ i := by
  rw [Past, htool.past_iff, UInt64.le_iff_toNat_le, UInt64.toNat_ofNat_of_lt' hi]

/-- The drawn numbers from some number on are past the limit. -/
theorem Generates.exists_limit (htool : Generates tool events) (hsmall : drawn < 2 ^ 64) :
    ∃ k ≤ drawn, (∀ i < drawn, tool.Past i ↔ k ≤ i) ∧
      (events ≠ 0 → k = min events.toNat drawn) := by
  by_cases hevents : events = 0
  · refine ⟨drawn, le_rfl, fun i hi => ?_, fun hne => absurd hevents hne⟩
    rw [htool.past_nat_iff (hi.trans hsmall)]
    exact iff_of_false (fun hpast => hpast.1 hevents) (Nat.not_le.mpr hi)
  · refine ⟨min events.toNat drawn, min_le_right _ _, fun i hi => ?_, fun _ => rfl⟩
    rw [htool.past_nat_iff (hi.trans hsmall)]
    constructor
    · exact fun hpast => (min_le_left _ _).trans hpast.2
    · intro hle
      exact ⟨hevents, by omega⟩

/-- The file reads back as the accepted events. -/
theorem Numbering.readsBack (hnumbering : tool.Numbering s drawn)
    (hlife : Lifecycle tool s now) (hended : s.recorder.runAt = .ended)
    (hfailure : s.recorder.failure = none) (path : String) :
    s.recorder.ReadsBack path (s.recorder.queue.accepted.map Prod.snd) := by
  obtain ⟨_, haccepted⟩ := hlife.recording.file_of_ended hended hfailure
  rw [haccepted]
  refine hlife.recording.writing.readsBack hended hfailure path fun event hmem => ?_
  rw [← haccepted] at hmem
  obtain ⟨x, hx, rfl⟩ := List.mem_map.mp hmem
  exact hnumbering.severity x hx

/-- The accepted numbers with one producer id increase. -/
theorem increasing_of_accounted (haccounted : Tickets.Accounted tool.Past (s.desk drawn))
    (producerId : UInt32) :
    (((s.recorder.queue.accepted.map Prod.snd).filter
      (fun event => event.producerId = producerId)).map
        (fun event => event.sequence)).Pairwise (· < ·) := by
  have hfiled := haccounted.increasing producerId.toNat
  simp only [RecordingState.desk, List.filter_map, List.map_map, List.pairwise_map] at hfiled ⊢
  have hsame : ((fun x : ℕ × ℕ => decide (x.1 = producerId.toNat)) ∘
        fun x : RecorderThread ℕ × Event => (x.2.producerId.toNat, x.2.sequence.toNat)) =
      (fun event : Event => decide (event.producerId = producerId)) ∘ Prod.snd := by
    funext x
    simp [UInt32.toNat_inj]
  rw [hsame] at hfiled
  exact hfiled.imp fun hlt => UInt64.lt_iff_toNat_lt.mpr hlt

/-- **No gap and no duplicate.** For both tools, any options, any engine, any device, any
interleaving and a stop signal that becomes visible to the producers at any moments: if `main` has
returned from `stop` and the writer has not failed, the file reads back as events whose numbers are
`0` to `k - 1` for some `k`, each once. With a limit, `k` is at most the limit, and it is the limit
if no stop was requested. The numbers with the same producer id increase. -/
theorem recorded_sequences (htool : Generates tool events)
    (hstart : tool.start engine device now = .ok s₀) {labels : List RecordingLabel}
    (hrun : Transition.run (tool.step engine) s₀ labels = some s)
    (hproducers : tool.producers.toNat ≤ 2 ^ 32)
    (hbound : events.toNat + tool.producers.toNat < 2 ^ 64)
    (hdrawn : events = 0 → (tool.drawn engine s₀ labels).length < 2 ^ 64)
    (hfailure : s.recorder.failure = none) (hstopped : s.mainAt.HasStopped) :
    ∃ log k, s.recorder.ReadsBack tool.output log ∧
      (log.map (fun event => event.sequence.toNat)).Perm (List.range k) ∧
      (events ≠ 0 → k ≤ events.toNat) ∧
      (events ≠ 0 →
        (tool.stopsOnSignal = true → ∀ p < tool.producers.toNat, s.stopRequested p = false) →
          k = events.toNat) ∧
      ∀ producerId, ((log.filter (fun event => event.producerId = producerId)).map
        (fun event => event.sequence)).Pairwise (· < ·) := by
  have htracked := tracked_of_run htool hproducers hbound hstart hrun
  generalize (tool.drawn engine s₀ labels).length = drawn at htracked hdrawn
  have hlife := htracked.life
  have hnumbering := htracked.numbering hfailure hdrawn
  have haccounted := Tickets.Accounted.of_moves hnumbering.moves
  obtain ⟨hended, hrunAt⟩ := ended_of_hasStopped hlife hstopped
  have hsmall : drawn < 2 ^ 64 := by
    by_cases hevents : events = 0
    · exact hdrawn hevents
    · exact htracked.counted.lt_size hevents hbound
  have hfree (p : ℕ) : (s.desk drawn).hand p = none := by
    have hat := hended p
    simp only [RecordingState.desk, RecordingState.hand]
    split at hat <;> rw [hat] <;> rfl
  obtain ⟨k, hk, hpast, hlimit⟩ := htool.exists_limit hsmall
  refine ⟨s.recorder.queue.accepted.map Prod.snd, k,
    hnumbering.readsBack hlife hrunAt hfailure tool.output, ?_, ?_, ?_,
    increasing_of_accounted haccounted⟩
  · have hperm := haccounted.filed_perm hfree hk hpast
    simpa [RecordingState.desk, Function.comp_def] using hperm
  · intro hevents
    rw [hlimit hevents]
    exact min_le_left _ _
  · -- A producer that was not stopped has drawn a number past the limit.
    intro hevents hunstopped
    have hat := hended 0
    rw [if_pos htool.producers_pos] at hat
    rcases hnumbering.ended 0 hat with ⟨hsignal, hstop⟩ | ⟨i, hi, hpassed⟩
    · rw [hunstopped hsignal 0 htool.producers_pos] at hstop
      cases hstop
    · have hle := ((htool.past_nat_iff (hi.trans hsmall)).mp hpassed).2
      rw [hlimit hevents]
      omega

/-- Two producers take turns for two events, and both draw a number past the limit. -/
def twoProducers : List RecordingLabel :=
  List.replicate 3 (.main none) ++
  (List.replicate 14 [.producer 1 0 none, .producer 0 0 none]).flatten ++
  List.replicate 8 (.main none) ++ List.replicate 14 (.writer none) ++
  List.replicate 8 (.main none)

/-- The two numbers are in the file, whatever their order. -/
theorem recorded_sequences_two : ∃ opts s₀ s log,
    RecordOptions.parse ["--producers", "2", "--events", "2", "--payload-size", "0"] = .ok opts ∧
    (hpblrRecord opts).start countingEngine .reliable 0 = .ok s₀ ∧
    Transition.run ((hpblrRecord opts).step countingEngine) s₀ twoProducers = some s ∧
    s.recorder.ReadsBack opts.output log ∧
    (log.map (fun event => event.sequence.toNat)).Perm [0, 1] := by
  have hparse : RecordOptions.parse
      ["--producers", "2", "--events", "2", "--payload-size", "0"] =
        .ok { producers := 2, events := 2, payloadSize := 0 } := by decide +kernel
  obtain ⟨opts, s₀, s, hparse', hstart, _, hrun, hfailure, hexited, hsignal⟩ :=
    exists_run ["--producers", "2", "--events", "2", "--payload-size", "0"] .reliable
      twoProducers
      (fun s => s.recorder.failure = none ∧ s.mainAt = .exited 0 ∧
        s.stopRequested 0 = false ∧ s.stopRequested 1 = false)
      (fun _ _ => True) (by decide +kernel)
  cases hparse.symm.trans hparse'
  obtain ⟨log, k, hreads, hperm, _, hall, _⟩ :=
    recorded_sequences (.record hparse) hstart hrun (by decide) (by decide) (by simp) hfailure
      (by rw [hexited]; trivial)
  have hk := hall (by decide) fun _ p hp => by
    rcases Nat.lt_succ_iff_lt_or_eq.mp (show p < 2 from hp) with hlt | rfl
    · rw [Nat.lt_one_iff.mp hlt]
      exact hsignal.1
    · exact hsignal.2
  rw [hk] at hperm
  exact ⟨_, s₀, s, log, hparse, hstart, hrun, hreads, hperm⟩

end RecordingTool

end Hpblr
