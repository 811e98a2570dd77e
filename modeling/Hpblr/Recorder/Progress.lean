import Hpblr.Recorder.Stopping

/-!
# Who can go on

While a call of `submit` or `stop` is under way, some thread of the recorder has an enabled step. A
thread waits for the background thread, or for the notifications of a `close`; the background
thread waits for an element or for the `close`, and sleeps only when no slot is asked for.
-/

namespace Hpblr

variable {P : Type*} [DecidableEq P]

namespace AsyncRecorder

/-- The thread has an enabled step, not counting a wake-up without a notification. -/
def Enabled (s : AsyncRecorder P) (t : RecorderThread P) : Prop :=
  ∃ n s', s.step (.run t n) = some s'

variable {s : AsyncRecorder P} {t : RecorderThread P} {p : P} {now : UInt64}

/-! ## Threads that are awake -/

/-- A step of the queue that is enabled is one of the recorder. -/
private theorem queueStep_eq {s : AsyncRecorder P} {l : QueueLabel (RecorderThread P) Event}
    {q : QueueState (RecorderThread P) Event} (h : s.queue.step l = some q) :
    s.queueStep l = some { s with queue := q } := by
  rw [queueStep, h]
  rfl

/-- A thread outside the queue can call an operation. -/
private theorem exists_call {s : AsyncRecorder P} (hidle : ¬ (s.queue.activity t).InCall)
    (c : QueueCall Event) : ∃ s', s.queueStep (.call t c) = some s' :=
  ⟨_, queueStep_eq (if_neg hidle)⟩

/-- A thread inside `close` can go on, since it waits for nobody. -/
private theorem exists_close (hclosing : QueueMove.Closing (s.queue.activity t)) :
    s.queue.activity t ≠ .returned .closed ∧ ∃ n s', s.queueStep (.run t n) = some s' := by
  have hnotReturned : s.queue.activity t ≠ .returned .closed := by
    intro hreturned
    rw [hreturned] at hclosing
    exact hclosing
  have hstep : ∃ q, s.queue.runThread t none = some q := by
    unfold QueueState.runThread
    cases hactivity : s.queue.activity t with
    | close => exact ⟨_, rfl⟩
    | notifyNotEmpty => exact ⟨_, rfl⟩
    | notifyNotFull => exact ⟨_, rfl⟩
    | _ =>
      rw [hactivity] at hclosing
      exact absurd hclosing id
  obtain ⟨q, hq⟩ := hstep
  exact ⟨hnotReturned, none, _, queueStep_eq hq⟩

/-- The background thread can go on unless it has ended or sleeps in `pop`. -/
theorem writer_enabled (hstages : s.Stages) (hended : s.runAt ≠ .ended)
    (hfull : RecorderThread.writer ∉ s.queue.notFull.sleeping)
    (hempty : RecorderThread.writer ∉ s.queue.notEmpty.sleeping) : s.Enabled .writer := by
  have hrun := hstages.run
  unfold Enabled
  simp only [step, stepRun]
  cases hat : s.runAt with
  | fetching =>
    rw [hat] at hrun
    obtain ⟨s', hcall⟩ := exists_call (s := { s with runAt := .popping }) hrun .pop
    exact ⟨none, s', hcall⟩
  | popping =>
    rw [hat] at hrun
    rcases hrun with hpop | ⟨value, hvalue⟩
    · obtain ⟨n, q, hstep⟩ := s.queue.exists_run (by rw [hpop]; trivial) hfull hempty
      simp only [hpop]
      exact ⟨n, _, queueStep_eq hstep⟩
    · simp only [hvalue]
      cases value <;> exact ⟨none, _, rfl⟩
  | appending event =>
    dsimp only
    split <;> exact ⟨none, _, rfl⟩
  | counting => exact ⟨none, _, rfl⟩
  | flushing =>
    dsimp only
    split <;> exact ⟨none, _, rfl⟩
  | settingError e =>
    have hidle : ¬ ((s.setWriterError e).queue.activity .writer).InCall := by
      rw [hat] at hrun
      unfold setWriterError
      split <;> exact hrun
    obtain ⟨s', hcall⟩ :=
      exists_call (s := { s.setWriterError e with runAt := .closing }) hidle .close
    exact ⟨none, s', hcall⟩
  | closing =>
    rw [hat] at hrun
    rcases hrun with hclosing | hclosed
    · obtain ⟨hnotReturned, n, s', hstep⟩ := exists_close hclosing
      refine ⟨n, s', ?_⟩
      dsimp only
      split
      · rename_i hreturned
        exact absurd hreturned hnotReturned
      · exact hstep
    · simp only [hclosed]
      exact ⟨none, _, rfl⟩
  | ended => exact absurd hat hended

/-- The stopping thread can go on unless it waits for the background thread. -/
theorem stopper_enabled (hstages : s.Stages) (hin : s.stopAt.InCall)
    (hjoin : s.stopAt = .joining → s.joinable = true → s.runAt = .ended) : s.Enabled .stopper := by
  have hstop := hstages.stop
  unfold Enabled
  simp only [step, stepStop]
  cases hat : s.stopAt with
  | outside => exact absurd hin (by rw [hat]; exact id)
  | returned result => exact absurd hin (by rw [hat]; exact id)
  | exchanging =>
    dsimp only
    by_cases hstopping : s.stopping = true
    · rw [if_pos hstopping]
      exact ⟨none, _, rfl⟩
    · rw [if_neg hstopping]
      rw [hat] at hstop
      obtain ⟨s', hcall⟩ :=
        exists_call (s := { s with stopping := true, stopAt := .closing }) hstop .close
      exact ⟨none, s', hcall⟩
  | closing =>
    rw [hat] at hstop
    rcases hstop with hclosing | hclosed
    · obtain ⟨hnotReturned, n, s', hstep⟩ := exists_close hclosing
      refine ⟨n, s', ?_⟩
      dsimp only
      split
      · rename_i hreturned
        exact absurd hreturned hnotReturned
      · exact hstep
    · simp only [hclosed]
      exact ⟨none, _, rfl⟩
  | joining =>
    dsimp only
    by_cases hjoinable : s.joinable = true
    · rw [if_pos hjoinable, hjoin hat hjoinable]
      exact ⟨none, _, rfl⟩
    · rw [if_neg hjoinable]
      exact ⟨none, _, rfl⟩
  | checking =>
    dsimp only
    split <;> exact ⟨none, _, rfl⟩

/-- A producer inside `submit` can go on unless it sleeps in `push`. -/
theorem producer_enabled (hstages : s.Stages) (hin : (s.submitAt p).InCall)
    (hfull : RecorderThread.producer p ∉ s.queue.notFull.sleeping)
    (hempty : RecorderThread.producer p ∉ s.queue.notEmpty.sleeping) : s.Enabled (.producer p) := by
  have hsubmit := hstages.submit p
  unfold Enabled
  simp only [step, stepSubmit]
  cases hat : s.submitAt p with
  | outside => exact absurd hin (by rw [hat]; exact id)
  | returned result => exact absurd hin (by rw [hat]; exact id)
  | checking event =>
    dsimp only
    split <;> exact ⟨none, _, rfl⟩
  | loading event =>
    dsimp only
    split
    · exact ⟨none, _, rfl⟩
    · rw [hat] at hsubmit
      obtain ⟨s', hcall⟩ :=
        exists_call (s := s.producerAt p (.pushing event)) hsubmit (.push event)
      exact ⟨none, s', hcall⟩
  | pushing event =>
    rw [hat] at hsubmit
    rcases hsubmit with hpush | ⟨accepted, hresult⟩
    · obtain ⟨n, q, hstep⟩ := s.queue.exists_run (by rw [hpush]; trivial) hfull hempty
      simp only [hpush]
      exact ⟨n, _, queueStep_eq hstep⟩
    · simp only [hresult]
      cases accepted <;> exact ⟨none, _, rfl⟩
  | rejecting event => exact ⟨none, _, rfl⟩
  | counting event => exact ⟨none, _, rfl⟩

/-! ## Threads that sleep -/

omit [DecidableEq P] in
/-- Only producers are ever in `push`. -/
theorem exists_producer (hstages : s.Stages) (hpush : (s.queue.activity t).IsPush) :
    ∃ p, t = .producer p ∧ (s.submitAt p).InCall := by
  obtain ⟨value, hpush⟩ := hpush
  rcases hstages.inCall_cases (t := t) (by rw [hpush]; trivial) with
    ⟨p, event, hp, hat, _⟩ | ⟨_, _, hpop⟩ | ⟨hclosing, _⟩
  · exact ⟨p, hp, by rw [hat]; trivial⟩
  · rw [hpush] at hpop
    cases hpop
  · rw [hpush] at hclosing
    exact absurd hclosing id

omit [DecidableEq P] in
/-- Only the background thread is ever in `pop`. -/
theorem eq_writer (hstages : s.Stages) (hpop : s.queue.activity t = .pop) :
    t = .writer ∧ s.runAt = .popping := by
  rcases hstages.inCall_cases (t := t) (by rw [hpop]; trivial) with
    ⟨p, event, _, _, hpush⟩ | ⟨hwriter, hat, _⟩ | ⟨hclosing, _⟩
  · rw [hpush] at hpop
    cases hpop
  · exact ⟨hwriter, hat⟩
  · rw [hpop] at hclosing
    exact absurd hclosing id

omit [DecidableEq P] in
/-- Only the background thread and the stopping thread are ever in `close`. -/
theorem closing_at (hstages : s.Stages)
    (hnotify : s.queue.activity t = .notifyNotEmpty ∨ s.queue.activity t = .notifyNotFull) :
    s.runAt = .closing ∨ s.stopAt = .closing := by
  have hin : (s.queue.activity t).InCall := by
    rcases hnotify with hnotify | hnotify <;> rw [hnotify] <;> trivial
  rcases hstages.inCall_cases hin with
    ⟨p, event, _, _, hpush⟩ | ⟨_, _, hpop⟩ | ⟨_, ⟨_, hwriter⟩ | ⟨_, hstopper⟩⟩
  · rw [hpush] at hnotify
    rcases hnotify with h | h <;> cases h
  · rw [hpop] at hnotify
    rcases hnotify with h | h <;> cases h
  · exact Or.inl hwriter
  · exact Or.inr hstopper

/-- A producer inside `submit` can go on unless it sleeps for a free slot. -/
private theorem producer_awake (hstages : s.Stages) (hsound : s.queue.Sound)
    (hin : (s.submitAt p).InCall) (hfull : RecorderThread.producer p ∉ s.queue.notFull.sleeping) :
    s.Enabled (.producer p) := by
  refine producer_enabled hstages hin hfull fun hempty => ?_
  have hwriter := (eq_writer hstages (hsound.wakeUps.consumers.sleeping _ hempty)).1
  cases hwriter

/-- The background thread can go on unless it has ended or sleeps for an element. -/
private theorem writer_awake (hstages : s.Stages) (hsound : s.queue.Sound)
    (hended : s.runAt ≠ .ended) (hempty : RecorderThread.writer ∉ s.queue.notEmpty.sleeping) :
    s.Enabled .writer := by
  refine writer_enabled hstages hended (fun hfull => ?_) hempty
  obtain ⟨_, hproducer, _⟩ := exists_producer hstages (hsound.wakeUps.producers.sleeping _ hfull)
  cases hproducer

/-- In an open queue whose consumer sleeps, a producer that asks for a slot can go on. -/
private theorem exists_enabled_of_open (hstages : s.Stages) (hsound : s.queue.Sound)
    (hopen : s.queue.closed = false) (hempty : RecorderThread.writer ∈ s.queue.notEmpty.sleeping)
    (hin : (s.submitAt p).InCall) : ∃ t, s.Enabled t := by
  have hwakeUps := hsound.wakeUps
  by_cases hfull : RecorderThread.producer p ∈ s.queue.notFull.sleeping
  · -- The consumer is alone and asleep, so nothing is stored, and a producer was woken for a slot.
    have hwoken : s.queue.notEmpty.woken = ∅ := by
      rw [Finset.eq_empty_iff_forall_notMem]
      intro t ht
      have hwriter := (eq_writer hstages (hwakeUps.consumers.woken t ht)).1
      exact Finset.disjoint_left.mp hwakeUps.consumers.disjoint hempty (hwriter ▸ ht)
    have hlength : s.queue.queue.length = 0 := by
      simpa [hwoken] using hwakeUps.elements hopen ⟨_, hempty⟩
    have hslots : s.queue.capacity ≤ s.queue.notFull.woken.card := by
      simpa [hlength] using hwakeUps.slots hopen ⟨_, hfull⟩
    obtain ⟨t, ht⟩ := Finset.card_pos.mp (s.queue.capacity_pos.trans_le hslots)
    obtain ⟨p', rfl, hin'⟩ := exists_producer hstages (hwakeUps.producers.woken t ht)
    exact ⟨_, producer_awake hstages hsound hin'
      (Finset.disjoint_right.mp hwakeUps.producers.disjoint ht)⟩
  · exact ⟨_, producer_awake hstages hsound hin hfull⟩

/-- **No deadlock.** While a call of `submit` or `stop` is under way, some thread has an enabled
step, whether the writer has failed or not. -/
theorem Recording.exists_enabled (hrecording : s.Recording now)
    (hin : (∃ p, (s.submitAt p).InCall) ∨ s.stopAt.InCall) : ∃ t, s.Enabled t := by
  have hstages := hrecording.stages
  have hwakeUps := hrecording.queue.wakeUps
  by_cases hended : s.runAt = .ended
  · -- The queue is closed, so a sleeping producer waits for the stopping thread only.
    by_cases hstop : s.stopAt.InCall
    · exact ⟨_, stopper_enabled hstages hstop fun _ _ => hended⟩
    · obtain ⟨p, hp⟩ := hin.resolve_right hstop
      refine ⟨_, producer_awake hstages hrecording.queue hp fun hfull => ?_⟩
      rcases hwakeUps.closedFull (hrecording.writing.closed_of_ended hended) with hnone | ⟨t, ht⟩
      · rw [hnone] at hfull
        exact Finset.notMem_empty _ hfull
      · rcases closing_at hstages ht with hrun | hat
        · rw [hended] at hrun
          cases hrun
        · exact hstop (by rw [hat]; trivial)
  · by_cases hempty : RecorderThread.writer ∈ s.queue.notEmpty.sleeping
    · -- The background thread waits for an element or for the stopping thread.
      have hpopping := (eq_writer hstages (hwakeUps.consumers.sleeping _ hempty)).2
      by_cases hclosed : s.queue.closed = true
      · rcases hwakeUps.closedEmpty hclosed with hnone | ⟨t, ht⟩
        · rw [hnone] at hempty
          exact absurd hempty (Finset.notMem_empty _)
        · rcases closing_at hstages (Or.inl ht) with hrun | hat
          · rw [hpopping] at hrun
            cases hrun
          · exact ⟨_, stopper_enabled hstages (by rw [hat]; trivial) fun hjoining => by
              rw [hat] at hjoining
              cases hjoining⟩
      · by_cases hstop : s.stopAt.InCall
        · exact ⟨_, stopper_enabled hstages hstop fun hjoining =>
            absurd (hrecording.stopping.joining hjoining) hclosed⟩
        · obtain ⟨p, hp⟩ := hin.resolve_right hstop
          exact exists_enabled_of_open hstages hrecording.queue (by simpa using hclosed) hempty hp
    · exact ⟨_, writer_awake hstages hrecording.queue hended hempty⟩

/-! ## Runs -/

/-- The stopping thread is between the two critical sections of `close`: the queue is closed, and
the producers are about to be notified. -/
def Notifying (s : AsyncRecorder P) : Prop :=
  s.stopAt = .closing ∧
    (s.queue.activity .stopper = .notifyNotEmpty ∨ s.queue.activity .stopper = .notifyNotFull)

/-- Once the background thread has ended, a producer sleeps only while the stopping thread is about
to wake it. -/
private theorem Recording.notifying (hrecording : s.Recording now) (hended : s.runAt = .ended)
    (hfull : t ∈ s.queue.notFull.sleeping) : s.Notifying ∧ s.Enabled .stopper := by
  have hclosed := hrecording.writing.closed_of_ended hended
  rcases hrecording.queue.wakeUps.closedFull hclosed with hnone | ⟨u, hu⟩
  · rw [hnone] at hfull
    exact absurd hfull (Finset.notMem_empty t)
  have hin : (s.queue.activity u).InCall := by
    rcases hu with hu | hu <;> rw [hu] <;> trivial
  rcases hrecording.stages.inCall_cases hin with
    ⟨p, event, _, _, hpush⟩ | ⟨_, hpopping, _⟩ | ⟨_, ⟨_, hclosing⟩ | ⟨hstopper, hclosing⟩⟩
  · rw [hpush] at hu
    rcases hu with hu | hu <;> cases hu
  · rw [hended] at hpopping
    cases hpopping
  · rw [hended] at hclosing
    cases hclosing
  · subst hstopper
    exact ⟨⟨hclosing, hu⟩, stopper_enabled hrecording.stages (by rw [hclosing]; trivial) fun _ _ =>
      hended⟩

/-- **The recorder cannot deadlock.** For any producers, any capacity, any interleaving and a
writer that fails anywhere or nowhere: while a call of `submit` or `stop` is under way, some thread
has an enabled step. Once the background thread has ended, the queue is closed; a call of `submit`
that is still asleep is about to be woken by the `close` of the stopping thread, which can go on;
and no further call goes to sleep. -/
theorem progress_of_run {s₀ : AsyncRecorder P} {path : String} {queueCapacity : ℕ}
    {writerOptions : WriterOptions} {device : Device} {labels : List (RecorderLabel P)}
    (hnew : AsyncRecorder.new path queueCapacity writerOptions device now = .ok s₀)
    (hrun : Transition.run step s₀ labels = some s) :
    ((∃ p, (s.submitAt p).InCall) ∨ s.stopAt.InCall → ∃ t, s.Enabled t) ∧
    (s.runAt = .ended → s.queue.closed = true ∧
      (∀ t ∈ s.queue.notFull.sleeping, s.Notifying ∧ s.Enabled .stopper) ∧
      ∀ {labels' s'}, Transition.run step s labels' = some s' →
        s'.queue.closed = true ∧ s'.queue.notFull.sleeping ⊆ s.queue.notFull.sleeping) := by
  have hrecording := recording_of_run hnew hrun
  refine ⟨hrecording.exists_enabled, fun hended => ?_⟩
  have hclosed := hrecording.writing.closed_of_ended hended
  refine ⟨hclosed, fun t hfull => hrecording.notifying hended hfull, fun hrun' => ?_⟩
  obtain ⟨labels'', hqueue⟩ := queue_run hrun'
  obtain ⟨hclosed', _, hfull⟩ := QueueState.sleeping_of_run hclosed hqueue
  exact ⟨hclosed', hfull⟩

/-- Two producers wait for the one slot when `stop` is called. The background thread takes what
there is and ends before the stopping thread notifies anybody. -/
def endsBeforeNotified : List (RecorderLabel Bool) :=
  .submit true {} :: List.replicate 5 (.run (.producer true) none) ++
  .submit true {} :: List.replicate 3 (.run (.producer true) none) ++
  .submit false {} :: List.replicate 3 (.run (.producer false) none) ++
  .stop :: List.replicate 2 (.run .stopper none) ++
  .run .writer none :: .run .writer (some (.producer true)) ::
  List.replicate 7 (.run .writer none)

/-- The background thread has ended, and one of the two producers is still asleep. -/
theorem asleep_after_end : ∃ s₀ s : AsyncRecorder Bool,
    AsyncRecorder.new "log" 1 {} .reliable 0 = .ok s₀ ∧
    Transition.run step s₀ endsBeforeNotified = some s ∧ s.runAt = .ended ∧
    s.submitAt false = .pushing {} ∧ .producer false ∈ s.queue.notFull.sleeping :=
  exists_run "log" 1 {} .reliable 0 endsBeforeNotified
    (fun s => s.runAt = .ended ∧ s.submitAt false = .pushing {} ∧
      .producer false ∈ s.queue.notFull.sleeping) (by decide +kernel)

/-- The stopping thread can go on and notifies the sleeper. -/
theorem progress_of_run_asleep : ∃ s₀ s : AsyncRecorder Bool,
    AsyncRecorder.new "log" 1 {} .reliable 0 = .ok s₀ ∧
    Transition.run step s₀ endsBeforeNotified = some s ∧ s.queue.closed = true ∧
    .producer false ∈ s.queue.notFull.sleeping ∧ s.Notifying ∧ s.Enabled .stopper := by
  obtain ⟨s₀, s, hnew, hrun, hended, hfull⟩ :=
    exists_run "log" 1 {} .reliable 0 endsBeforeNotified
      (fun s => s.runAt = .ended ∧ .producer false ∈ s.queue.notFull.sleeping) (by decide +kernel)
  obtain ⟨hclosed, hsleeping, _⟩ := (progress_of_run hnew hrun).2 hended
  exact ⟨s₀, s, hnew, hrun, hclosed, hfull, hsleeping _ hfull⟩

end AsyncRecorder

end Hpblr
