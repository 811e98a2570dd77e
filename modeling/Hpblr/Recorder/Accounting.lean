import Hpblr.Recorder.Stages

/-!
# Accounting for the submitted events

Every event that the queue accepted belongs to a call of `submit` that returned true, or that is
about to: producer by producer, and in the order of the calls. The counters of the recorder count
the results of the completed calls.
-/

namespace Hpblr

variable {P : Type*} [DecidableEq P]

namespace AsyncRecorder

/-- The events of a producer that the queue accepted, in this order. -/
def acceptedOf (s : AsyncRecorder P) (p : P) : List Event :=
  (s.queue.accepted.filter (fun x => x.1 = .producer p)).map Prod.snd

/-- The events of the calls of `submit` by a producer that returned true, in their order. -/
def submittedOf (s : AsyncRecorder P) (p : P) : List Event :=
  (s.submits.filter (fun x => x.1 = p ∧ x.2.2 = .returned true)).map (fun x => x.2.1)

/-- The event of a producer at this stage that the queue has accepted, while the call goes on. -/
def pending : SubmitStage → Activity Event → List Event
  | .counting event, _ => [event]
  | .pushing event, a => if a = .returned (.pushed true) then [event] else []
  | _, _ => []

/-- The number of completed calls of `submit` with this result. -/
def results (s : AsyncRecorder P) (accepted : Bool) : ℕ :=
  s.submits.countP (fun x => x.2.2 = .returned accepted)

/-- The number of completed calls of `submit` that threw. -/
def thrown (s : AsyncRecorder P) : ℕ :=
  s.submits.countP (fun x => ∀ accepted, x.2.2 ≠ .returned accepted)

/-- The history of the queue and the counters agree with the completed calls. -/
structure Accounts (s : AsyncRecorder P) : Prop where
  perProducer : ∀ p, s.acceptedOf p =
    s.submittedOf p ++ pending (s.submitAt p) (s.queue.activity (.producer p))
  byProducers : ∀ x ∈ s.queue.accepted, ∃ p, x.1 = .producer p
  submitted : s.submitted = UInt64.ofNat (s.results true)
  rejected : s.rejected = UInt64.ofNat (s.results false)

variable {s s' : AsyncRecorder P} {q q' : QueueState (RecorderThread P) Event}
  {t : RecorderThread P} {n : Option (RecorderThread P)} {l : RecorderLabel P}

/-! ## What a step accepts -/

theorem accepted_call {c : QueueCall Event} (h : q.step (.call t c) = some q') :
    q'.accepted = q.accepted := by
  obtain ⟨rfl, _⟩ := (QueueState.step_move h).of_call
  rfl

theorem accepted_wake (h : q.step (.wake t) = some q') : q'.accepted = q.accepted :=
  (QueueState.step_move h).of_wake.2.1

/-- Only producers are ever in `push`, so a step of another thread accepts nothing. -/
theorem accepted_run (hstages : s.Stages) (h : s.queue.step (.run t n) = some q')
    (ht : ∀ p, t ≠ .producer p) : q'.accepted = s.queue.accepted := by
  have hmove := QueueState.step_move h
  rcases hstages.inCall_cases hmove.inCall with ⟨p, _, hp, _⟩ | ⟨_, _, hpop⟩ | ⟨hclosing, _⟩
  · exact absurd hp (ht p)
  · exact (hmove.of_pop hpop).1
  · exact (hmove.of_close hclosing).1

/-- A step accepts nothing, or the event of a producer in `push`. -/
theorem accepted_cases (hstages : s.Stages) (h : RecorderMove s l s') :
    s'.queue.accepted = s.queue.accepted ∨
      ∃ p event n, l = .run (.producer p) n ∧
        s'.queue.accepted = s.queue.accepted ++ [(.producer p, event)] := by
  cases h with
  | pushCalled _ _ hqueue => exact Or.inl (accepted_call hqueue)
  | @pushRuns p event n _ hat hqueue =>
    have hsubmit := hstages.submit p
    rw [hat] at hsubmit
    have hmove := QueueState.step_move hqueue
    rcases (hmove.of_push (hsubmit.push hmove.inCall)).2.2 with ⟨_, hsame, _⟩ | ⟨_, hsame, _⟩ |
      ⟨_, _, hnew, _⟩
    · exact Or.inl hsame
    · exact Or.inl hsame
    · exact Or.inr ⟨p, event, n, rfl, hnew⟩
  | popCalled _ hqueue => exact Or.inl (accepted_call hqueue)
  | popRuns _ hqueue => exact Or.inl (accepted_run hstages hqueue (by simp))
  | setsError _ hqueue => exact Or.inl (accepted_call hqueue)
  | closeRuns _ hqueue => exact Or.inl (accepted_run hstages hqueue (by simp))
  | exchangesFirst _ _ hqueue => exact Or.inl (accepted_call hqueue)
  | stopCloseRuns _ hqueue => exact Or.inl (accepted_run hstages hqueue (by simp))
  | wakes hqueue => exact Or.inl (accepted_wake hqueue)
  | _ => exact Or.inl rfl

/-- A step completes no call, or one of a producer that takes the step. -/
theorem submits_cases (h : RecorderMove s l s') : s'.submits = s.submits ∨
    ∃ p event result n, l = .run (.producer p) n ∧
      s'.submits = s.submits ++ [(p, event, result)] := by
  cases h with
  | @submitThrows p event e n => exact Or.inr ⟨p, event, .threw e, n, rfl, rfl⟩
  | @submitRejects p event n => exact Or.inr ⟨p, event, .returned false, n, rfl, rfl⟩
  | @submitCounts p event n => exact Or.inr ⟨p, event, .returned true, n, rfl, rfl⟩
  | _ => exact Or.inl rfl

/-! ## The accounts are kept -/

/-- The steps of the other threads change nothing for a producer. -/
private theorem perProducer_other (hstages : s.Stages) (haccounts : s.Accounts)
    (h : RecorderMove s l s') {p : P}
    (hl : (∀ event, l ≠ .submit p event) ∧ ∀ n, l ≠ .run (.producer p) n) : s'.acceptedOf p =
      s'.submittedOf p ++ pending (s'.submitAt p) (s'.queue.activity (.producer p)) := by
  have haccepted : s'.acceptedOf p = s.acceptedOf p := by
    rcases accepted_cases hstages h with hsame | ⟨p', event, n, hp', hnew⟩
    · rw [acceptedOf, acceptedOf, hsame]
    · have hne : p' ≠ p := fun heq => hl.2 n (by rw [hp', heq])
      simp [acceptedOf, hnew, hne]
  have hsubmitted : s'.submittedOf p = s.submittedOf p := by
    rcases submits_cases h with hsame | ⟨p', event, result, n, hp', hnew⟩
    · rw [submittedOf, submittedOf, hsame]
    · have hne : p' ≠ p := fun heq => hl.2 n (by rw [hp', heq])
      simp [submittedOf, hnew, hne]
  rw [haccepted, hsubmitted, submitAt_of_other h hl, activity_of_other h hl.2]
  exact haccounts.perProducer p

/-- A step of a producer that neither accepts an event nor completes a call with true. -/
private theorem perProducer_next (haccounts : s.Accounts) {p : P} {stage : SubmitStage}
    {submits : List (P × Event × SubmitResult)}
    (hsubmits : submits = s.submits ∨ ∃ event result, result ≠ .returned true ∧
      submits = s.submits ++ [(p, event, result)])
    (hpending : pending stage (s.queue.activity (.producer p)) =
      pending (s.submitAt p) (s.queue.activity (.producer p))) :
    s.acceptedOf p =
      (submits.filter (fun x => x.1 = p ∧ x.2.2 = .returned true)).map (fun x => x.2.1) ++
        pending (Function.update s.submitAt p stage p) (s.queue.activity (.producer p)) := by
  have hsame : (submits.filter (fun x => x.1 = p ∧ x.2.2 = .returned true)).map
      (fun x => x.2.1) = s.submittedOf p := by
    rcases hsubmits with rfl | ⟨event, result, hresult, rfl⟩
    · rfl
    · simp [submittedOf, hresult]
  rw [hsame, Function.update_self, hpending]
  exact haccounts.perProducer p

private theorem perProducer_step (hstages : s.Stages) (haccounts : s.Accounts)
    (h : RecorderMove s l s') (p : P) : s'.acceptedOf p =
      s'.submittedOf p ++ pending (s'.submitAt p) (s'.queue.activity (.producer p)) := by
  by_cases hcall : ∃ event, l = .submit p event
  · obtain ⟨event, rfl⟩ := hcall
    cases h with
    | submitCalled houtside =>
      refine perProducer_next haccounts (Or.inl rfl) ?_
      cases hat : s.submitAt p with
      | outside => rfl
      | returned result => rfl
      | _ => exact absurd (by rw [hat]; trivial) houtside
  by_cases hrun : ∃ n, l = .run (.producer p) n
  · obtain ⟨n, rfl⟩ := hrun
    have hbefore := haccounts.perProducer p
    cases h with
    | submitThrows hat =>
      exact perProducer_next haccounts (Or.inr ⟨_, _, by simp, rfl⟩) (by rw [hat]; rfl)
    | submitPasses hat => exact perProducer_next haccounts (Or.inl rfl) (by rw [hat]; rfl)
    | submitStopped hat => exact perProducer_next haccounts (Or.inl rfl) (by rw [hat]; rfl)
    | submitRejects hat =>
      exact perProducer_next haccounts (Or.inr ⟨_, _, by simp, rfl⟩) (by rw [hat]; rfl)
    | pushAccepted hat hresult =>
      exact perProducer_next haccounts (Or.inl rfl) (by rw [hat, hresult]; rfl)
    | pushRefused hat hresult =>
      exact perProducer_next haccounts (Or.inl rfl) (by rw [hat, hresult]; rfl)
    | pushCalled hat _ hqueue =>
      simp only [acceptedOf, submittedOf] at hbefore ⊢
      rw [accepted_call hqueue, hbefore, Function.update_self, activity_call hqueue,
        Function.update_self, hat]
      rfl
    | pushRuns hat hqueue =>
      have hsubmit := hstages.submit p
      rw [hat] at hsubmit
      have hmove := QueueState.step_move hqueue
      have hpush := hsubmit.push hmove.inCall
      simp only [acceptedOf, submittedOf] at hbefore ⊢
      rw [hat, hpush] at hbefore
      rcases (hmove.of_push hpush).2.2 with ⟨hsame, haccepted, _⟩ | ⟨hresult, haccepted, _⟩ |
        ⟨_, hresult, haccepted, _⟩
      · rw [haccepted, hbefore, hat, hsame, hpush]
      · rw [haccepted, hbefore, hat, hresult, Function.update_self]
        rfl
      · rw [haccepted, List.filter_append, List.map_append, hbefore, hat, hresult,
          Function.update_self]
        simp [pending]
    | submitCounts hat =>
      simp only [acceptedOf, submittedOf, submitReturns] at hbefore ⊢
      rw [hbefore, List.filter_append, List.map_append]
      simp [hat, pending]
  · exact perProducer_other hstages haccounts h ⟨not_exists.mp hcall, not_exists.mp hrun⟩

private theorem byProducers_step (hstages : s.Stages) (haccounts : s.Accounts)
    (h : RecorderMove s l s') : ∀ x ∈ s'.queue.accepted, ∃ p, x.1 = .producer p := by
  rcases accepted_cases hstages h with hsame | ⟨p, event, _, _, hnew⟩
  · exact hsame ▸ haccounts.byProducers
  · intro x hmem
    rw [hnew] at hmem
    rcases List.mem_append.mp hmem with hold | hlast
    · exact haccounts.byProducers x hold
    · exact ⟨p, by rw [List.mem_singleton.mp hlast]⟩

private theorem counters_step (haccounts : s.Accounts) (h : RecorderMove s l s') :
    s'.submitted = UInt64.ofNat (s'.results true) ∧
      s'.rejected = UInt64.ofNat (s'.results false) := by
  have hsubmitted := haccounts.submitted
  have hrejected := haccounts.rejected
  cases h with
  | submitThrows => simp [results, submitReturns, hsubmitted, hrejected]
  | submitRejects => simp [results, submitReturns, hsubmitted, hrejected, UInt64.ofNat_add]
  | submitCounts => simp [results, submitReturns, hsubmitted, hrejected, UInt64.ofNat_add]
  | _ => exact ⟨hsubmitted, hrejected⟩

/-- Every step keeps the accounts. -/
theorem Accounts.step (haccounts : s.Accounts) (hstages : s.Stages) (h : RecorderMove s l s') :
    s'.Accounts where
  perProducer := perProducer_step hstages haccounts h
  byProducers := byProducers_step hstages haccounts h
  submitted := (counters_step haccounts h).1
  rejected := (counters_step haccounts h).2

theorem Accounts.new {path : String} {queueCapacity : ℕ} {writerOptions : WriterOptions}
    {device : Device} {now : UInt64}
    (h : AsyncRecorder.new path queueCapacity writerOptions device now = .ok s) : s.Accounts := by
  obtain ⟨writer, _, rfl⟩ := AsyncRecorder.new_eq h
  exact ⟨fun _ => rfl, by simp [QueueState.new], rfl, rfl⟩

end AsyncRecorder

end Hpblr
