import Mathlib.Data.Set.Finite.Basic
import Hpblr.Recorder.Stopping

/-!
# Nothing is lost

Once `stop` and all calls of `submit` have completed, every accepted event is accounted for. If the
writer has not failed, the file reads back as the accepted events; if it has, every `stop` throws.
-/

namespace Hpblr

/-- Two lists of tagged values that agree tag by tag are permutations of each other. -/
theorem perm_of_filter_eq {α β : Type*} [DecidableEq α] [DecidableEq β] {xs ys : List (α × β)}
    (h : ∀ a, (xs.filter (fun x => x.1 = a)).map Prod.snd =
      (ys.filter (fun x => x.1 = a)).map Prod.snd) : xs.Perm ys := by
  have hcount (zs : List (α × β)) (a : α) (b : β) :
      zs.count (a, b) = ((zs.filter (fun x => x.1 = a)).map Prod.snd).count b := by
    induction zs with
    | nil => rfl
    | cons z zs ih =>
      by_cases htag : z.1 = a
      · simp [List.count_cons, ih, htag, Prod.ext_iff]
      · simp [ih, htag, Prod.ext_iff]
  rw [List.perm_iff_count]
  rintro ⟨a, b⟩
  rw [hcount, hcount, h]

variable {P : Type*} [DecidableEq P]

/-- The event that a producer at this stage is submitting. -/
def SubmitStage.event : SubmitStage → Option Event
  | .outside | .returned _ => none
  | .checking event | .loading event | .pushing event | .rejecting event | .counting event =>
    some event

/-- The event of a call of `submit`. -/
def RecorderLabel.event : RecorderLabel P → Option Event
  | .submit _ event => some event
  | _ => none

namespace AsyncRecorder

/-! ## What is submitted -/

/-- Every event submitted so far has the property. -/
structure OnlySubmits (s : AsyncRecorder P) (C : Event → Prop) : Prop where
  underWay : ∀ p event, (s.submitAt p).event = some event → C event
  completed : ∀ x ∈ s.submits, C x.2.1

variable {s s₀ s' : AsyncRecorder P} {C : Event → Prop} {l : RecorderLabel P} {now : UInt64}

/-- A producer that gets to another stage submits the event of that stage. -/
private theorem OnlySubmits.update (honly : s.OnlySubmits C) {p : P} {stage : SubmitStage}
    (hstage : ∀ event, stage.event = some event → C event) (p' : P) (event : Event)
    (hat : (Function.update s.submitAt p stage p').event = some event) : C event := by
  by_cases heq : p' = p
  · subst heq
    rw [Function.update_self] at hat
    exact hstage event hat
  · rw [Function.update_of_ne heq] at hat
    exact honly.underWay p' event hat

/-- A producer gets from one stage to another of the same call. -/
private theorem OnlySubmits.next (honly : s.OnlySubmits C) {p : P} {stage stage' : SubmitStage}
    (hat : s.submitAt p = stage) (hnext : stage'.event = stage.event) :
    (s.producerAt p stage').OnlySubmits C where
  underWay := honly.update fun event hevent =>
    honly.underWay p event (by rw [hat, ← hnext, hevent])
  completed := honly.completed

/-- A call completes. -/
private theorem OnlySubmits.returns (honly : s.OnlySubmits C) {p : P} {stage : SubmitStage}
    {event : Event} (hat : s.submitAt p = stage) (hevent : stage.event = some event)
    (result : SubmitResult) : (s.submitReturns p event result).OnlySubmits C where
  underWay := honly.update (by simp [SubmitStage.event])
  completed := by
    intro x hmem
    rcases List.mem_append.mp hmem with hold | hnew
    · exact honly.completed x hold
    · rw [List.mem_singleton.mp hnew]
      exact honly.underWay p event (by rw [hat, hevent])

/-- A step submits at most the event of its label. -/
theorem OnlySubmits.step (honly : s.OnlySubmits C)
    (hlabel : ∀ event ∈ l.event, C event) (h : RecorderMove s l s') :
    s'.OnlySubmits C := by
  cases h with
  | @submitCalled p event =>
    refine ⟨honly.update fun event' hevent => ?_, honly.completed⟩
    rw [← Option.some.inj hevent]
    exact hlabel event rfl
  | submitThrows hat => exact honly.returns hat rfl _
  | submitPasses hat => exact honly.next hat rfl
  | submitStopped hat => exact honly.next hat rfl
  | @pushCalled p event _ _ hat =>
    have hnext : (s.producerAt p (.pushing event)).OnlySubmits C := honly.next hat rfl
    exact ⟨hnext.underWay, hnext.completed⟩
  | pushAccepted hat => exact honly.next hat rfl
  | pushRefused hat => exact honly.next hat rfl
  | submitRejects hat =>
    have hreturns := honly.returns hat rfl (.returned false)
    exact ⟨hreturns.underWay, hreturns.completed⟩
  | submitCounts hat =>
    have hreturns := honly.returns hat rfl (.returned true)
    exact ⟨hreturns.underWay, hreturns.completed⟩
  | _ => exact ⟨honly.underWay, honly.completed⟩

/-- A property of the events of all calls in a run is a property of all submitted events. -/
theorem onlySubmits_of_run {path : String} {queueCapacity : ℕ} {writerOptions : WriterOptions}
    {device : Device} {labels : List (RecorderLabel P)}
    (hnew : AsyncRecorder.new path queueCapacity writerOptions device now = .ok s₀)
    (hrun : Transition.run step s₀ labels = some s)
    (hlabels : ∀ l ∈ labels, ∀ event ∈ l.event, C event) : s.OnlySubmits C := by
  have hstart : s₀.OnlySubmits C := by
    obtain ⟨writer, _, rfl⟩ := AsyncRecorder.new_eq hnew
    exact ⟨by simp [SubmitStage.event], by simp⟩
  exact Transition.run_invariant_along (I := fun s => s.OnlySubmits C)
    (fun honly hlabel hstep => honly.step hlabel (step_move hstep)) hstart
    (Transition.along_of_forall hlabels) hrun

/-! ## What is accepted -/

/-- All calls of `submit` have completed. -/
def SubmitsCompleted (s : AsyncRecorder P) : Prop := ∀ p, ¬ (s.submitAt p).InCall

/-- The calls of `submit` that returned true, with their producers. -/
def confirmed (s : AsyncRecorder P) : List (RecorderThread P × Event) :=
  (s.submits.filter (fun x => x.2.2 = .returned true)).map (fun x => (.producer x.1, x.2.1))

/-- The queue has accepted the event of the call under way, and `submitted_` does not count it
yet. -/
def AwaitsCount (s : AsyncRecorder P) (p : P) : Prop :=
  pending (s.submitAt p) (s.queue.activity (.producer p)) ≠ []

omit [DecidableEq P] in
theorem pending_of_completed (hcompleted : s.SubmitsCompleted) (p : P) (a : Activity Event) :
    pending (s.submitAt p) a = [] := by
  have houtside := hcompleted p
  cases hat : s.submitAt p with
  | outside => rfl
  | returned result => rfl
  | _ => exact absurd (by rw [hat]; trivial) houtside

omit [DecidableEq P] in
/-- A call has at most one event. -/
theorem length_pending (stage : SubmitStage) (a : Activity Event) :
    (pending stage a).length ≤ 1 := by
  unfold pending
  split
  · exact le_rfl
  · split <;> simp
  · simp

/-- Each producer's accepted events are those of its calls that returned true, in their order. -/
theorem Accounts.acceptedOf_eq (haccounts : s.Accounts) (hcompleted : s.SubmitsCompleted) (p : P) :
    s.acceptedOf p = s.submittedOf p := by
  rw [haccounts.perProducer p, pending_of_completed hcompleted, List.append_nil]

/-- Only finitely many calls wait to be counted. -/
theorem Accounts.finite_awaitsCount (haccounts : s.Accounts) : {p | s.AwaitsCount p}.Finite := by
  have hinjective : Function.Injective (RecorderThread.producer : P → RecorderThread P) :=
    fun p p' heq => RecorderThread.producer.inj heq
  refine ((s.queue.accepted.map Prod.fst).finite_toSet.preimage hinjective.injOn).subset ?_
  intro p hp
  obtain ⟨event, hevent⟩ := List.exists_mem_of_ne_nil _ hp
  have hmem : event ∈ s.acceptedOf p := by
    rw [haccounts.perProducer p]
    exact List.mem_append_right _ hevent
  obtain ⟨x, hx, _⟩ := List.mem_map.mp hmem
  obtain ⟨haccepted, htag⟩ := List.mem_filter.mp hx
  exact List.mem_map.mpr ⟨x, haccepted, by simpa using htag⟩

/-- The events of some producers, each tagged with its producer. -/
def tagged (producers : List P) (f : P → List Event) : List (RecorderThread P × Event) :=
  producers.flatMap (fun p => (f p).map (fun event => (.producer p, event)))

/-- The events tagged with a producer are its own. -/
private theorem filter_tagged {producers : List P} (hnodup : producers.Nodup) (f : P → List Event)
    (p : P) : ((tagged producers f).filter (fun x => x.1 = .producer p)).map Prod.snd =
      if p ∈ producers then f p else [] := by
  induction producers with
  | nil => rfl
  | cons a producers ih =>
    obtain ⟨hnotMem, hnodup⟩ := List.nodup_cons.mp hnodup
    have hrest := ih hnodup
    rw [tagged, List.flatMap_cons, List.filter_append, List.map_append, ← tagged, hrest]
    by_cases heq : a = p
    · subst heq
      simp [hnotMem, List.filter_map, Function.comp_def]
    · simp [heq, Ne.symm heq, List.filter_map, Function.comp_def]

/-- The queue has accepted the events of the calls that returned true, and those of the calls that
wait to be counted, each once. -/
theorem Accounts.accepted_perm_pending (haccounts : s.Accounts) :
    ∃ waiting : Finset P, (∀ p, p ∈ waiting ↔ s.AwaitsCount p) ∧
      s.queue.accepted.Perm (s.confirmed ++ tagged waiting.toList fun p =>
        pending (s.submitAt p) (s.queue.activity (.producer p))) := by
  have hmem (p : P) : p ∈ haccounts.finite_awaitsCount.toFinset ↔ s.AwaitsCount p := by
    rw [Set.Finite.mem_toFinset]
    exact Iff.rfl
  refine ⟨haccounts.finite_awaitsCount.toFinset, hmem, perm_of_filter_eq fun t => ?_⟩
  have hother (ht : ∀ p, t ≠ .producer p) (xs : List (RecorderThread P × Event))
      (hproducers : ∀ x ∈ xs, ∃ p, x.1 = .producer p) : xs.filter (fun x => x.1 = t) = [] := by
    rw [List.filter_eq_nil_iff]
    intro x hx
    obtain ⟨p, hp⟩ := hproducers x hx
    simpa [hp] using (ht p).symm
  have hconfirmed : ∀ x ∈ s.confirmed, ∃ p, x.1 = .producer p := by
    intro x hx
    obtain ⟨y, _, rfl⟩ := List.mem_map.mp hx
    exact ⟨_, rfl⟩
  have htagged (producers : List P) (f : P → List Event) :
      ∀ x ∈ tagged producers f, ∃ p, x.1 = .producer p := by
    intro x hx
    obtain ⟨p, _, hp⟩ := List.mem_flatMap.mp hx
    obtain ⟨_, _, rfl⟩ := List.mem_map.mp hp
    exact ⟨p, rfl⟩
  rw [List.filter_append, List.map_append]
  cases t with
  | producer p =>
    have hsubmitted : (s.confirmed.filter (fun x => x.1 = .producer p)).map Prod.snd =
        s.submittedOf p := by
      simp [confirmed, submittedOf, List.filter_map, List.filter_filter, Function.comp_def]
    rw [hsubmitted, filter_tagged (Finset.nodup_toList _)]
    refine (haccounts.perProducer p).trans ?_
    by_cases hwaits : s.AwaitsCount p
    · rw [if_pos (Finset.mem_toList.mpr ((hmem p).mpr hwaits))]
    · rw [if_neg fun hp => hwaits ((hmem p).mp (Finset.mem_toList.mp hp)), not_not.mp hwaits]
  | writer =>
    rw [hother (by simp) _ haccounts.byProducers, hother (by simp) _ hconfirmed,
      hother (by simp) _ (htagged _ _)]
    rfl
  | stopper =>
    rw [hother (by simp) _ haccounts.byProducers, hother (by simp) _ hconfirmed,
      hother (by simp) _ (htagged _ _)]
    rfl

/-- The queue has accepted the calls that returned true, each once. -/
theorem Accounts.accepted_perm (haccounts : s.Accounts) (hcompleted : s.SubmitsCompleted) :
    s.queue.accepted.Perm s.confirmed := by
  obtain ⟨waiting, hwaiting, hperm⟩ := haccounts.accepted_perm_pending
  have hnone : waiting = ∅ := by
    rw [Finset.eq_empty_iff_forall_notMem]
    exact fun p hp => (hwaiting p).mp hp (pending_of_completed hcompleted p _)
  simpa [hnone, tagged] using hperm

omit [DecidableEq P] in
theorem length_confirmed (s : AsyncRecorder P) : s.confirmed.length = s.results true := by
  simp [confirmed, results, List.countP_eq_length_filter]

omit [DecidableEq P] in
/-- Every completed call returned true, returned false or threw. -/
theorem length_submits (s : AsyncRecorder P) :
    s.submits.length = s.results true + s.results false + s.thrown := by
  unfold results thrown
  induction s.submits with
  | nil => rfl
  | cons x submits ih =>
    rw [List.length_cons, ih]
    rcases x with ⟨p, event, accepted | e⟩
    · cases accepted <;> simp <;> omega
    · simp
      omega

/-! ## What is in the file -/

/-- A reader of the file returns these events and then `std::nullopt`. -/
def ReadsBack (s : AsyncRecorder P) (path : String) (events : List Event) : Prop :=
  ∃ r, BinaryLogReader.new path (IFStream.ofBytes s.writer.out.content) = .ok r ∧
    ∀ further, r.replay (events.length + 1 + further) = (events, .endOfLog)

/-- At the end of the background thread, the accepted events are the appended ones, the one on
which it failed and those left in the queue. -/
theorem Recording.accepted_eq (hrecording : s.Recording now) (hended : s.runAt = .ended) :
    s.queue.accepted.map Prod.snd = s.appended ++ lost s.failure ++ s.queue.queue := by
  have hhanded := hrecording.writing.handed
  rw [hended] at hhanded
  rw [hrecording.queue.channel.fifo, hhanded]
  rfl

omit [DecidableEq P] in
/-- If the writer has not failed, the appended events can be read back. -/
theorem Writing.readsBack (hwriting : s.Writing now) (hended : s.runAt = .ended)
    (hfailure : s.failure = none) (path : String)
    (hseverity : ∀ event ∈ s.appended, event.severity.IsEnumerator) :
    s.ReadsBack path s.appended := by
  rw [ReadsBack, hwriting.content_of_ended hended hfailure]
  exact replay_encodeRecords path 0 now 0
    (fun event hmem => ⟨hseverity event hmem, hwriting.fits event hmem⟩)

/-! ## The results -/

/-- The events of all calls of `submit` in a run have one of the six severities. -/
def OnlyEnumerators (labels : List (RecorderLabel P)) : Prop :=
  ∀ l ∈ labels, ∀ event ∈ l.event, event.severity.IsEnumerator

/-- An accepted event is that of a call that returned true or of the call under way. -/
theorem Accounts.accepted_mem (haccounts : s.Accounts) {x : RecorderThread P × Event}
    (hmem : x ∈ s.queue.accepted) : ∃ p, x.1 = .producer p ∧
      ((p, x.2, .returned true) ∈ s.submits ∨ (s.submitAt p).event = some x.2) := by
  obtain ⟨p, hp⟩ := haccounts.byProducers x hmem
  have hown : x.2 ∈ s.acceptedOf p :=
    List.mem_map.mpr ⟨x, List.mem_filter.mpr ⟨hmem, by simp [hp]⟩, rfl⟩
  rw [haccounts.perProducer p] at hown
  refine ⟨p, hp, ?_⟩
  rcases List.mem_append.mp hown with hcompleted | hpending
  · left
    obtain ⟨⟨p', event, result⟩, hy, heq⟩ := List.mem_map.mp hcompleted
    obtain ⟨hsubmits, htag⟩ := List.mem_filter.mp hy
    obtain ⟨rfl, rfl⟩ : p' = p ∧ result = .returned true := by simpa using htag
    rwa [← heq]
  · right
    unfold pending at hpending
    split at hpending
    · rename_i event _ hat
      rw [List.mem_singleton.mp hpending, hat]
      rfl
    · rename_i event _ hat
      split at hpending
      · rw [List.mem_singleton.mp hpending, hat]
        rfl
      · cases hpending
    · cases hpending

/-- A property of all submitted events is one of the accepted events. -/
theorem Accounts.accepted_only (haccounts : s.Accounts) (honly : s.OnlySubmits C) :
    ∀ event ∈ s.queue.accepted.map Prod.snd, C event := by
  intro event hmem
  obtain ⟨x, hx, rfl⟩ := List.mem_map.mp hmem
  obtain ⟨p, _, hcompleted | hunderWay⟩ := haccounts.accepted_mem hx
  · exact honly.completed _ hcompleted
  · exact honly.underWay p x.2 hunderWay

/-- When the background thread has ended and the writer has not failed, the file holds the accepted
events. -/
theorem Recording.file_of_ended (hrecording : s.Recording now) (hended : s.runAt = .ended)
    (hfailure : s.failure = none) :
    s.queue.queue = [] ∧ s.queue.accepted.map Prod.snd = s.appended := by
  have hempty := ((hrecording.writing.running hfailure).drained (Or.inr hended)).2
  refine ⟨hempty, ?_⟩
  rw [hrecording.accepted_eq hended, hfailure, hempty]
  simp [lost]

/-- When `stop` has completed and the writer has not failed, the file holds the accepted events. -/
theorem Recording.file (hrecording : s.Recording now) (hstopped : s.stops ≠ [])
    (hfailure : s.failure = none) :
    s.runAt = .ended ∧ s.queue.queue = [] ∧ s.queue.accepted.map Prod.snd = s.appended := by
  obtain ⟨r, hmem⟩ := List.exists_mem_of_ne_nil _ hstopped
  have hended := (hrecording.stopping.stops r hmem).1
  exact ⟨hended, hrecording.file_of_ended hended hfailure⟩

/-- So the accepted events can be read back. -/
theorem Recording.readsBack (hrecording : s.Recording now) (hstopped : s.stops ≠ [])
    (hfailure : s.failure = none)
    (honly : s.OnlySubmits (fun event => event.severity.IsEnumerator)) (path : String) :
    s.ReadsBack path (s.queue.accepted.map Prod.snd) := by
  obtain ⟨hended, _, haccepted⟩ := hrecording.file hstopped hfailure
  have hvalid := hrecording.accounts.accepted_only honly
  rw [haccepted] at hvalid ⊢
  exact hrecording.writing.readsBack hended hfailure path hvalid

instance [Fintype P] (s : AsyncRecorder P) : Decidable s.SubmitsCompleted :=
  inferInstanceAs (Decidable (∀ p, ¬ (s.submitAt p).InCall))

/-- One producer submits, `stop` is called, and a further submission comes too late. -/
def lateSubmit : List (RecorderLabel Unit) :=
  .submit () {} :: List.replicate 5 (.run (.producer ()) none) ++
  .stop :: List.replicate 5 (.run .stopper none) ++
  .submit () { sequence := 1 } :: List.replicate 3 (.run (.producer ()) none) ++
  List.replicate 9 (.run .writer none) ++ List.replicate 2 (.run .stopper none)

/-- **No loss, no duplication, order kept.** For any producers, any capacity and any interleaving
of submissions, background thread and `stop`, with events of the six severities: once `stop` and
all calls of `submit` have completed and the writer has not failed, the file reads back as the
events that the queue accepted, in this order. These are, producer by producer and in their order,
the events of the calls that returned true, each once and no others. The statistics agree. -/
theorem stop_no_loss {path : String} {queueCapacity : ℕ} {writerOptions : WriterOptions}
    {device : Device} {labels : List (RecorderLabel P)}
    (hnew : AsyncRecorder.new path queueCapacity writerOptions device now = .ok s₀)
    (hrun : Transition.run step s₀ labels = some s) (hseverity : OnlyEnumerators labels)
    (hfailure : s.failure = none) (hstopped : s.stops ≠ []) (hcompleted : s.SubmitsCompleted) :
    s.ReadsBack path (s.queue.accepted.map Prod.snd) ∧
    (∀ p, s.acceptedOf p = s.submittedOf p) ∧
    s.queue.accepted.Perm s.confirmed ∧
    s.stats = {
      submitted := UInt64.ofNat (s.results true)
      rejected := UInt64.ofNat (s.results false)
      written := UInt64.ofNat (s.results true)
      queueDepth := 0 } := by
  have hrecording := recording_of_run hnew hrun
  obtain ⟨hended, hempty, haccepted⟩ := hrecording.file hstopped hfailure
  have hperm := hrecording.accounts.accepted_perm hcompleted
  refine ⟨?_, hrecording.accounts.acceptedOf_eq hcompleted, hperm, ?_⟩
  · exact hrecording.readsBack hstopped hfailure (onlySubmits_of_run hnew hrun hseverity) path
  · have hlength : s.appended.length = s.results true := by
      rw [← haccepted, List.length_map, hperm.length_eq, length_confirmed]
    have hwritten := hrecording.writing.written
    rw [hended, hlength] at hwritten
    simp only [uncounted, UInt64.add_zero] at hwritten
    simp [stats, hrecording.accounts.submitted, hrecording.accounts.rejected, hwritten, hempty]

/-- The late submission is rejected and not in the file. -/
theorem stop_no_loss_late : ∃ s₀ s : AsyncRecorder Unit,
    AsyncRecorder.new "log" 8 {} .reliable 0 = .ok s₀ ∧
    Transition.run step s₀ lateSubmit = some s ∧ s.ReadsBack "log" [{}] ∧
    s.stats = { submitted := 1, rejected := 1, written := 1, queueDepth := 0 } := by
  obtain ⟨s₀, s, hnew, hrun, hfailure, hstopped, hcompleted, haccepted, htrue, hfalse⟩ :=
    exists_run "log" 8 {} .reliable 0 lateSubmit
      (fun s => s.failure = none ∧ s.stops ≠ [] ∧ s.SubmitsCompleted ∧
        s.queue.accepted.map Prod.snd = [{}] ∧ s.results true = 1 ∧ s.results false = 1)
      (by decide +kernel)
  obtain ⟨hreads, _, _, hstats⟩ :=
    stop_no_loss hnew hrun (by unfold OnlyEnumerators; decide) hfailure hstopped hcompleted
  rw [haccepted] at hreads
  rw [htrue, hfalse] at hstats
  exact ⟨s₀, s, hnew, hrun, hreads, hstats⟩

/-- One if the background thread ended on a failing `append`, and zero otherwise. -/
def failedAppends (s : AsyncRecorder P) : UInt64 :=
  match s.failure with
  | some (.append _) => 1
  | _ => 0

/-- **No silent loss.** For any producers and any interleaving, and a writer that fails anywhere or
nowhere, with events of the six severities, once `stop` and all calls of `submit` have completed:
if some `stop` returned normally, the file reads back as the accepted events, which are those of
the calls that returned true; if the writer failed, every completed `stop` threw. Every accepted
event is written, queued or the one on which `append` failed, and every completed call is counted
or threw. -/
theorem stop_no_silent_loss {path : String} {queueCapacity : ℕ} {writerOptions : WriterOptions}
    {device : Device} {labels : List (RecorderLabel P)}
    (hnew : AsyncRecorder.new path queueCapacity writerOptions device now = .ok s₀)
    (hrun : Transition.run step s₀ labels = some s) (hseverity : OnlyEnumerators labels)
    (hstopped : s.stops ≠ []) (hcompleted : s.SubmitsCompleted) :
    (.returned ∈ s.stops → s.ReadsBack path (s.queue.accepted.map Prod.snd) ∧
      s.queue.accepted.Perm s.confirmed) ∧
    (s.failure ≠ none → ∀ r ∈ s.stops, ∃ e, r = .threw e) ∧
    s.stats.submitted = s.stats.written + s.stats.queueDepth + s.failedAppends ∧
    s.submits.length = s.results true + s.results false + s.thrown ∧
    s.stats.submitted = UInt64.ofNat (s.results true) ∧
    s.stats.rejected = UInt64.ofNat (s.results false) := by
  have hrecording := recording_of_run hnew hrun
  have hperm := hrecording.accounts.accepted_perm hcompleted
  refine ⟨fun hreturned => ?_, fun hfailure r hmem => ?_, ?_, ?_, hrecording.accounts.submitted,
    hrecording.accounts.rejected⟩
  · have hfailure := (hrecording.stopping.stops _ hreturned).2.mp rfl
    exact ⟨hrecording.readsBack hstopped hfailure (onlySubmits_of_run hnew hrun hseverity) path,
      hperm⟩
  · cases r with
    | returned => exact absurd ((hrecording.stopping.stops _ hmem).2.mp rfl) hfailure
    | threw e => exact ⟨e, rfl⟩
  · obtain ⟨r, hmem⟩ := List.exists_mem_of_ne_nil _ hstopped
    have hended := (hrecording.stopping.stops r hmem).1
    have hlength := congrArg List.length (hrecording.accepted_eq hended)
    rw [List.length_map, hperm.length_eq, length_confirmed, List.length_append,
      List.length_append] at hlength
    have hlost : s.failedAppends = UInt64.ofNat (lost s.failure).length := by
      unfold failedAppends
      rcases s.failure with _ | _ | _ <;> rfl
    have hwritten := hrecording.writing.written
    rw [hended] at hwritten
    simp only [uncounted, UInt64.add_zero] at hwritten
    simp only [stats, hrecording.accounts.submitted, hlength, hwritten, hlost, UInt64.ofNat_add]
    ac_rfl
  · exact s.length_submits

/-- One producer submits before `stop` is called, with a background thread that fails. -/
def flushFailure : List (RecorderLabel Unit) :=
  .submit () {} :: List.replicate 5 (.run (.producer ()) none) ++
  .stop :: List.replicate 5 (.run .stopper none) ++
  List.replicate 14 (.run .writer none) ++ List.replicate 2 (.run .stopper none)

/-- The final flush fails: the accepted event is counted as written, and `stop` throws. -/
theorem stop_no_silent_loss_flush : ∃ s₀ s : AsyncRecorder Unit,
    AsyncRecorder.new "log" 8 {} .full 0 = .ok s₀ ∧
    Transition.run step s₀ flushFailure = some s ∧
    (∀ r ∈ s.stops, ∃ e, r = .threw e) ∧ s.submits.length = 1 ∧
    s.stats.submitted = s.stats.written + s.stats.queueDepth + 0 := by
  obtain ⟨s₀, s, hnew, hrun, hfailure, hstopped, hcompleted, htrue, hfalse, hthrown⟩ :=
    exists_run "log" 8 {} .full 0 flushFailure
      (fun s => s.failure = some .flush ∧ s.stops ≠ [] ∧ s.SubmitsCompleted ∧
        s.results true = 1 ∧ s.results false = 0 ∧ s.thrown = 0)
      (by decide +kernel)
  obtain ⟨_, hthrows, hsubmitted, hlength, _⟩ :=
    stop_no_silent_loss hnew hrun (by unfold OnlyEnumerators; decide) hstopped hcompleted
  rw [failedAppends, hfailure] at hsubmitted
  rw [htrue, hfalse, hthrown] at hlength
  exact ⟨s₀, s, hnew, hrun, hthrows (by rw [hfailure]; simp), hlength, hsubmitted⟩

end AsyncRecorder

end Hpblr
