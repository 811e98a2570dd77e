import Hpblr.Apps.Sequences
import Hpblr.Reproducibility

/-!
# Where the recorded events come from

Each producer has a generator of its own and hands its events over one by one, so the events of a
producer that the queue has accepted are what its generator returns for their numbers. A recording
is a merge of these streams, and a recording by one producer can be made again.
-/

namespace Hpblr

variable {R : Type*}

namespace EventGenerator

variable {engine : RandomEngine R}

theorem run_cons (g : EventGenerator R) (clock : ℕ → UInt64) (sequence : UInt64)
    (sequences : List UInt64) :
    g.run engine clock (sequence :: sequences) =
      ((g.next engine sequence (clock 0)).1 ::
        ((g.next engine sequence (clock 0)).2.run engine (fun k => clock (k + 1)) sequences).1,
      ((g.next engine sequence (clock 0)).2.run engine (fun k => clock (k + 1)) sequences).2) := rfl

/-- One more call after some calls. -/
theorem run_concat {g g' g'' : EventGenerator R} {clock : ℕ → UInt64} {sequences : List UInt64}
    {results : List (Except Exception Event)} {result : Except Exception Event}
    {sequence now : UInt64} (hrun : g.run engine clock sequences = (results, g'))
    (hnext : g'.next engine sequence now = (result, g'')) :
    ∃ clock', g.run engine clock' (sequences ++ [sequence]) = (results ++ [result], g'') := by
  induction sequences generalizing g clock results with
  | nil =>
    obtain ⟨rfl, rfl⟩ := Prod.mk.inj hrun
    exact ⟨fun _ => now, by simp [run, hnext]⟩
  | cons first sequences ih =>
    rw [run_cons, Prod.mk.injEq] at hrun
    obtain ⟨hresults, hleft⟩ := hrun
    obtain ⟨clock', hrun'⟩ := ih (Prod.ext rfl hleft)
    refine ⟨fun k => k.casesOn (clock 0) clock', ?_⟩
    rw [List.cons_append, run_cons, ← hresults]
    have hevents := congrArg Prod.fst hrun'
    have hlast := congrArg Prod.snd hrun'
    exact Prod.ext (congrArg (List.cons _) hevents) hlast

/-- The front part of a run is the run of the front part. -/
theorem run_take (g : EventGenerator R) (clock : ℕ → UInt64) (sequences : List UInt64) (n : ℕ) :
    (g.run engine clock (sequences.take n)).1 = (g.run engine clock sequences).1.take n := by
  induction sequences generalizing g clock n with
  | nil => simp [run]
  | cons first sequences ih =>
    cases n with
    | zero => simp [run]
    | succ n => simp [run_cons, ih]

/-- Two runs of one generator for the same numbers return events that agree except for the clock. -/
theorem agree_of_run {g : EventGenerator R} {clock clock' : ℕ → UInt64} {sequences : List UInt64}
    {events events' : List Event} (h : (g.run engine clock sequences).1 = events.map .ok)
    (h' : (g.run engine clock' sequences).1 = events'.map .ok) :
    List.Forall₂ AgreeExceptClock events events' := by
  induction sequences generalizing g clock clock' events events' with
  | nil =>
    rw [run, eq_comm, List.map_eq_nil_iff] at h h'
    rw [h, h']
    exact .nil
  | cons first sequences ih =>
    obtain ⟨hresult, hleft⟩ := next_agree engine g first (clock 0) (clock' 0)
    cases events with
    | nil => simp [run_cons] at h
    | cons event events =>
      cases events' with
      | nil => simp [run_cons] at h'
      | cons event' events' =>
        simp only [run_cons, List.map_cons, List.cons.injEq] at h h'
        rw [h.1, h'.1] at hresult
        rw [← hleft] at h'
        exact .cons hresult (ih h.2 h'.2)

/-- What the configuration and the number of an event say about it. -/
structure Configured (config : GeneratorConfig) (event : Event) : Prop where
  producerId : event.producerId = config.producerId
  type : event.type = (config.eventTypeBase.toUInt64 + event.sequence % 8).toUInt16
  severity : event.severity = ⟨(event.sequence % 6).toUInt16⟩
  payload : event.payload.length = config.payloadSize.toNat

/-- The events that a run returns are as the generator is configured. -/
theorem configured_of_run {g : EventGenerator R} {clock : ℕ → UInt64} {sequences : List UInt64}
    {events : List Event} (h : (g.run engine clock sequences).1 = events.map .ok) :
    ∀ event ∈ events, Configured g.config event := by
  induction sequences generalizing g clock events with
  | nil =>
    rw [run, eq_comm, List.map_eq_nil_iff] at h
    simp [h]
  | cons first sequences ih =>
    cases events with
    | nil => simp [run_cons] at h
    | cons event events =>
      simp only [run_cons, List.map_cons, List.cons.injEq] at h
      by_cases hsize : g.config.payloadSize > vectorMaxSize
      · rw [next, if_pos hsize] at h
        cases h.1
      · rw [next_eq engine hsize] at h
        cases h.1
        intro event' hmem
        rcases List.mem_cons.mp hmem with rfl | hrest
        · exact ⟨rfl, rfl, rfl, by simp⟩
        · exact ih h.2 event' hrest

end EventGenerator

/-! ## Calls that give their event up -/

namespace AsyncRecorder

variable {P : Type*} [DecidableEq P] {s s' : AsyncRecorder P} {l : RecorderLabel P} {p : P}
  {n : Option (RecorderThread P)}

/-- The steps of the other threads accept nothing of a producer. -/
theorem acceptedOf_of_other (hstages : s.Stages) (h : RecorderMove s l s')
    (hl : ∀ n, l ≠ .run (.producer p) n) : s'.acceptedOf p = s.acceptedOf p := by
  rcases accepted_cases hstages h with hsame | ⟨p', event, n, hp', hnew⟩
  · rw [acceptedOf, acceptedOf, hsame]
  · have hne : p' ≠ p := fun heq => hl n (by rw [hp', heq])
    simp [acceptedOf, hnew, hne]

/-- A step of a producer inside `submit`: its event goes on waiting, is accepted, or the call returns
without true. -/
theorem acceptedOf_of_run (hstages : s.Stages) (h : RecorderMove s (.run (.producer p) n) s') :
    s'.acceptedOf p ++ (s'.waitingAt p).toList = s.acceptedOf p ++ (s.waitingAt p).toList ∨
    s'.acceptedOf p = s.acceptedOf p ∧
      ∃ result, s'.submitAt p = .returned result ∧ result ≠ .returned true := by
  unfold acceptedOf waitingAt
  cases h with
  | submitThrows => exact Or.inr ⟨rfl, _, Function.update_self .., by simp⟩
  | submitPasses hat => exact Or.inl (by simp [producerAt, hat, waiting])
  | submitStopped hat => exact Or.inl (by simp [producerAt, hat, waiting])
  | pushCalled hat _ hqueue =>
    refine Or.inl ?_
    simp [hat, waiting, accepted_call hqueue, activity_call hqueue, QueueCall.entry]
  | pushRuns hat hqueue =>
    have hsubmit := hstages.submit p
    rw [hat] at hsubmit
    have hmove := QueueState.step_move hqueue
    have hpush := hsubmit.push hmove.inCall
    rcases (hmove.of_push hpush).2.2 with ⟨hsame, haccepted, _⟩ | ⟨hresult, haccepted, _⟩ |
      ⟨_, hresult, haccepted, _⟩
    · exact Or.inl (by simp [hsame, haccepted])
    · exact Or.inl (by simp [hat, hresult, haccepted, hpush, waiting])
    · exact Or.inl (by simp [hat, hresult, haccepted, hpush, waiting])
  | pushAccepted hat hresult => exact Or.inl (by simp [producerAt, hat, hresult, waiting])
  | pushRefused hat hresult => exact Or.inl (by simp [producerAt, hat, hresult, waiting])
  | submitRejects => exact Or.inr ⟨rfl, _, Function.update_self .., by simp⟩
  | submitCounts hat => exact Or.inl (by simp [submitReturns, hat, waiting])

end AsyncRecorder

/-! ## The streams of the producers -/

/-- After a failure of the writer, a call of the producer has returned false or thrown, or it has
ended, and it makes no further call. -/
def RecordingState.GaveUp (s : RecordingState R) (p : ℕ) : Prop :=
  s.recorder.failure ≠ none ∧ (s.producerAt p = .ended ∨ s.producerAt p = .submitting ∧
    ∃ result, s.recorder.submitAt p = .returned result ∧ result ≠ .returned true)

namespace RecordingTool

variable {tool : RecordingTool} {engine : RandomEngine R} {s s' s₀ : RecordingState R}
  {l : RecordingLabel} {device : Device} {now now' : UInt64} {p : ℕ}
  {n : Option (RecorderThread ℕ)}

/-- The events are what a new generator of the producer returns for their numbers, and it is left as
the given one. -/
def Yields (tool : RecordingTool) (engine : RandomEngine R) (p : ℕ) (events : List Event)
    (generator : EventGenerator R) : Prop :=
  ∃ clock, (EventGenerator.new engine (tool.generatorConfig p)).run engine clock
    (events.map Event.sequence) = (events.map .ok, generator)

/-- The generator of a producer returns one more event. -/
theorem Yields.next {events : List Event} {event : Event} {generator generator' : EventGenerator R}
    {sequence : UInt64} (h : tool.Yields engine p events generator)
    (hnext : generator.next engine sequence now = (.ok event, generator')) :
    tool.Yields engine p (events ++ [event]) generator' := by
  obtain ⟨clock, hrun⟩ := h
  obtain ⟨_, hsequence, _⟩ := EventGenerator.next_ok engine hnext
  rw [← hsequence] at hnext
  obtain ⟨clock', hrun'⟩ := EventGenerator.run_concat hrun hnext
  exact ⟨clock', by simpa using hrun'⟩

/-- The generator of a producer has returned the accepted events of the producer, and at most one
event more, which waits or has been given up. -/
def Streams (tool : RecordingTool) (engine : RandomEngine R) (s : RecordingState R) (p : ℕ) :
    Prop :=
  ∃ last : Option Event,
    tool.Yields engine p (s.recorder.acceptedOf p ++ last.toList) (s.generators p) ∧
    (last = s.recorder.waitingAt p ∨ s.GaveUp p)

theorem generators_of_other (h : RecordingMove tool engine s l s')
    (hl : ∀ now n, l ≠ .producer p now n) : s'.generators p = s.generators p := by
  cases h with
  | @generates p' => exact Function.update_of_ne (fun heq => hl _ _ (by rw [heq])) _ _
  | _ => rfl

/-- The steps of the others leave the stream of a producer as it is. -/
theorem streams_of_other (hlife : Lifecycle tool s now) (h : RecordingMove tool engine s l s')
    (hl : ∀ now n, l ≠ .producer p now n) (hstreams : tool.Streams engine s p) :
    tool.Streams engine s' p := by
  obtain ⟨last, hyields, hlast⟩ := hstreams
  have haccepted : s'.recorder.acceptedOf p = s.recorder.acceptedOf p := by
    rcases recorder_of_other h hl with hsame | ⟨l', hstep, hl'⟩
    · rw [hsame]
    · exact AsyncRecorder.acceptedOf_of_other hlife.recording.stages
        (AsyncRecorder.step_move hstep) hl'.2
  refine ⟨last, ?_, ?_⟩
  · rw [haccepted, generators_of_other h hl]
    exact hyields
  · rw [waitingAt_of_other h hl]
    refine hlast.imp_right fun hgave => ?_
    have hsubmit : s'.recorder.submitAt p = s.recorder.submitAt p := by
      rcases recorder_of_other h hl with hsame | ⟨l', hstep, hl'⟩
      · rw [hsame]
      · exact AsyncRecorder.submitAt_of_other (AsyncRecorder.step_move hstep) hl'
    have hfailure : s'.recorder.failure ≠ none := by
      rcases recorder_step h with hsame | ⟨l', hstep, _⟩
      · rw [hsame]
        exact hgave.1
      · exact mt (AsyncRecorder.failure_of_step (AsyncRecorder.step_move hstep)) hgave.1
    refine ⟨hfailure, ?_⟩
    rw [hsubmit]
    rcases producerAt_of_other h hl with hsame | ⟨hspawning, _⟩
    · rw [hsame]
      exact hgave.2
    · -- A producer that has not been started has given nothing up.
      have hgave := hgave.2
      rw [unborn_of_spawning hlife hspawning] at hgave
      simp at hgave

/-- A producer outside `submit` that has not ended has had all its events accepted. -/
theorem yields_of_streams (hstreams : tool.Streams engine s p) (hlife : Lifecycle tool s now)
    (hat : s.producerAt p ≠ .submitting ∧ s.producerAt p ≠ .ended) :
    tool.Yields engine p (s.recorder.acceptedOf p) (s.generators p) := by
  obtain ⟨last, hyields, hlast | ⟨_, hended | ⟨hsubmitting, _⟩⟩⟩ := hstreams
  · have hoff : ¬ (s.recorder.submitAt p).InCall := fun hin =>
      hat.1 ((hlife.submit p).submitting hin)
    rw [hlast, AsyncRecorder.waitingAt_eq_none hoff] at hyields
    simpa using hyields
  · exact absurd hended hat.2
  · exact absurd hsubmitting hat.1

/-- A call of a producer that returns false or throws does so after a failure of the writer. -/
theorem failure_of_result (hlife : Lifecycle tool s now) (hlife' : Lifecycle tool s' now)
    (haccepting : s'.recorder.stopAt = .outside → s'.recorder.failure = none →
      s'.recorder.Accepting)
    (h : RecorderMove s.recorder (.run (.producer p) n) s'.recorder)
    (hat : s'.producerAt p = .submitting) {result : SubmitResult}
    (hresult : s'.recorder.submitAt p = .returned result) (hne : result ≠ .returned true) :
    s'.recorder.failure ≠ none := by
  intro hnone
  have hrunning := hlife.recording.writing.running (AsyncRecorder.failure_of_step h hnone)
  have houtside := (hlife'.of_producer (p := p) (by simp [hat]) (by simp [hat])).2
  cases result with
  | returned accepted =>
    cases accepted with
    | true => exact hne rfl
    | false => exact (haccepting houtside hnone).returned p hresult
  | threw e =>
    exact (AsyncRecorder.submitAt_of_run h).2.2 (fun _ _ => hrunning.writerError) e hresult

/-- Every step leaves each producer with the stream of its generator. -/
theorem streams_step (hlife : Lifecycle tool s now) (hlife' : Lifecycle tool s' now)
    (haccepting : s'.recorder.stopAt = .outside → s'.recorder.failure = none →
      s'.recorder.Accepting) (h : RecordingMove tool engine s l s')
    (hstreams : tool.Streams engine s p) : tool.Streams engine s' p := by
  by_cases hl : ∃ now n, l = .producer p now n
  · obtain ⟨now', n, rfl⟩ := hl
    -- Where the call of `submit` and the generator stay, only the stage has to be looked at.
    have hkeeps {s' : RecordingState R} (hrecorder : s'.recorder = s.recorder)
        (hgenerators : s'.generators p = s.generators p) (hgave : s.GaveUp p → s'.GaveUp p) :
        tool.Streams engine s' p := by
      obtain ⟨last, hyields, hlast⟩ := hstreams
      exact ⟨last, by rw [hrecorder, hgenerators]; exact hyields,
        by rw [hrecorder]; exact hlast.imp_right hgave⟩
    have hoff {stage : ProducerStage} (hat : s.producerAt p = stage)
        (hstage : stage ≠ .submitting ∧ stage ≠ .ended) : ¬ s.GaveUp p := by
      simp [RecordingState.GaveUp, hat, hstage]
    cases h with
    | seesStop hat => exact hkeeps rfl rfl fun hgave => absurd hgave (hoff hat (by simp))
    | goesOn hat => exact hkeeps rfl rfl fun hgave => absurd hgave (hoff hat (by simp))
    | draws hat => exact hkeeps rfl rfl fun hgave => absurd hgave (hoff hat (by simp))
    | isPast hat => exact hkeeps rfl rfl fun hgave => absurd hgave (hoff hat (by simp))
    | isWithin hat => exact hkeeps rfl rfl fun hgave => absurd hgave (hoff hat (by simp))
    | counts hat => exact hkeeps rfl rfl fun hgave => absurd hgave (hoff hat (by simp))
    | generateThrows => exact hkeeps rfl rfl id
    | submitThrows => exact hkeeps rfl rfl id
    | isRefused => exact hkeeps rfl rfl fun hgave => ⟨hgave.1, Or.inl (by simp)⟩
    | isAccepted hat hresult =>
      refine hkeeps rfl rfl fun hgave => ?_
      rcases hgave with ⟨_, hended | ⟨_, result, hreturned, hne⟩⟩
      · rw [hat] at hended
        cases hended
      · rw [hresult] at hreturned
        cases hreturned
        exact absurd rfl hne
    | generates hat hnext hstep =>
      have hyields := yields_of_streams hstreams hlife (by simp [hat])
      have hmove := AsyncRecorder.step_move hstep
      refine ⟨_, ?_, Or.inl rfl⟩
      dsimp only
      rw [AsyncRecorder.waitingAt_of_call hmove,
        AsyncRecorder.acceptedOf_of_other hlife.recording.stages hmove (by simp),
        Function.update_self]
      exact hyields.next hnext
    | submitRuns hat hstep =>
      have hmove := AsyncRecorder.step_move hstep
      obtain ⟨hin, _⟩ := AsyncRecorder.submitAt_of_run hmove
      obtain ⟨last, hyields, hlast | ⟨_, hended | ⟨_, result, hreturned, _⟩⟩⟩ := hstreams
      · rcases AsyncRecorder.acceptedOf_of_run hlife.recording.stages hmove with hsame |
          ⟨hsame, result, hresult, hne⟩
        · refine ⟨_, ?_, Or.inl rfl⟩
          dsimp only
          rw [hsame, ← hlast]
          exact hyields
        · have hfailure := failure_of_result hlife hlife' haccepting hmove hat hresult hne
          refine ⟨last, ?_, Or.inr ⟨hfailure, Or.inr ⟨hat, result, hresult, hne⟩⟩⟩
          dsimp only
          rw [hsame]
          exact hyields
      · rw [hat] at hended
        cases hended
      · rw [hreturned] at hin
        exact absurd hin id
  · exact streams_of_other hlife h (fun now n heq => hl ⟨now, n, heq⟩) hstreams

/-- Before the first step no generator has returned anything. -/
theorem streams_start (h : tool.start engine device now = .ok s) (p : ℕ) :
    tool.Streams engine s p := by
  obtain ⟨recorder, hnew, rfl⟩ := start_eq h
  obtain ⟨writer, _, rfl⟩ := AsyncRecorder.new_eq hnew
  refine ⟨none, ⟨fun _ => 0, ?_⟩, Or.inl rfl⟩
  simp [AsyncRecorder.acceptedOf, QueueState.new, EventGenerator.run]

/-- In every state of a run, whether the writer has failed or not, each producer's accepted events
are those its generator has returned, but for at most the last one. -/
theorem streams_of_run (hstart : tool.start engine device now = .ok s₀)
    {labels : List RecordingLabel} (hrun : Transition.run (tool.step engine) s₀ labels = some s)
    (p : ℕ) : tool.Streams engine s p := by
  let I (s : RecordingState R) : Prop := Lifecycle tool s now ∧
    (s.recorder.stopAt = .outside → s.recorder.failure = none → s.recorder.Accepting) ∧
    tool.Streams engine s p
  have hinv {s s' : RecordingState R} {l : RecordingLabel} (hs : I s)
      (hstep : tool.step engine s l = some s') : I s' := by
    obtain ⟨hlife, haccepting, hstreams⟩ := hs
    have hmove := (step_move hstep).2
    have haccepting' : s'.recorder.stopAt = .outside → s'.recorder.failure = none →
        s'.recorder.Accepting := by
      rcases recorder_step hmove with hsame | ⟨l', hrecorder, _⟩
      · rw [hsame]
        exact haccepting
      · exact AsyncRecorder.accepting_step hlife.recording haccepting
          (AsyncRecorder.step_move hrecorder)
    exact ⟨hlife.step hstep, haccepting',
      streams_step hlife (hlife.step hstep) haccepting' hmove hstreams⟩
  have hfirst : s₀.recorder.Accepting := by
    obtain ⟨recorder, hnew, rfl⟩ := start_eq hstart
    exact .new hnew
  exact (Transition.run_invariant (I := I) hinv
    ⟨.start hstart, fun _ _ => hfirst, streams_start hstart p⟩ hrun).2.2

/-- A producer that has not been started has had no event accepted. -/
theorem acceptedOf_of_unborn (hstart : tool.start engine device now = .ok s₀)
    {labels : List RecordingLabel} (hrun : Transition.run (tool.step engine) s₀ labels = some s)
    (hunborn : s.producerAt p = .unborn) : s.recorder.acceptedOf p = [] := by
  let I (s : RecordingState R) : Prop := Lifecycle tool s now ∧
    (s.producerAt p = .unborn → s.recorder.acceptedOf p = [])
  have hinv {s s' : RecordingState R} {l : RecordingLabel} (hs : I s)
      (hstep : tool.step engine s l = some s') : I s' := by
    obtain ⟨hlife, hnothing⟩ := hs
    refine ⟨hlife.step hstep, fun hunborn => ?_⟩
    have hmove := (step_move hstep).2
    by_cases hl : ∃ now n, l = .producer p now n
    · -- A producer that takes a step has been started.
      obtain ⟨now', n, rfl⟩ := hl
      cases hmove with
      | isAccepted =>
        rw [RecordingState.producerAt_producerTo] at hunborn
        split at hunborn <;> cases hunborn
      | generateThrows hat => rw [hat] at hunborn; cases hunborn
      | submitRuns hat => rw [hat] at hunborn; cases hunborn
      | submitThrows hat => rw [hat] at hunborn; cases hunborn
      | _ => simp at hunborn
    · have hl' : ∀ now n, l ≠ .producer p now n := fun now n heq => hl ⟨now, n, heq⟩
      have hbefore : s.producerAt p = .unborn := by
        rcases producerAt_of_other hmove hl' with hsame | ⟨_, hstarted⟩
        · exact hsame ▸ hunborn
        · rw [hstarted] at hunborn
          cases hunborn
      rw [← hnothing hbefore]
      rcases recorder_of_other hmove hl' with hsame | ⟨l', hrecorder, hother⟩
      · rw [hsame]
      · exact AsyncRecorder.acceptedOf_of_other hlife.recording.stages
          (AsyncRecorder.step_move hrecorder) hother.2
  refine (Transition.run_invariant (I := I) hinv ⟨.start hstart, fun _ => ?_⟩ hrun).2 hunborn
  obtain ⟨recorder, hnew, rfl⟩ := start_eq hstart
  obtain ⟨writer, _, rfl⟩ := AsyncRecorder.new_eq hnew
  simp [AsyncRecorder.acceptedOf, QueueState.new]

/-! ## Completed recordings -/

/-- The events of a recording, in the order in which the queue accepted them. -/
def recordedEvents (s : RecordingState R) : List Event := s.recorder.queue.accepted.map Prod.snd

/-- What a recording has come to when `main` has returned from `stop` and the writer has not failed:
the producers have ended, and the accepted events are in the file, numbered from zero on. -/
structure Completed (tool : RecordingTool) (events : UInt64) (s : RecordingState R) (k : ℕ) :
    Prop where
  small : k < 2 ^ 64
  ended : ∀ p, if p < tool.producers.toNat then s.producerAt p = .ended
    else s.producerAt p = .unborn
  reads : s.recorder.ReadsBack tool.output (recordedEvents s)
  numbers : ((recordedEvents s).map (fun event => event.sequence.toNat)).Perm (List.range k)
  increasing : ∀ producerId,
    (((recordedEvents s).filter (fun event => event.producerId = producerId)).map
      (fun event => event.sequence)).Pairwise (· < ·)
  limit : events ≠ 0 →
    (tool.stopsOnSignal = true → ∀ p < tool.producers.toNat, s.stopRequested p = false) →
      k = events.toNat

variable {events : UInt64} {labels : List RecordingLabel}

/-- A run of a tool, with options that its command line accepts, in which `main` has returned from
`stop` and the writer has not failed. The producers have 32-bit numbers, and so few numbers are drawn
that the counter does not wrap around. -/
structure Finishes (tool : RecordingTool) (engine : RandomEngine R) (events : UInt64)
    (device : Device) (now : UInt64) (labels : List RecordingLabel) (s₀ s : RecordingState R) :
    Prop where
  generates : Generates tool events
  producers : tool.producers.toNat ≤ 2 ^ 32
  bound : events.toNat + tool.producers.toNat < 2 ^ 64
  drawn : events = 0 → (tool.drawn engine s₀ labels).length < 2 ^ 64
  start : tool.start engine device now = .ok s₀
  run : Transition.run (tool.step engine) s₀ labels = some s
  failure : s.recorder.failure = none
  stopped : s.mainAt.HasStopped

theorem Finishes.completed (h : tool.Finishes engine events device now labels s₀ s) :
    ∃ k, tool.Completed events s k := by
  obtain ⟨htool, hproducers, hbound, hdrawn, hstart, hrun, hfailure, hstopped⟩ := h
  have htracked := tracked_of_run htool hproducers hbound hstart hrun
  generalize (tool.drawn engine s₀ labels).length = drawn at htracked hdrawn
  have hnumbering := htracked.numbering hfailure hdrawn
  have haccounted := Tickets.Accounted.of_moves hnumbering.moves
  obtain ⟨hended, hrunAt⟩ := ended_of_hasStopped htracked.life hstopped
  have hsmall : drawn < 2 ^ 64 := by
    by_cases hevents : events = 0
    · exact hdrawn hevents
    · exact htracked.counted.lt_size hevents hbound
  have hfree (p : ℕ) : (s.desk drawn).hand p = none := by
    have hat := hended p
    simp only [RecordingState.desk, RecordingState.hand]
    split at hat <;> rw [hat] <;> rfl
  obtain ⟨k, hk, hpast, hlimit⟩ := htool.exists_limit hsmall
  refine ⟨k, hk.trans_lt hsmall, hended, hnumbering.readsBack htracked.life hrunAt hfailure tool.output, ?_,
    increasing_of_accounted haccounted, fun hevents hunstopped => ?_⟩
  · have hperm := haccounted.filed_perm hfree hk hpast
    simpa [recordedEvents, RecordingState.desk, Function.comp_def] using hperm
  · -- A producer that was not stopped has drawn a number past the limit.
    have hat := hended 0
    rw [if_pos htool.producers_pos] at hat
    rcases hnumbering.ended 0 hat with ⟨hsignal, hstop⟩ | ⟨i, hi, hpassed⟩
    · rw [hunstopped hsignal 0 htool.producers_pos] at hstop
      cases hstop
    · have hle := ((htool.past_nat_iff (hi.trans hsmall)).mp hpassed).2
      rw [hlimit hevents]
      omega

/-- The events of a producer carry its number. -/
theorem producerId_of_acceptedOf (hstart : tool.start engine device now = .ok s₀)
    (hrun : Transition.run (tool.step engine) s₀ labels = some s)
    (hproducers : tool.producers.toNat ≤ 2 ^ 32)
    (hended : ∀ p, if p < tool.producers.toNat then s.producerAt p = .ended
      else s.producerAt p = .unborn) {event : Event} (hevent : event ∈ s.recorder.acceptedOf p) :
    p < tool.producers.toNat ∧ event.producerId.toNat = p := by
  have hp : p < tool.producers.toNat := by
    by_contra hge
    have hat := hended p
    rw [if_neg hge] at hat
    rw [acceptedOf_of_unborn hstart hrun hat] at hevent
    cases hevent
  obtain ⟨last, ⟨clock, hyields⟩, _⟩ := streams_of_run hstart hrun p
  have hcarried := EventGenerator.configured_of_run (congrArg Prod.fst hyields) event
    (List.mem_append_left _ hevent)
  refine ⟨hp, ?_⟩
  rw [hcarried.producerId]
  exact UInt32.toNat_ofNat_of_lt' (hp.trans_le hproducers)

/-- The recorded events with the number of a producer are its accepted ones. -/
theorem filter_recordedEvents (hlife : Lifecycle tool s now)
    (hids : ∀ p, ∀ event ∈ s.recorder.acceptedOf p, event.producerId.toNat = p) (p : ℕ) :
    (recordedEvents s).filter (fun event => event.producerId.toNat = p) =
      s.recorder.acceptedOf p := by
  rw [recordedEvents, List.filter_map, AsyncRecorder.acceptedOf]
  congr 1
  apply List.filter_congr
  intro x hx
  obtain ⟨q, hq⟩ := hlife.recording.accounts.byProducers x hx
  have hid := hids q x.2 (List.mem_map_of_mem (List.mem_filter.mpr ⟨hx, by simpa using hq⟩))
  simp [hq, hid]

/-- A completed recording is a merge of what the generators of its producers return. -/
theorem Finishes.streams (h : tool.Finishes engine events device now labels s₀ s) {k : ℕ}
    (hcompleted : tool.Completed events s k) :
    (∀ event ∈ recordedEvents s, event.producerId.toNat < tool.producers.toNat) ∧
    ∀ p, tool.Yields engine p ((recordedEvents s).filter (fun event => event.producerId.toNat = p))
      (s.generators p) := by
  have hlife := Lifecycle.of_run h.start h.run
  have hids (p : ℕ) (event : Event) (hevent : event ∈ s.recorder.acceptedOf p) :=
    producerId_of_acceptedOf h.start h.run h.producers hcompleted.ended hevent
  constructor
  · intro event hevent
    obtain ⟨x, hx, rfl⟩ := List.mem_map.mp hevent
    obtain ⟨q, hq⟩ := hlife.recording.accounts.byProducers x hx
    obtain ⟨hlt, hid⟩ :=
      hids q x.2 (List.mem_map_of_mem (List.mem_filter.mpr ⟨hx, by simpa using hq⟩))
    rwa [hid]
  · intro p
    rw [filter_recordedEvents hlife fun p event hevent => (hids p event hevent).2]
    obtain ⟨last, hyields, hlast | ⟨hfailed, _⟩⟩ := streams_of_run h.start h.run p
    · have hoff : ¬ (s.recorder.submitAt p).InCall := by
        intro hin
        have hat := hcompleted.ended p
        rw [(hlife.submit p).submitting hin] at hat
        split at hat <;> cases hat
      rw [hlast, AsyncRecorder.waitingAt_eq_none hoff] at hyields
      simpa using hyields
    · exact absurd h.failure hfailed

/-- **A recording is a merge of the streams of its producers.** For both tools, any options, any
engine, any device, any interleaving and a stop signal that becomes visible to the producers at any
moments: if `main` has returned from `stop` and the writer has not failed, the file reads back as
events numbered `0` to `k - 1`, each of one of the producers. The events of a producer, in file order,
are what a new generator with the configuration of this producer returns when it is called with their
numbers, which increase. -/
theorem recorded_streams (h : tool.Finishes engine events device now labels s₀ s) :
    ∃ log k, s.recorder.ReadsBack tool.output log ∧
      (log.map (fun event => event.sequence.toNat)).Perm (List.range k) ∧
      (∀ event ∈ log, event.producerId.toNat < tool.producers.toNat) ∧
      ∀ p < tool.producers.toNat, ∃ clock,
        let stream := log.filter (fun event => event.producerId.toNat = p)
        (stream.map Event.sequence).Pairwise (· < ·) ∧
        ((EventGenerator.new engine (tool.generatorConfig p)).run engine clock
          (stream.map Event.sequence)).1 = stream.map .ok := by
  obtain ⟨k, hcompleted⟩ := h.completed
  obtain ⟨hids, hyields⟩ := h.streams hcompleted
  refine ⟨recordedEvents s, k, hcompleted.reads, hcompleted.numbers, hids, fun p hp => ?_⟩
  obtain ⟨clock, hstream⟩ := hyields p
  refine ⟨clock, ?_, congrArg Prod.fst hstream⟩
  have hincreasing := hcompleted.increasing (UInt32.ofNat p)
  have hsame (event : Event) : event.producerId = UInt32.ofNat p ↔ event.producerId.toNat = p := by
    rw [← UInt32.toNat_inj, UInt32.toNat_ofNat_of_lt' (hp.trans_le h.producers)]
  simpa only [hsame] using hincreasing

/-- The run of two producers that take turns finishes. -/
theorem finishes_two : ∃ opts s₀ s, (hpblrRecord opts).producers = 2 ∧
    (hpblrRecord opts).Finishes countingEngine 2 .reliable 0 twoProducers s₀ s := by
  have hparse : RecordOptions.parse
      ["--producers", "2", "--events", "2", "--payload-size", "0"] =
        .ok { producers := 2, events := 2, payloadSize := 0 } := by decide +kernel
  obtain ⟨opts, s₀, s, hparse', hstart, _, hrun, hfailure, hexited⟩ :=
    exists_run ["--producers", "2", "--events", "2", "--payload-size", "0"] .reliable
      twoProducers (fun s => s.recorder.failure = none ∧ s.mainAt = .exited 0)
      (fun _ _ => True) (by decide +kernel)
  cases hparse.symm.trans hparse'
  exact ⟨_, s₀, s, rfl, .record hparse, by decide, by decide, by simp, hstart, hrun, hfailure,
    by rw [hexited]; trivial⟩

/-- The second producer's part of the file comes from its generator. -/
theorem recorded_streams_two : ∃ opts s₀ s log clock,
    Transition.run ((hpblrRecord opts).step countingEngine) s₀ twoProducers = some s ∧
    s.recorder.ReadsBack opts.output log ∧
    let stream := log.filter (fun event => event.producerId.toNat = 1)
    ((EventGenerator.new countingEngine ((hpblrRecord opts).generatorConfig 1)).run countingEngine
      clock (stream.map Event.sequence)).1 = stream.map .ok := by
  obtain ⟨opts, s₀, s, htwo, hfinishes⟩ := finishes_two
  obtain ⟨log, _, hreads, _, _, hstreams⟩ := recorded_streams hfinishes
  obtain ⟨clock, _, hstream⟩ := hstreams 1 (by rw [htwo]; decide)
  exact ⟨opts, s₀, s, log, clock, hfinishes.run, hreads, hstream⟩

/-! ## One producer -/

/-- One producer records what its generator returns for the numbers from zero on. -/
theorem Finishes.single (h : tool.Finishes engine events device now labels s₀ s)
    (hone : tool.producers = 1) {k : ℕ} (hcompleted : tool.Completed events s k) :
    (recordedEvents s).length = k ∧ ∃ clock,
      ((EventGenerator.new engine (tool.generatorConfig 0)).run engine clock
        ((List.range k).map UInt64.ofNat)).1 = (recordedEvents s).map .ok := by
  obtain ⟨hids, hyields⟩ := h.streams hcompleted
  have hzero (event : Event) (hevent : event ∈ recordedEvents s) : event.producerId.toNat = 0 := by
    have hlt := hids event hevent
    rw [hone] at hlt
    exact Nat.lt_one_iff.mp hlt
  have hall : (recordedEvents s).filter (fun event => event.producerId.toNat = 0) =
      recordedEvents s := List.filter_eq_self.mpr fun event hevent => by simp [hzero event hevent]
  have hnumbers : (recordedEvents s).map (fun event => event.sequence.toNat) = List.range k := by
    have hincreasing := hcompleted.increasing 0
    have hsame : (recordedEvents s).filter (fun event => event.producerId = 0) =
        recordedEvents s :=
      List.filter_eq_self.mpr fun event hevent => by
        simp [← UInt32.toNat_inj, hzero event hevent]
    rw [hsame, List.pairwise_map] at hincreasing
    refine hcompleted.numbers.eq_of_pairwise' (r := (· < ·)) ?_ List.pairwise_lt_range
    rw [List.pairwise_map]
    exact hincreasing.imp UInt64.lt_iff_toNat_lt.mp
  obtain ⟨clock, hstream⟩ := hyields 0
  rw [hall] at hstream
  refine ⟨?_, clock, ?_⟩
  · simpa using congrArg List.length hnumbers
  · have hsequences : (List.range k).map UInt64.ofNat =
        (recordedEvents s).map Event.sequence := by
      rw [← hnumbers, List.map_map]
      simp [Function.comp_def]
    rw [hsequences]
    exact congrArg Prod.fst hstream

variable {tool' : RecordingTool} {events' : UInt64} {device' : Device}
  {labels' : List RecordingLabel} {s₀' : RecordingState R}

/-- **A recording by one producer can be made again.** Take two finished runs with one producer each,
of the same tool and with the same payload size, whatever their output files, queue capacities, flush
thresholds, event limits, devices, schedules and clocks are. The file of each reads back, and as far
as both reach, their events agree in everything but what the clock has put into them. A file whose run
has an event limit and was not stopped has as many events as the limit says. -/
theorem single_producer_reproducible
    (h : tool.Finishes engine events device now labels s₀ s)
    (h' : tool'.Finishes engine events' device' now' labels' s₀' s')
    (hone : tool.producers = 1) (hone' : tool'.producers = 1)
    (hseed : tool'.seed = tool.seed) (hsize : tool'.payloadSize = tool.payloadSize) :
    ∃ log log', s.recorder.ReadsBack tool.output log ∧ s'.recorder.ReadsBack tool'.output log' ∧
      List.Forall₂ EventGenerator.AgreeExceptClock (log.take log'.length)
        (log'.take log.length) ∧
      (events ≠ 0 → (tool.stopsOnSignal = true → s.stopRequested 0 = false) →
        log.length = events.toNat) ∧
      (events' ≠ 0 → (tool'.stopsOnSignal = true → s'.stopRequested 0 = false) →
        log'.length = events'.toNat) := by
  obtain ⟨k, hcompleted⟩ := h.completed
  obtain ⟨k', hcompleted'⟩ := h'.completed
  obtain ⟨hlength, clock, hrun⟩ := h.single hone hcompleted
  obtain ⟨hlength', clock', hrun'⟩ := h'.single hone' hcompleted'
  have hconfig : tool'.generatorConfig 0 = tool.generatorConfig 0 := by
    simp [generatorConfig, hseed, hsize]
  have honly {tool : RecordingTool} {s : RecordingState R} (hone : tool.producers = 1)
      (hzero : tool.stopsOnSignal = true → s.stopRequested 0 = false)
      (hsignal : tool.stopsOnSignal = true) (p : ℕ) (hp : p < tool.producers.toNat) :
      s.stopRequested p = false := by
    rw [hone] at hp
    obtain rfl := Nat.lt_one_iff.mp hp
    exact hzero hsignal
  refine ⟨recordedEvents s, recordedEvents s', hcompleted.reads, hcompleted'.reads, ?_,
    fun hevents hzero => hlength.trans (hcompleted.limit hevents (honly hone hzero)),
    fun hevents hzero => hlength'.trans (hcompleted'.limit hevents (honly hone' hzero))⟩
  -- Both runs called the same generator with the numbers below the shorter length.
  have hfront (k k' : ℕ) : ((List.range k).map UInt64.ofNat).take k' =
      (List.range (min k' k)).map UInt64.ofNat := by
    rw [← List.map_take, List.take_range]
  have htaken := congrArg (List.take k') hrun
  have htaken' := congrArg (List.take k) hrun'
  rw [← EventGenerator.run_take, hfront, ← List.map_take] at htaken htaken'
  rw [hconfig, min_comm] at htaken'
  rw [hlength, hlength']
  exact EventGenerator.agree_of_run htaken htaken'

/-- One producer generates one event, at this time, and draws a number past the limit. -/
def oneProducer (now : UInt64) : List RecordingLabel :=
  List.replicate 2 (.main none) ++ List.replicate 14 (.producer 0 now none) ++
  List.replicate 7 (.main none) ++ List.replicate 9 (.writer none) ++
  List.replicate 8 (.main none)

/-- The options of a recording of one event, with a time stamp in its payload. -/
def oneEvent : RecordOptions := { producers := 1, events := 1, payloadSize := 24 }

/-- The run of one producer finishes. -/
theorem finishes_one : ∃ s₀ s,
    (hpblrRecord oneEvent).Finishes countingEngine 1 .reliable 0 (oneProducer 0) s₀ s ∧
    s.stopRequested 0 = false ∧ s.reported.isSome = true := by
  have hparse : RecordOptions.parse
      ["--producers", "1", "--events", "1", "--payload-size", "24"] = .ok oneEvent := by
    decide +kernel
  obtain ⟨_, s₀, s, hopts, hstart, _, hrun, hfailure, hexited, hsignal, hreported⟩ :=
    exists_run ["--producers", "1", "--events", "1", "--payload-size", "24"] .reliable
      (oneProducer 0) (fun s => s.recorder.failure = none ∧ s.mainAt = .exited 0 ∧
        s.stopRequested 0 = false ∧ s.reported.isSome = true) (fun _ _ => True) (by decide +kernel)
  cases hparse.symm.trans hopts
  exact ⟨s₀, s, ⟨.record hparse, by decide, by decide, by simp, hstart, hrun, hfailure,
    by rw [hexited]; trivial⟩, hsignal, hreported⟩

/-- The same with another flush threshold and at another time. -/
theorem finishes_one_later : ∃ s₀ s,
    (hpblrRecord { oneEvent with flushBytes := 1 }).Finishes countingEngine 1 .reliable 0
      (oneProducer 7) s₀ s ∧ s.stopRequested 0 = false := by
  have hparse : RecordOptions.parse
      ["--producers", "1", "--events", "1", "--payload-size", "24", "--flush-bytes", "1"] =
        .ok { oneEvent with flushBytes := 1 } := by
    decide +kernel
  obtain ⟨_, s₀, s, hopts, hstart, _, hrun, hfailure, hexited, hsignal⟩ :=
    exists_run
      ["--producers", "1", "--events", "1", "--payload-size", "24", "--flush-bytes", "1"]
      .reliable (oneProducer 7) (fun s => s.recorder.failure = none ∧
        s.mainAt = .exited 0 ∧ s.stopRequested 0 = false) (fun _ _ => True) (by decide +kernel)
  cases hparse.symm.trans hopts
  exact ⟨s₀, s, ⟨.record hparse, by decide, by decide, by simp, hstart, hrun, hfailure,
    by rw [hexited]; trivial⟩, hsignal⟩

/-- Two recordings of one event, at different times and with different flush thresholds. -/
theorem single_producer_reproducible_stamped : ∃ (s s' : RecordingState UInt64)
    (log log' : List Event), log.length = 1 ∧ log'.length = 1 ∧
    s.recorder.ReadsBack oneEvent.output log ∧ s'.recorder.ReadsBack oneEvent.output log' ∧
    List.Forall₂ EventGenerator.AgreeExceptClock log log' := by
  obtain ⟨s₀, s, hfinishes, hsignal, _⟩ := finishes_one
  obtain ⟨s₀', s', hfinishes', hsignal'⟩ := finishes_one_later
  obtain ⟨log, log', hreads, hreads', hagree, hlength, hlength'⟩ :=
    single_producer_reproducible hfinishes hfinishes' rfl rfl rfl rfl
  have hone := hlength (by decide) (fun _ => hsignal)
  have hone' := hlength' (by decide) (fun _ => hsignal')
  rw [hone, hone', List.take_of_length_le hone.le, List.take_of_length_le hone'.le] at hagree
  exact ⟨s, s', log, log', hone, hone', hreads, hreads', hagree⟩

end RecordingTool

end Hpblr
