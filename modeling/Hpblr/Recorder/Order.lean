import Hpblr.Recorder.NoLoss

/-!
# The order of the file

The queue accepts events in the order in which calls of `submit` follow each other in time, across all
producers: an event whose call has returned true stands before every event whose call begins later.
Only the calls that are under way at the same moment may go either way. The file keeps this order.
-/

namespace Hpblr

variable {P : Type*} [DecidableEq P]

namespace AsyncRecorder

variable {s s₀ s' : AsyncRecorder P} {l : RecorderLabel P} {now : UInt64}
  {labels more : List (RecorderLabel P)}

/-! ## What is accepted and confirmed stays so -/

/-- A step appends to what is accepted, and to the completed calls. -/
theorem histories_step (hrecording : s.Recording now) (h : RecorderMove s l s') :
    s.queue.accepted <+: s'.queue.accepted ∧ s.submits <+: s'.submits := by
  constructor
  · rcases accepted_cases hrecording.stages h with hsame | ⟨p, event, n, _, hnew⟩
    · rw [hsame]
    · rw [hnew]
      exact List.prefix_append _ _
  · rcases submits_cases h with hsame | ⟨p, event, result, n, _, hnew⟩
    · rw [hsame]
    · rw [hnew]
      exact List.prefix_append _ _

theorem histories_run (hrecording : s.Recording now)
    (hrun : Transition.run step s labels = some s') :
    s.queue.accepted <+: s'.queue.accepted ∧ s.submits <+: s'.submits :=
  (Transition.run_invariant
    (I := fun t => t.Recording now ∧ s.queue.accepted <+: t.queue.accepted ∧
      s.submits <+: t.submits)
    (fun h hstep =>
      have hgrown := histories_step h.1 (step_move hstep)
      ⟨h.1.step hstep, h.2.1.trans hgrown.1, h.2.2.trans hgrown.2⟩)
    ⟨hrecording, List.prefix_rfl, List.prefix_rfl⟩ hrun).2

omit [DecidableEq P] in
/-- An event that waits to be counted is that of the call under way. -/
theorem event_of_mem_pending {stage : SubmitStage} {a : Activity Event} {event : Event}
    (h : event ∈ pending stage a) : stage.event = some event := by
  unfold pending at h
  split at h
  · rw [List.mem_singleton.mp h]
    rfl
  · split at h
    · rw [List.mem_singleton.mp h]
      rfl
    · cases h
  · cases h

omit [DecidableEq P] in
/-- Each producer waits with one event at most. -/
theorem nodup_tagged {producers : List P} (hnodup : producers.Nodup) {f : P → List Event}
    (hone : ∀ p, (f p).length ≤ 1) : ((tagged producers f).map Prod.fst).Nodup := by
  induction producers with
  | nil => exact List.nodup_nil
  | cons p producers ih =>
    obtain ⟨hnotMem, hnodup⟩ := List.nodup_cons.mp hnodup
    rw [tagged, List.flatMap_cons, List.map_append, ← tagged, List.nodup_append]
    refine ⟨?_, ih hnodup, ?_⟩
    · rw [List.map_map]
      have hlength := hone p
      generalize f p = events at hlength
      rcases events with _ | ⟨event, _ | ⟨event', events⟩⟩
      · exact List.nodup_nil
      · exact List.nodup_singleton _
      · simp at hlength
    · intro t ht t' ht' heq
      subst heq
      obtain ⟨x, hx, rfl⟩ := List.mem_map.mp ht
      obtain ⟨_, _, rfl⟩ := List.mem_map.mp hx
      obtain ⟨y, hy, hfst⟩ := List.mem_map.mp ht'
      obtain ⟨p', hp', hmem⟩ := List.mem_flatMap.mp hy
      obtain ⟨_, _, rfl⟩ := List.mem_map.mp hmem
      cases hfst
      exact hnotMem hp'

/-! ## The order -/

/-- These are events of calls of `submit` that are under way, one for each producer at most. -/
structure UnderWay (s : AsyncRecorder P) (calls : List (RecorderThread P × Event)) : Prop where
  submits : ∀ x ∈ calls, ∃ p, x.1 = .producer p ∧ (s.submitAt p).event = some x.2
  nodup : (calls.map Prod.fst).Nodup

/-- The accepted events are those of the calls that returned true, and of some that are under way. -/
theorem accepted_perm_underWay (hrecording : s.Recording now) :
    ∃ underWay, s.queue.accepted.Perm (s.confirmed ++ underWay) ∧ s.UnderWay underWay := by
  obtain ⟨waiting, _, hperm⟩ := hrecording.accounts.accepted_perm_pending
  refine ⟨_, hperm, fun x hx => ?_, ?_⟩
  · obtain ⟨p, _, hp⟩ := List.mem_flatMap.mp hx
    obtain ⟨event, hevent, rfl⟩ := List.mem_map.mp hp
    exact ⟨p, rfl, event_of_mem_pending hevent⟩
  · exact nodup_tagged (Finset.nodup_toList _) (fun p => length_pending _ _)

/-- **The order in time is kept.** Take any two moments of any run, one not after the other. What the
queue has accepted by the second one is a front and a back. In the front are the events of the calls
that had returned true by the first moment, and of some calls that were then under way, one for each
producer at most. The whole consists of the events of the calls that had returned true by the second
moment, and of some that were then under way; so the event of every call that was made after the
first moment is in the back. If at the second moment `stop` and all calls of `submit` have completed
and the writer has not failed, with events of the six severities, no call is under way, and the file
reads back as the front and the back. -/
theorem real_time_order {path : String} {queueCapacity : ℕ} {writerOptions : WriterOptions}
    {device : Device}
    (hnew : AsyncRecorder.new path queueCapacity writerOptions device now = .ok s₀)
    (hrun : Transition.run step s₀ labels = some s)
    (hmore : Transition.run step s more = some s') :
    ∃ front back underWay underWay' : List (RecorderThread P × Event),
      s'.queue.accepted = front ++ back ∧
      front.Perm (s.confirmed ++ underWay) ∧ s.UnderWay underWay ∧
      (s'.confirmed ++ underWay').Perm (s.confirmed ++ underWay ++ back) ∧ s'.UnderWay underWay' ∧
      (OnlyEnumerators (labels ++ more) → s'.failure = none → s'.stops ≠ [] →
        s'.SubmitsCompleted →
        underWay' = [] ∧ s'.ReadsBack path ((front ++ back).map Prod.snd)) := by
  have hrecording := recording_of_run hnew hrun
  have hwhole : Transition.run step s₀ (labels ++ more) = some s' :=
    Transition.run_append.mpr ⟨s, hrun, hmore⟩
  have hrecording' := recording_of_run hnew hwhole
  obtain ⟨back, hback⟩ := (histories_run hrecording hmore).1
  obtain ⟨underWay, hfront, hunderWay⟩ := accepted_perm_underWay hrecording
  obtain ⟨underWay', hall, hunderWay'⟩ := accepted_perm_underWay hrecording'
  refine ⟨s.queue.accepted, back, underWay, underWay', hback.symm, hfront, hunderWay, ?_,
    hunderWay', fun hseverity hfailure hstopped hcompleted => ⟨?_, ?_⟩⟩
  · rw [← hback] at hall
    exact hall.symm.trans (hfront.append_right back)
  · rw [List.eq_nil_iff_forall_not_mem]
    intro x hx
    obtain ⟨p, _, hevent⟩ := hunderWay'.submits x hx
    refine hcompleted p ?_
    cases hat : s'.submitAt p with
    | outside | returned _ => simp [hat, SubmitStage.event] at hevent
    | _ => trivial
  · rw [hback]
    exact hrecording'.readsBack hstopped hfailure (onlySubmits_of_run hnew hwhole hseverity) path

/-- The first part of a run of two producers: one of them submits. -/
def firstSubmit : List (RecorderLabel Bool) :=
  .submit true {} :: List.replicate 5 (.run (.producer true) none)

/-- The second part: the other one submits, and `stop` is called. -/
def secondSubmit : List (RecorderLabel Bool) :=
  .submit false { sequence := 1 } :: List.replicate 5 (.run (.producer false) none) ++
  .stop :: List.replicate 5 (.run .stopper none) ++
  List.replicate 14 (.run .writer none) ++ List.replicate 2 (.run .stopper none)

/-- The moment between the two calls. -/
theorem real_time_order_two : ∃ (s₀ s s' : AsyncRecorder Bool)
    (front back underWay : List (RecorderThread Bool × Event)),
    AsyncRecorder.new "log" 8 {} .reliable 0 = .ok s₀ ∧
    Transition.run step s₀ firstSubmit = some s ∧ Transition.run step s secondSubmit = some s' ∧
    s'.ReadsBack "log" ((front ++ back).map Prod.snd) ∧ front.Perm (s.confirmed ++ underWay) ∧
    s'.confirmed.length = 2 := by
  obtain ⟨s₀, s', hnew, hrun, hfailure, hstopped, hcompleted, hlength⟩ :=
    exists_run "log" 8 {} .reliable 0 (firstSubmit ++ secondSubmit)
      (fun s => s.failure = none ∧ s.stops ≠ [] ∧ s.SubmitsCompleted ∧ s.confirmed.length = 2)
      (by decide +kernel)
  obtain ⟨s, hfirst, hsecond⟩ := Transition.run_append.mp hrun
  obtain ⟨front, back, underWay, _, _, hfront, _, _, _, hfile⟩ := real_time_order hnew hfirst hsecond
  obtain ⟨_, hreads⟩ := hfile (by unfold OnlyEnumerators; decide) hfailure hstopped hcompleted
  exact ⟨s₀, s, s', front, back, underWay, hnew, hfirst, hsecond, hreads, hfront, hlength⟩

end AsyncRecorder

end Hpblr
