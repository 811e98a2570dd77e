import Hpblr.Recorder.NoLoss

/-!
# What a snapshot of the statistics says

`stats` loads four counters that different threads advance, and an event is counted as submitted
only after the queue has accepted it. So the background thread can have written an event that is
not yet counted as submitted; what is missing from the count are the calls of `submit` between the
acceptance of their event and the increment of `submitted_`.
-/

namespace Hpblr

variable {P : Type*}

namespace AsyncRecorder

/-- `stats`, whose loads are taken one after the other. -/
def snapshot (atSubmitted atRejected atWritten atDepth : AsyncRecorder P) :
    AsyncRecorderStats where
  submitted := atSubmitted.submitted
  rejected := atRejected.rejected
  written := atWritten.written
  queueDepth := UInt64.ofNat atDepth.queue.queue.length

/-- Loads that are taken in one instant. -/
theorem snapshot_self (s : AsyncRecorder P) : snapshot s s s s = s.stats := rfl

variable [DecidableEq P] {s s₀ s' : AsyncRecorder P} {l : RecorderLabel P} {now : UInt64}

/-! ## The history grows -/

/-- No completed call and no appended event is forgotten. -/
private theorem history_grows (h : RecorderMove s l s') :
    s.results true ≤ s'.results true ∧ s.appended.length ≤ s'.appended.length := by
  constructor
  · rcases submits_cases h with hsame | ⟨p, event, result, n, _, hnew⟩
    · rw [results, results, hsame]
    · rw [results, results, hnew, List.countP_append]
      exact Nat.le_add_right _ _
  · cases h <;> simp [producerAt, submitReturns, AsyncRecorder.stopReturns]

private theorem history_grows_run {labels : List (RecorderLabel P)}
    (hrun : Transition.run step s labels = some s') :
    s.results true ≤ s'.results true ∧ s.appended.length ≤ s'.appended.length := by
  refine Transition.run_invariant
    (I := fun s' => s.results true ≤ s'.results true ∧ s.appended.length ≤ s'.appended.length)
    (fun hbefore hstep => ?_) ⟨le_rfl, le_rfl⟩ hrun
  obtain ⟨hresults, happended⟩ := history_grows (step_move hstep)
  exact ⟨hbefore.1.trans hresults, hbefore.2.trans happended⟩

/-! ## The counter of written events -/

/-- The background thread counts an event that it has appended. -/
private theorem counting_step (hcounting : s.runAt = .counting → s.appended ≠ [])
    (h : RecorderMove s l s') : s'.runAt = .counting → s'.appended ≠ [] := by
  cases h with
  | appends => simp
  | popRuns hat => simp [hat]
  | closeRuns hat => simp [hat]
  | _ => first | exact hcounting | simp

private theorem counting_of_run {path : String} {queueCapacity : ℕ} {writerOptions : WriterOptions}
    {device : Device} {labels : List (RecorderLabel P)}
    (hnew : AsyncRecorder.new path queueCapacity writerOptions device now = .ok s₀)
    (hrun : Transition.run step s₀ labels = some s) : s.runAt = .counting → s.appended ≠ [] := by
  refine Transition.run_invariant (I := fun s => s.runAt = .counting → s.appended ≠ [])
    (fun hcounting hstep => counting_step hcounting (step_move hstep)) ?_ hrun
  obtain ⟨writer, _, rfl⟩ := AsyncRecorder.new_eq hnew
  simp

omit [DecidableEq P] in
/-- The counter is never ahead of the appended events. -/
private theorem Writing.written_le (hwriting : s.Writing now)
    (hcounting : s.runAt = .counting → s.appended ≠ []) :
    s.written.toNat ≤ s.appended.length := by
  have hwritten := hwriting.written
  by_cases hat : s.runAt = .counting
  · obtain ⟨k, hk⟩ := Nat.exists_eq_succ_of_ne_zero
      (fun hzero => hcounting hat (List.length_eq_zero_iff.mp hzero))
    rw [hat, hk, Nat.succ_eq_add_one, UInt64.ofNat_add] at hwritten
    have hcount : s.written = UInt64.ofNat k := (UInt64.add_left_inj 1).mp hwritten
    rw [hcount, hk, UInt64.toNat_ofNat']
    exact (Nat.mod_le _ _).trans (Nat.le_succ k)
  · have hzero : uncounted s.runAt = 0 := by
      unfold uncounted
      split
      · rename_i hstage
        exact absurd hstage hat
      · rfl
    rw [hzero, UInt64.add_zero] at hwritten
    rw [hwritten, UInt64.toNat_ofNat']
    exact Nat.mod_le _ _

/-! ## The balance -/

omit [DecidableEq P] in
/-- Each of the producers has one event. -/
private theorem length_tagged {producers : List P} {f : P → List Event}
    (hone : ∀ p ∈ producers, (f p).length = 1) : (tagged producers f).length = producers.length := by
  induction producers with
  | nil => rfl
  | cons p producers ih =>
    have hrest := ih fun p' hp' => hone p' (List.mem_cons_of_mem p hp')
    rw [tagged, List.flatMap_cons, List.length_append, ← tagged, hrest, List.length_map,
      hone p List.mem_cons_self, List.length_cons, Nat.add_comm]

/-- The accepted events belong to calls that returned true, or wait to be counted. -/
theorem Accounts.length_accepted (haccounts : s.Accounts) :
    ∃ waiting : Finset P, (∀ p, p ∈ waiting ↔ s.AwaitsCount p) ∧
      s.queue.accepted.length = s.results true + waiting.card := by
  obtain ⟨waiting, hwaiting, hperm⟩ := haccounts.accepted_perm_pending
  refine ⟨waiting, hwaiting, ?_⟩
  have hone : ∀ p ∈ waiting.toList,
      (pending (s.submitAt p) (s.queue.activity (.producer p))).length = 1 := by
    intro p hp
    have hwaits := (hwaiting p).mp (Finset.mem_toList.mp hp)
    exact le_antisymm (length_pending _ _) (List.length_pos_of_ne_nil hwaits)
  rw [hperm.length_eq, List.length_append, length_confirmed, length_tagged hone,
    Finset.length_toList]

/-- The accepted events are appended, at work, lost or queued. -/
theorem Recording.length_accepted (hrecording : s.Recording now) :
    s.queue.accepted.length = s.appended.length +
      (inFlight s.runAt (s.queue.activity .writer) ++ lost s.failure).length +
      s.queue.queue.length := by
  have hfifo := congrArg List.length hrecording.queue.channel.fifo
  rwa [List.length_map, hrecording.writing.handed, List.length_append, List.length_append] at hfifo

/-- **What a snapshot can say.** For any producers, any interleaving, and loads taken in one instant
or at four points of a run. In one instant, the calls of `submit` that wait to be counted are all
that separates the submitted events from those that are written, at the background thread, lost or
queued. If fewer than `2 ^ 64` events have been accepted, a snapshot reports at most as many events
written or queued as it reports submitted, plus the calls that were counted between its loads, plus
those that wait to be counted. -/
theorem snapshot_le {path : String} {queueCapacity : ℕ} {writerOptions : WriterOptions}
    {device : Device} {s₁ s₂ s₃ s₄ : AsyncRecorder P}
    {labels labels₁ labels₂ labels₃ : List (RecorderLabel P)}
    (hnew : AsyncRecorder.new path queueCapacity writerOptions device now = .ok s₀)
    (hsubmitted : Transition.run step s₀ labels = some s₁)
    (hrejected : Transition.run step s₁ labels₁ = some s₂)
    (hwritten : Transition.run step s₂ labels₂ = some s₃)
    (hdepth : Transition.run step s₃ labels₃ = some s₄) :
    ∃ waiting : Finset P, (∀ p, p ∈ waiting ↔ s₄.AwaitsCount p) ∧
      s₄.stats.submitted + UInt64.ofNat waiting.card =
        s₄.stats.written + uncounted s₄.runAt +
          UInt64.ofNat (inFlight s₄.runAt (s₄.queue.activity .writer) ++ lost s₄.failure).length +
          s₄.stats.queueDepth ∧
      (s₄.queue.accepted.length < 2 ^ 64 →
        (snapshot s₁ s₂ s₃ s₄).written.toNat + (snapshot s₁ s₂ s₃ s₄).queueDepth.toNat ≤
          (snapshot s₁ s₂ s₃ s₄).submitted.toNat + (s₄.results true - s₁.results true) +
            waiting.card) := by
  have hrun₃ := Transition.run_append.mpr ⟨s₂, Transition.run_append.mpr ⟨s₁, hsubmitted, hrejected⟩,
    hwritten⟩
  have hrecording₁ := recording_of_run hnew hsubmitted
  have hrecording₃ := recording_of_run hnew hrun₃
  have hrecording₄ := recording_of_run hnew (Transition.run_append.mpr ⟨s₃, hrun₃, hdepth⟩)
  obtain ⟨waiting, hwaiting, haccepted⟩ := hrecording₄.accounts.length_accepted
  have hlength := hrecording₄.length_accepted
  refine ⟨waiting, hwaiting, ?_, fun hbound => ?_⟩
  · have hbalance := congrArg UInt64.ofNat (haccepted.symm.trans hlength)
    simp only [UInt64.ofNat_add] at hbalance
    simp only [stats, hrecording₄.accounts.submitted, hrecording₄.writing.written]
    exact hbalance
  · have hwrittenLe := hrecording₃.writing.written_le (counting_of_run hnew hrun₃)
    have happended := (history_grows_run hdepth).2
    have hresults : s₁.results true ≤ s₄.results true :=
      (history_grows_run (Transition.run_append.mpr
        ⟨s₃, Transition.run_append.mpr ⟨s₂, hrejected, hwritten⟩, hdepth⟩)).1
    have hqueued : (UInt64.ofNat s₄.queue.queue.length).toNat = s₄.queue.queue.length := by
      rw [UInt64.toNat_ofNat']
      exact Nat.mod_eq_of_lt (by omega)
    have hcounted : s₁.submitted.toNat = s₁.results true := by
      rw [hrecording₁.accounts.submitted, UInt64.toNat_ofNat']
      exact Nat.mod_eq_of_lt (by omega)
    simp only [snapshot, hqueued, hcounted]
    omega

/-- The background thread writes an event before the producer counts it. -/
def writtenFirst : List (RecorderLabel Unit) :=
  .submit () {} :: List.replicate 3 (.run (.producer ()) none) ++
  List.replicate 5 (.run .writer none)

/-- One event is reported as written and none as submitted. -/
theorem written_before_submitted : ∃ s₀ s : AsyncRecorder Unit,
    AsyncRecorder.new "log" 8 {} .reliable 0 = .ok s₀ ∧
    Transition.run step s₀ writtenFirst = some s ∧
    s.stats = { submitted := 0, rejected := 0, written := 1, queueDepth := 0 } :=
  exists_run "log" 8 {} .reliable 0 writtenFirst
    (fun s => s.stats = { submitted := 0, rejected := 0, written := 1, queueDepth := 0 })
    (by decide +kernel)

/-- The call of the producer is what is missing. -/
theorem snapshot_le_writtenFirst : ∃ s₀ s : AsyncRecorder Unit,
    AsyncRecorder.new "log" 8 {} .reliable 0 = .ok s₀ ∧
    Transition.run step s₀ writtenFirst = some s ∧
    ∃ waiting : Finset Unit, (∀ p, p ∈ waiting ↔ s.AwaitsCount p) ∧
      1 + 0 ≤ 0 + (s.results true - s.results true) + waiting.card := by
  obtain ⟨s₀, s, hnew, hrun, hstats, hlength⟩ :=
    exists_run "log" 8 {} .reliable 0 writtenFirst
      (fun s => s.stats = { submitted := 0, rejected := 0, written := 1, queueDepth := 0 } ∧
        s.queue.accepted.length = 1) (by decide +kernel)
  obtain ⟨waiting, hwaiting, _, hle⟩ := snapshot_le hnew hrun (Transition.run_nil step s)
    (Transition.run_nil step s) (Transition.run_nil step s)
  have hreported := hle (by rw [hlength]; decide)
  rw [snapshot_self, hstats] at hreported
  exact ⟨s₀, s, hnew, hrun, waiting, hwaiting, hreported⟩

end AsyncRecorder

end Hpblr
