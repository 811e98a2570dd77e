import Hpblr.BinaryLog.FailingStream
import Hpblr.BinaryLog.Truncation
import Hpblr.Recorder.NoLoss

/-!
# How much of what is counted is in the file

`written_` counts the events whose `append` has returned, and `append` has then put the record into
the buffer of the writer, from where it goes on into the buffer of the stream. When the writer fails,
the records in the two buffers may get lost. The file is a front part of the log of the events that
the writer has taken in; whether all counted events are in it is settled by the step in which the
writer fails.
-/

namespace Hpblr

variable {P : Type*} [DecidableEq P]

namespace AsyncRecorder

/-- The event that `append` has taken in although it failed. -/
def takenIn : Option WriterFailure → List Event
  | some (.append event) => if event.payload.length > kMaxPayloadBytes then [] else [event]
  | _ => []

/-- Nothing else is taken in after a failure than the event on which `append` failed, and only if it
fits the format. -/
theorem takenIn_cases (failure : Option WriterFailure) : takenIn failure = [] ∨
    ∃ event, takenIn failure = [event] ∧ lost failure = [event] ∧
      event.payload.length ≤ kMaxPayloadBytes := by
  rcases failure with _ | event | _
  · exact Or.inl rfl
  · by_cases hlarge : event.payload.length > kMaxPayloadBytes
    · exact Or.inl (if_pos hlarge)
    · exact Or.inr ⟨event, if_neg hlarge, rfl, Nat.not_lt.mp hlarge⟩
  · exact Or.inl rfl

/-- The events whose records are in the stream or in the buffer, or were in the buffer when the
writer failed. -/
def taken (s : AsyncRecorder P) : List Event := s.appended ++ takenIn s.failure

/-- The file and the buffers hold the log of the events that the writer has taken in. -/
structure Filed (s : AsyncRecorder P) (now : UInt64) : Prop where
  closed : s.writer.closed = false
  stores : s.writer.Stores (fileHeader 0 now 0 ++ encodeRecords (s.appended ++ takenIn s.failure))

/-- The records of all appended events are in the file. -/
def Persisted (s : AsyncRecorder P) (now : UInt64) : Prop :=
  s.appended = [] ∨ fileHeader 0 now 0 ++ encodeRecords s.appended <+: s.writer.out.content

/-- A step that, once an event has been appended, does not let the writer fail before the bytes that
wait in the two buffers are in the file. -/
def SparesBuffers (s : AsyncRecorder P) : RecorderLabel P → Prop
  | .run .writer _ =>
    match s.runAt with
    | .appending event => s.appended = [] ∨ s.writer.AppendSpares event
    | .flushing => s.appended = [] ∨ s.writer.FlushSpares
    | _ => True
  | _ => True

instance (s : AsyncRecorder P) (l : RecorderLabel P) : Decidable (s.SparesBuffers l) := by
  unfold SparesBuffers
  split
  · split <;> infer_instance
  · infer_instance

variable {s s₀ s' : AsyncRecorder P} {l : RecorderLabel P} {n : Option (RecorderThread P)}
  {now : UInt64}

/-! ## What the writer has taken in -/

omit [DecidableEq P] in
/-- While an event is in the hands of the background thread, nothing has failed. -/
theorem Writing.inFlight_of_failed (hwriting : s.Writing now) {failure : WriterFailure}
    (h : s.failure = some failure) (a : Activity Event) : inFlight s.runAt a = [] := by
  rcases (hwriting.failed failure h).handler with ⟨e, hat⟩ | ⟨hat | hat, _⟩
  · rw [hat]
    rfl
  · rw [hat]
    rfl
  · rw [hat]
    rfl

omit [DecidableEq P] in
/-- What the writer has taken in are events that the queue has handed out, from the first one on. -/
theorem taken_handed (hwriting : s.Writing now) : s.taken <+: s.queue.handed := by
  rw [hwriting.handed, taken, List.prefix_append_right_inj]
  cases hfailure : s.failure with
  | none => exact List.nil_prefix
  | some failure =>
    rw [hwriting.inFlight_of_failed hfailure, List.nil_append]
    rcases takenIn_cases (some failure) with hnone | ⟨event, htaken, hlost, _⟩
    · rw [hnone]
      exact List.nil_prefix
    · rw [htaken, hlost]

/-- So they are events that the queue has accepted, from the first one on. -/
theorem taken_front (hrecording : s.Recording now) :
    s.taken <+: s.queue.accepted.map Prod.snd := by
  rw [hrecording.queue.channel.fifo]
  exact (taken_handed hrecording.writing).trans (List.prefix_append _ _)

omit [DecidableEq P] in
/-- The events taken in fit the format. -/
theorem taken_fits (hwriting : s.Writing now) :
    ∀ event ∈ s.taken, event.payload.length ≤ kMaxPayloadBytes := by
  intro event hevent
  rcases List.mem_append.mp hevent with happended | htaken
  · exact hwriting.fits event happended
  · rcases takenIn_cases s.failure with hnone | ⟨event', htaken', _, hsmall⟩
    · rw [hnone] at htaken
      cases htaken
    · rw [htaken', List.mem_singleton] at htaken
      rw [htaken]
      exact hsmall

/-- If all events that producers submit have one of the six severities, those taken in can be
represented. -/
theorem taken_valid (hrecording : s.Recording now)
    (honly : s.OnlySubmits (fun event => event.severity.IsEnumerator)) :
    ∀ event ∈ s.taken, event.Valid :=
  fun event hevent => ⟨hrecording.accounts.accepted_only honly event
    ((taken_front hrecording).subset hevent), taken_fits hrecording.writing event hevent⟩

/-! ## The file -/

/-- Every step keeps what is known of the file. -/
private theorem Filed.step (hfiled : s.Filed now) (hrecording : s.Recording now)
    (h : RecorderMove s l s') : s'.Filed now := by
  by_cases hl : ∃ n, l = .run .writer n
  · obtain ⟨n, rfl⟩ := hl
    have hwriting := hrecording.writing
    have hstores := hfiled.stores
    cases h with
    | @appends event _ _ hat happend =>
      have hnone := hwriting.failure_eq_none (by simp [hat])
      have hsmall := (BinaryLogWriter.append_ok (hwriting.running hnone).good happend).2
      have hkept := hstores.append event
      have hclosed := BinaryLogWriter.append_closed s.writer event
      rw [happend] at hkept hclosed
      refine ⟨hclosed.trans hfiled.closed, ?_⟩
      simpa [hnone, takenIn, BinaryLogWriter.takesIn, hfiled.closed, hsmall.not_gt] using hkept
    | @appendFails event e _ _ hat happend =>
      have hnone := hwriting.failure_eq_none (by simp [hat])
      have hkept := hstores.append event
      have hclosed := BinaryLogWriter.append_closed s.writer event
      rw [happend] at hkept hclosed
      refine ⟨hclosed.trans hfiled.closed, ?_⟩
      simpa [hnone, takenIn, BinaryLogWriter.takesIn, hfiled.closed] using hkept
    | flushes hat hflush =>
      have hkept := hstores.flush
      have hclosed := s.writer.flush_closed
      rw [hflush] at hkept hclosed
      exact ⟨hclosed.trans hfiled.closed, hkept⟩
    | flushFails hat hflush =>
      have hnone := hwriting.failure_eq_none (by simp [hat])
      have hkept := hstores.flush
      have hclosed := s.writer.flush_closed
      rw [hflush] at hkept hclosed
      rw [hnone] at hkept
      exact ⟨hclosed.trans hfiled.closed, hkept⟩
    | _ => exact ⟨hfiled.closed, hfiled.stores⟩
  · have hsame := sameWriter_of_move hrecording.stages h (not_exists.mp hl)
    refine ⟨?_, ?_⟩
    · rw [hsame.writer]
      exact hfiled.closed
    · rw [hsame.writer, hsame.appended, hsame.failure]
      exact hfiled.stores

omit [DecidableEq P] in
private theorem Filed.new {path : String} {queueCapacity : ℕ} {writerOptions : WriterOptions}
    {device : Device} (h : AsyncRecorder.new path queueCapacity writerOptions device now = .ok s) :
    s.Filed now := by
  obtain ⟨writer, hwriter, rfl⟩ := AsyncRecorder.new_eq h
  refine ⟨(BinaryLogWriter.refines_new hwriter).1.closed, ?_⟩
  simpa [takenIn] using BinaryLogWriter.stores_new hwriter

/-- What is known of the recorder and of the file in every reachable state. -/
theorem filed_of_run {path : String} {queueCapacity : ℕ} {writerOptions : WriterOptions}
    {device : Device} {labels : List (RecorderLabel P)}
    (hnew : AsyncRecorder.new path queueCapacity writerOptions device now = .ok s₀)
    (hrun : Transition.run step s₀ labels = some s) : s.Filed now :=
  (Transition.run_invariant (I := fun s => s.Recording now ∧ s.Filed now)
    (fun h hstep => ⟨h.1.step hstep, h.2.step h.1 (step_move hstep)⟩)
    ⟨Recording.new hnew, Filed.new hnew⟩ hrun).2

/-! ## The step in which the writer fails -/

omit [DecidableEq P] in
/-- As long as nothing has failed, the file and the buffers hold the log of the appended events. -/
private theorem Filed.log_eq (hfiled : s.Filed now) (hwriting : s.Writing now)
    (hnone : s.failure = none) : s.writer.out.received ++ s.writer.buffer =
      fileHeader 0 now 0 ++ encodeRecords s.appended := by
  rw [hfiled.stores.rest (hwriting.running hnone).good, hnone]
  simp [takenIn]

omit [DecidableEq P] in
/-- The steps of the other threads do not touch the writer. -/
private theorem sparesBuffers_of_other (hl : ∀ n, l ≠ .run .writer n) : s.SparesBuffers l := by
  unfold SparesBuffers
  split
  · rename_i n
    exact absurd rfl (hl n)
  · trivial

/-- The records of all appended events get into the file, or the writer has not failed: this stays
so exactly through the steps that spare the buffers. -/
private theorem persisted_step (hrecording : s.Recording now) (hfiled : s.Filed now)
    (h : RecorderMove s l s') : (s'.failure = none ∨ s'.Persisted now) ↔
      (s.failure = none ∨ s.Persisted now) ∧ s.SparesBuffers l := by
  have hwriting := hrecording.writing
  by_cases hl : ∃ n, l = .run .writer n
  · obtain ⟨n, rfl⟩ := hl
    cases h with
    | appends hat happend =>
      have hnone := hwriting.failure_eq_none (by simp [hat])
      have hspares : s.SparesBuffers (.run .writer n) := by
        simp only [SparesBuffers, hat]
        exact Or.inr (BinaryLogWriter.appendSpares_of_ok hfiled.closed
          (hwriting.running hnone).good happend)
      exact ⟨fun _ => ⟨Or.inl hnone, hspares⟩, fun _ => Or.inl hnone⟩
    | appendFails hat happend =>
      have hnone := hwriting.failure_eq_none (by simp [hat])
      have hstored := BinaryLogWriter.appendSpares_iff hfiled.closed (hwriting.running hnone).good
        happend
      rw [hfiled.log_eq hwriting hnone] at hstored
      simp [SparesBuffers, hat, hnone, Persisted, hstored]
    | flushes hat hflush =>
      have hnone := hwriting.failure_eq_none (by simp [hat])
      have hgood := (hwriting.running hnone).good
      have hstored := BinaryLogWriter.flushSpares_iff hfiled.closed hgood
      have hgood' := BinaryLogWriter.flush_ok hgood hflush
      obtain ⟨d, hrefines⟩ := (hwriting.running hnone).refines
      obtain ⟨_, hkept, hbuffer, hpending⟩ := hrefines.flush hflush hgood'
      have hcontent := hkept.content_of_closed hbuffer hpending
      rw [hfiled.log_eq hwriting hnone, hflush] at hstored
      have hspares : s.SparesBuffers (.run .writer n) := by
        simp only [SparesBuffers, hat]
        exact Or.inr (hstored.mp (by rw [hcontent]))
      exact ⟨fun _ => ⟨Or.inl hnone, hspares⟩, fun _ => Or.inl hnone⟩
    | flushFails hat hflush =>
      have hnone := hwriting.failure_eq_none (by simp [hat])
      have hstored := BinaryLogWriter.flushSpares_iff hfiled.closed (hwriting.running hnone).good
      rw [hfiled.log_eq hwriting hnone, hflush] at hstored
      simp [SparesBuffers, hat, hnone, Persisted, hstored]
    | popCalled hat => exact ⟨fun h => ⟨h, by simp [SparesBuffers, hat]⟩, fun h => h.1⟩
    | popRuns hat => exact ⟨fun h => ⟨h, by simp [SparesBuffers, hat]⟩, fun h => h.1⟩
    | popReturns hat => exact ⟨fun h => ⟨h, by simp [SparesBuffers, hat]⟩, fun h => h.1⟩
    | popEnds hat => exact ⟨fun h => ⟨h, by simp [SparesBuffers, hat]⟩, fun h => h.1⟩
    | counts hat => exact ⟨fun h => ⟨h, by simp [SparesBuffers, hat]⟩, fun h => h.1⟩
    | setsError hat => exact ⟨fun h => ⟨h, by simp [SparesBuffers, hat]⟩, fun h => h.1⟩
    | closeRuns hat => exact ⟨fun h => ⟨h, by simp [SparesBuffers, hat]⟩, fun h => h.1⟩
    | closeReturns hat => exact ⟨fun h => ⟨h, by simp [SparesBuffers, hat]⟩, fun h => h.1⟩
  · have hsame := sameWriter_of_move hrecording.stages h (not_exists.mp hl)
    unfold Persisted
    rw [hsame.failure, hsame.writer, hsame.appended]
    exact ⟨fun h => ⟨h, sparesBuffers_of_other (not_exists.mp hl)⟩, fun h => h.1⟩

/-- After a run the records of all appended events are in the file, or the writer has not failed,
exactly if every step has spared the buffers. -/
private theorem persisted_iff {path : String} {queueCapacity : ℕ} {writerOptions : WriterOptions}
    {device : Device} {labels : List (RecorderLabel P)}
    (hnew : AsyncRecorder.new path queueCapacity writerOptions device now = .ok s₀)
    (hrun : Transition.run step s₀ labels = some s) :
    (s.failure = none ∨ s.Persisted now) ↔ Transition.Along step SparesBuffers s₀ labels := by
  have hnone : s₀.failure = none := by
    obtain ⟨writer, _, rfl⟩ := AsyncRecorder.new_eq hnew
    rfl
  have hiff := Transition.along_iff (I := fun s => s.Recording now ∧ s.Filed now)
    (J := fun s => s.failure = none ∨ s.Persisted now)
    (fun h hstep => ⟨h.1.step hstep, h.2.step h.1 (step_move hstep)⟩)
    (fun h hstep => persisted_step h.1 h.2 (step_move hstep))
    ⟨Recording.new hnew, Filed.new hnew⟩ hrun
  rw [hiff]
  exact ⟨fun h => h.2, fun h => ⟨Or.inl hnone, h⟩⟩

/-! ## What a reader returns -/

/-- A reader of the file returns these events, and then ends or throws. Without a whole file header
the constructor throws. -/
def Delivers (s : AsyncRecorder P) (path : String) (events : List Event) : Prop :=
  (events = [] ∧
    ∃ e, BinaryLogReader.new path (IFStream.ofBytes s.writer.out.content) = .error e) ∨
  ∃ outcome, BinaryLogReader.Recovers path s.writer.out.content events outcome

omit [DecidableEq P] in
/-- The file is long enough for the records of all appended events, or there are none. -/
private theorem Filed.persisted_iff_length (hfiled : s.Filed now) : s.Persisted now ↔
    s.appended = [] ∨ 36 + (encodeRecords s.appended).length ≤ s.writer.out.content.length := by
  have hlog : fileHeader 0 now 0 ++ encodeRecords s.appended <+:
      fileHeader 0 now 0 ++ encodeRecords s.taken := by
    rw [taken, encodeRecords_append, ← List.append_assoc]
    exact List.prefix_append _ _
  have hlength : (fileHeader 0 now 0 ++ encodeRecords s.appended).length =
      36 + (encodeRecords s.appended).length := by
    rw [List.length_append, length_fileHeader]
  rw [Persisted, ← hlength]
  exact or_congr_right
    ⟨List.IsPrefix.length_le, List.prefix_of_prefix_length_le hlog hfiled.stores.front⟩

omit [DecidableEq P] in
/-- A reader returns the events at the front whose records are in the file; these are all appended
ones exactly if their records are in the file. -/
private theorem Filed.delivers (hfiled : s.Filed now) (path : String)
    (hvalid : ∀ event ∈ s.taken, event.Valid) :
    ∃ k, s.Delivers path (s.taken.take k) ∧
      (s.appended.length ≤ (s.taken.take k).length ↔ s.Persisted now) := by
  rw [hfiled.persisted_iff_length]
  obtain ⟨hshort, hlong⟩ := BinaryLogReader.recovers_front path now
    (fun event hmem => (hvalid event hmem).payload) hfiled.stores.front
  rcases Nat.lt_or_ge s.writer.out.content.length 36 with hless | hheader
  · obtain ⟨message, herror⟩ := hshort hless
    refine ⟨0, Or.inl ⟨List.take_zero, _, herror⟩, ?_⟩
    rw [List.take_zero, List.length_nil, Nat.le_zero, List.length_eq_zero_iff]
    exact ⟨Or.inl, fun h => h.resolve_right (by omega)⟩
  · obtain ⟨n, hn, outcome, hwithin, _, hrecovers⟩ := hlong hheader
    rw [readable_eq hvalid] at hn hwithin
    refine ⟨n, Or.inr ⟨outcome, hrecovers⟩, ?_⟩
    rw [List.length_take_of_le hn]
    cases happended : s.appended.length with
    | zero => simp [List.length_eq_zero_iff.mp happended]
    | succ m =>
      -- The last appended event is returned exactly if the file reaches to the end of its record.
      have hlast := hwithin m (by rw [taken, List.length_append]; omega)
      have hrecords : recordEnd s.taken (m + 1) = 36 + (encodeRecords s.appended).length := by
        rw [recordEnd, recordsLength, taken, ← happended, List.take_left]
      have hsome : s.appended ≠ [] := fun hnil => by simp [hnil] at happended
      rw [hrecords] at hlast
      rw [hlast, or_iff_right hsome]
      exact Nat.succ_le_iff

/-- **What the counter of written events is worth.** For any producers, any interleaving, any
options, events of the six severities and a writer that fails anywhere or nowhere: once `stop` has
completed, a reader of the file returns a front part of the events that the queue handed out; and
the counter is at most their number exactly if the writer, once it had appended an event, never
failed before the bytes in the two buffers were in the file. For the second half, fewer than
`2 ^ 64` events have been appended. It is at most their number whenever `stop` has returned
normally. -/
theorem written_le_iff {path : String} {queueCapacity : ℕ} {writerOptions : WriterOptions}
    {device : Device} {labels : List (RecorderLabel P)}
    (hnew : AsyncRecorder.new path queueCapacity writerOptions device now = .ok s₀)
    (hrun : Transition.run step s₀ labels = some s) (hseverity : OnlyEnumerators labels)
    (hstopped : s.stops ≠ []) :
    ∃ events, s.Delivers path events ∧ events <+: s.queue.handed ∧
      (Transition.Along step SparesBuffers s₀ labels → s.stats.written.toNat ≤ events.length) ∧
      (s.appended.length < 2 ^ 64 → s.stats.written.toNat ≤ events.length →
        Transition.Along step SparesBuffers s₀ labels) ∧
      (.returned ∈ s.stops → s.stats.written.toNat ≤ events.length) := by
  have hrecording := recording_of_run hnew hrun
  have hfiled := filed_of_run hnew hrun
  have hspared := persisted_iff hnew hrun
  have hwriting := hrecording.writing
  obtain ⟨r, hmem⟩ := List.exists_mem_of_ne_nil _ hstopped
  have hended := (hrecording.stopping.stops r hmem).1
  have hvalid := taken_valid hrecording (onlySubmits_of_run hnew hrun hseverity)
  have hwritten : s.stats.written = UInt64.ofNat s.appended.length := by
    have hcount := hwriting.written
    rw [hended] at hcount
    simpa [uncounted, stats] using hcount
  obtain ⟨k, hdelivers, hall⟩ := hfiled.delivers path hvalid
  have hcounted : Transition.Along step SparesBuffers s₀ labels →
      s.stats.written.toNat ≤ (s.taken.take k).length := by
    intro halong
    rw [hwritten, UInt64.toNat_ofNat']
    refine (Nat.mod_le _ _).trans (hall.mpr ?_)
    rcases hspared.mpr halong with hnone | hpersisted
    · rw [Persisted, hwriting.content_of_ended hended hnone]
      exact Or.inr List.prefix_rfl
    · exact hpersisted
  refine ⟨_, hdelivers, (List.take_prefix k _).trans (taken_handed hwriting), hcounted, fun hbound hle => ?_,
    fun hreturned => ?_⟩
  · rw [hwritten, UInt64.toNat_ofNat', Nat.mod_eq_of_lt hbound] at hle
    exact hspared.mp (Or.inr (hall.mp hle))
  · have hnone := (hrecording.stopping.stops _ hreturned).2.mp rfl
    exact hcounted (hspared.mp (Or.inl hnone))

/-- The event is counted as written, the final flush stores nothing, and a reader returns nothing. -/
theorem written_overstates : OnlyEnumerators flushFailure ∧ ∃ s₀ s : AsyncRecorder Unit,
    AsyncRecorder.new "log" 8 {} .full 0 = .ok s₀ ∧
    Transition.run step s₀ flushFailure = some s ∧ s.stops ≠ [] ∧ s.stats.written = 1 ∧
    s.Delivers "log" [] := by
  obtain ⟨s₀, s, hnew, hrun, hstopped, hwritten, hcontent⟩ :=
    exists_run "log" 8 {} .full 0 flushFailure
      (fun s => s.stops ≠ [] ∧ s.stats.written = 1 ∧ s.writer.out.content = [])
      (by decide +kernel)
  refine ⟨by unfold OnlyEnumerators; decide, s₀, s, hnew, hrun, hstopped, hwritten,
    Or.inl ⟨rfl, _, BinaryLogReader.new_short "log" ?_⟩⟩
  rw [hcontent]
  decide

/-- The final flush fails behind the last byte of the record, and the count is right. -/
theorem written_le_iff_spared : ∃ s₀ s : AsyncRecorder Unit,
    AsyncRecorder.new "log" 8 {} (.failingAt 1 84) 0 = .ok s₀ ∧
    Transition.run step s₀ flushFailure = some s ∧ s.failure = some .flush ∧
    ∃ events, s.Delivers "log" events ∧ s.stats.written = 1 ∧ 1 ≤ events.length := by
  obtain ⟨s₀, s, hnew, hrun, hfailure, hstopped, hwritten⟩ :=
    exists_run "log" 8 {} (.failingAt 1 84) 0 flushFailure
      (fun s => s.failure = some .flush ∧ s.stops ≠ [] ∧ s.stats.written = 1) (by decide +kernel)
  have halong : Transition.Along step SparesBuffers s₀ flushFailure := by
    have hstart : (match AsyncRecorder.new (P := Unit) "log" 8 {} (.failingAt 1 84) 0 with
      | .ok s₀ => decide (Transition.Along step SparesBuffers s₀ flushFailure)
      | .error _ => false) = true := by decide +kernel
    rw [hnew] at hstart
    exact of_decide_eq_true hstart
  obtain ⟨events, hdelivers, _, hle, _⟩ :=
    written_le_iff hnew hrun (by unfold OnlyEnumerators; decide) hstopped
  have hcount := hle halong
  rw [hwritten] at hcount
  exact ⟨s₀, s, hnew, hrun, hfailure, events, hdelivers, hwritten, hcount⟩

end AsyncRecorder

end Hpblr
