import Hpblr.BinaryLog.Batching
import Hpblr.Recorder.Persistence

/-!
# What a crash leaves

A crash can strike between any two steps of the threads, and then what waits in the buffer of the
stream is lost with all the rest of the memory. What a reader makes of the file, or of a front part
of it, is a front part of the accepted events, and it grows with the file. As long as the writer has
not failed, the events that are not in the file are few: those in the buffer of the stream, those in
the buffer of the writer, which is shorter than the threshold, the one that the background thread
holds, and those in the queue.
-/

namespace Hpblr

variable {P : Type*} [DecidableEq P]

namespace BinaryLogReader

/-- The two endings that a cut file has: none of them is a checksum error. -/
def EndsAtCut (outcome : ReplayEnd) : Prop :=
  outcome = .endOfLog ∨ ∃ message, outcome = .threw (.fileFormatError message)

theorem CutEnd.endsAtCut {events : List Event} {n k : ℕ} {outcome : ReplayEnd}
    (h : CutEnd events n k outcome) : EndsAtCut outcome := by
  rcases h with ⟨_, hend⟩ | ⟨_, hthrew⟩
  · exact Or.inl hend
  · exact Or.inr hthrew

end BinaryLogReader

namespace AsyncRecorder

open BinaryLogReader

variable {s s₀ s' : AsyncRecorder P} {l : RecorderLabel P} {now : UInt64} {path : String}
  {queueCapacity : ℕ} {writerOptions : WriterOptions} {device : Device}
  {labels more : List (RecorderLabel P)}

/-! ## The file only grows -/

theorem content_step (h : RecorderMove s l s') :
    s.writer.out.content <+: s'.writer.out.content := by
  cases h with
  | @appends event writer _ _ happend =>
    have hgrows := s.writer.content_append event
    rwa [happend] at hgrows
  | @appendFails event _ _ _ _ happend =>
    have hgrows := s.writer.content_append event
    rwa [happend] at hgrows
  | flushes _ hflush =>
    have hgrows := s.writer.content_flush
    rwa [hflush] at hgrows
  | flushFails _ hflush =>
    have hgrows := s.writer.content_flush
    rwa [hflush] at hgrows
  | _ => exact List.prefix_rfl

theorem content_run (hrun : Transition.run step s labels = some s') :
    s.writer.out.content <+: s'.writer.out.content :=
  Transition.run_invariant (I := fun t => s.writer.out.content <+: t.writer.out.content)
    (fun h hstep => h.trans (content_step (step_move hstep))) List.prefix_rfl hrun

/-! ## What the writer has taken in -/

/-- Nothing that was taken in is given up. -/
theorem taken_step (hrecording : s.Recording now) (h : RecorderMove s l s') :
    s.taken <+: s'.taken := by
  have hwriting := hrecording.writing
  cases h with
  | appends hat =>
    have hnone := hwriting.failure_eq_none (by simp [hat])
    simp [taken, hnone, takenIn]
  | appendFails hat =>
    have hnone := hwriting.failure_eq_none (by simp [hat])
    simp [taken, hnone, takenIn]
  | flushFails hat =>
    have hnone := hwriting.failure_eq_none (by simp [hat])
    simp [taken, hnone, takenIn]
  | _ => exact List.prefix_rfl

theorem taken_run (hrecording : s.Recording now) (hrun : Transition.run step s labels = some s') :
    s.taken <+: s'.taken :=
  (Transition.run_invariant (I := fun t => t.Recording now ∧ s.taken <+: t.taken)
    (fun h hstep => ⟨h.1.step hstep, h.2.trans (taken_step h.1 (step_move hstep))⟩)
    ⟨hrecording, List.prefix_rfl⟩ hrun).2

/-- A longer list of events has the same first records. -/
theorem recordEnd_of_prefix {events events' : List Event} (h : events <+: events') {i : ℕ}
    (hi : i ≤ events.length) : recordEnd events' i = recordEnd events i := by
  obtain ⟨rest, rfl⟩ := h
  rw [recordEnd, recordEnd, recordsLength, recordsLength, List.take_append_of_le_length hi]

/-! ## A crash at any moment -/

/-- What a reader recovers from a front part of the file. -/
private theorem recovers_of_run
    (hnew : AsyncRecorder.new path queueCapacity writerOptions device now = .ok s₀)
    (hrun : Transition.run step s₀ labels = some s) {k : ℕ}
    (hk : k ≤ s.writer.out.content.length) :
    (k < 36 → ∃ message, BinaryLogReader.new path
      (IFStream.ofBytes (s.writer.out.content.take k)) = .error (.fileFormatError message)) ∧
    (36 ≤ k → ∃ n ≤ (readable s.taken).length, ∃ outcome,
      (∀ i < (readable s.taken).length, recordEnd s.taken (i + 1) ≤ k ↔ i < n) ∧
      EndsAtCut outcome ∧ Recovers path (s.writer.out.content.take k) (s.taken.take n) outcome) := by
  have hstored := (filed_of_run hnew hrun).stores.front
  obtain ⟨hshort, hlong⟩ := recovers_front path now (taken_fits (recording_of_run hnew hrun).writing)
    ((List.take_prefix k _).trans hstored)
  rw [List.length_take_of_le hk] at hshort hlong
  refine ⟨hshort, fun hheader => ?_⟩
  obtain ⟨n, hn, outcome, hwithin, hend, hrecovers⟩ := hlong hheader
  exact ⟨n, hn, outcome, hwithin, hend.endsAtCut, hrecovers⟩

/-- **What a crash leaves.** Take any two moments of any run, one not after the other, with any
interleaving of the threads, events of any severity and a device that may fail anywhere, and any
front parts of what the file holds at the two moments, the second one at least as long. The file has
only grown in between. With less than a file header the constructor throws a format error. Otherwise the reader returns the events of
a front part of those accepted by the queue, and then ends cleanly or throws a format error, never a
checksum error. What is recovered at the first moment is a front part of what is recovered at the
second. -/
theorem crash_recovers (hnew : AsyncRecorder.new path queueCapacity writerOptions device now = .ok s₀)
    (hrun : Transition.run step s₀ labels = some s)
    (hmore : Transition.run step s more = some s')
    {k k' : ℕ} (hk : k ≤ s.writer.out.content.length) (hle : k ≤ k')
    (hk' : k' ≤ s'.writer.out.content.length) :
    s.writer.out.content <+: s'.writer.out.content ∧
    (k < 36 → ∃ message, BinaryLogReader.new path
      (IFStream.ofBytes (s.writer.out.content.take k)) = .error (.fileFormatError message)) ∧
    (36 ≤ k → ∃ events outcome events' outcome',
      Recovers path (s.writer.out.content.take k) events outcome ∧
      Recovers path (s'.writer.out.content.take k') events' outcome' ∧
      EndsAtCut outcome ∧ EndsAtCut outcome' ∧ events <+: events' ∧
      events <+: s.queue.accepted.map Prod.snd ∧ events' <+: s'.queue.accepted.map Prod.snd) := by
  have hwhole : Transition.run step s₀ (labels ++ more) = some s' :=
    Transition.run_append.mpr ⟨s, hrun, hmore⟩
  obtain ⟨hshort, hrecovered⟩ := recovers_of_run hnew hrun hk
  refine ⟨content_run hmore, hshort, fun hlong => ?_⟩
  obtain ⟨n, hn, outcome, hwithin, hend, hrecovers⟩ := hrecovered hlong
  obtain ⟨n', hn', outcome', hwithin', hend', hrecovers'⟩ :=
    (recovers_of_run hnew hwhole hk').2 (hlong.trans hle)
  have hrecording := recording_of_run hnew hrun
  have htaken := taken_run hrecording hmore
  have hreadable := length_readable_of_prefix htaken
  have hlength := length_readable_le s.taken
  -- A record that is within the first cut is within the second one.
  have hmono : n ≤ n' := by
    by_contra hlt
    have hrecord := (hwithin n' (by omega)).mpr (by omega)
    rw [← recordEnd_of_prefix htaken (by omega)] at hrecord
    have hinside := (hwithin' n' (by omega)).mp (hrecord.trans hle)
    omega
  have hevents : s.taken.take n <+: s'.taken.take n' := by
    obtain ⟨rest, hrest⟩ := htaken
    have htake : (s.taken ++ rest).take n = s.taken.take n :=
      List.take_append_of_le_length (hn.trans hlength)
    rw [← hrest, ← htake]
    exact List.take_prefix_take_left hmono
  exact ⟨_, outcome, _, outcome', hrecovers, hrecovers', hend, hend', hevents,
    (List.take_prefix _ _).trans (taken_front hrecording),
    (List.take_prefix _ _).trans (taken_front (recording_of_run hnew hwhole))⟩

/-- A producer submits an event, and the background thread appends and counts it. -/
def recordsOne : List (RecorderLabel Unit) :=
  .submit () {} :: List.replicate 5 (.run (.producer ()) none) ++
  List.replicate 5 (.run .writer none)

/-- A device that fails in the middle of the second record, under a stream with a small buffer. -/
def tearsSecond : Device := { Device.failingAt 2 24 with bufferSize := 40 }

/-- A crash when the first record is in the file, and one when half of the second has followed it. -/
theorem crash_recovers_torn : ∃ (s₀ s s' : AsyncRecorder Unit) (events events' : List Event)
    (outcome outcome' : ReplayEnd),
    AsyncRecorder.new "log" 8 { flushOnEachEvent := true } tearsSecond 0 = .ok s₀ ∧
    Transition.run step s₀ recordsOne = some s ∧ s.writer.out.content.length = 84 ∧
    Transition.run step s recordsOne = some s' ∧ s'.writer.out.content.length = 108 ∧
    Recovers "log" (s.writer.out.content.take 84) events outcome ∧
    Recovers "log" (s'.writer.out.content.take 108) events' outcome' ∧ events <+: events' := by
  obtain ⟨s₀, s', hnew, hrun, hlength'⟩ :=
    exists_run "log" 8 { flushOnEachEvent := true } tearsSecond 0 (recordsOne ++ recordsOne)
      (fun s => s.writer.out.content.length = 108) (by decide +kernel)
  obtain ⟨s₁, t, hnew₁, hfirst, hlength⟩ :=
    exists_run "log" 8 { flushOnEachEvent := true } tearsSecond 0 recordsOne
      (fun s => s.writer.out.content.length = 84) (by decide +kernel)
  obtain ⟨s, hsame, hsecond⟩ := Transition.run_append.mp hrun
  cases hnew₁.symm.trans hnew
  cases hfirst.symm.trans hsame
  obtain ⟨_, _, hrecovers⟩ := crash_recovers hnew hfirst hsecond hlength.ge (by omega) hlength'.ge
  obtain ⟨events, outcome, events', outcome', hevents, hevents', _, _, hgrows, _⟩ :=
    hrecovers (by omega)
  exact ⟨s₀, _, s', events, events', outcome, outcome', hnew, hfirst, hlength, hsecond, hlength',
    hevents, hevents', hgrows⟩

/-! ## How much a crash costs -/

/-- The flush policy: what waits in the buffer of the writer is shorter than the threshold, and nothing
waits there when each event is flushed. The stream has the buffer that the device gives it. -/
structure Batched (s : AsyncRecorder P) (options : WriterOptions) (device : Device) : Prop where
  below : BinaryLogWriter.BelowThreshold options s.writer
  flushed : options.flushOnEachEvent = true → s.writer.buffer = []
  bufferSize : s.writer.out.device.bufferSize = device.bufferSize

omit [DecidableEq P] in
theorem batched_new (h : AsyncRecorder.new path queueCapacity writerOptions device now = .ok s) :
    s.Batched writerOptions device := by
  obtain ⟨writer, hwriter, rfl⟩ := AsyncRecorder.new_eq h
  obtain ⟨hbelow, _, hempty⟩ := BinaryLogWriter.belowThreshold_new hwriter
  obtain ⟨_, _, _, _, m, _, hafter⟩ := BinaryLogWriter.new_stream hwriter
  exact ⟨hbelow, fun _ => hempty, by rw [hafter]; rfl⟩

/-- As long as nothing fails, every step keeps to the flush policy. -/
theorem batched_step {options : WriterOptions} (hrecording : s.Recording now)
    (hbatched : s.failure = none → s.Batched options device) (h : RecorderMove s l s')
    (hnone : s'.failure = none) : s'.Batched options device := by
  have hwriting := hrecording.writing
  cases h with
  | @appends event writer _ hat happend =>
    obtain ⟨hbelow, hflushed, hsize⟩ := hbatched hnone
    have hrunning := hwriting.running hnone
    have hkept : BinaryLogWriter.BelowThreshold options (s.writer.append event).2 :=
      BinaryLogWriter.append_below hbelow (fun e he => by rw [happend] at he; cases he)
    have hsame := s.writer.bufferSize_call (.append event)
    rw [BinaryLogWriter.call, happend] at hsame
    rw [happend] at hkept
    refine ⟨hkept, fun heach => ?_, hsame.trans hsize⟩
    have hstored : (BinaryLogWriter.effectiveOptions options).flushOnEachEvent = true := by
      unfold BinaryLogWriter.effectiveOptions
      split
      · exact heach
      · exact heach
    have hgood := (BinaryLogWriter.append_ok hrunning.good happend).1
    have hsmall := (BinaryLogWriter.append_ok hrunning.good happend).2
    by_cases hopen : s.writer.closed = false
    · rw [BinaryLogWriter.append_eq hopen hsmall] at happend
      have hforce : s.writer.writesOut event = true := by
        rw [BinaryLogWriter.writesOut, hbelow.stored, hstored, Bool.true_or]
      rw [hforce] at happend
      obtain ⟨_, _, ⟨rfl, hempty⟩ | ⟨hwritten, _⟩⟩ :=
        BinaryLogWriter.writeBufferIfNeeded_good happend hgood
      · exact hempty rfl
      · rw [hwritten]
    · unfold BinaryLogWriter.append at happend
      rw [if_pos (by simpa using hopen)] at happend
      cases happend
  | flushes hat hflush =>
    obtain ⟨hbelow, hflushed, hsize⟩ := hbatched hnone
    have hrunning := hwriting.running hnone
    have hkept := BinaryLogWriter.flush_below hbelow
      (fun e he => by rw [hflush] at he; cases he)
    have hsame := s.writer.bufferSize_call .flush
    rw [BinaryLogWriter.call, hflush] at hsame
    rw [hflush] at hkept
    obtain ⟨d, hrefines⟩ := hrunning.refines
    have hgood := BinaryLogWriter.flush_ok hrunning.good hflush
    exact ⟨hkept, fun _ => (hrefines.flush hflush hgood).2.2.1, hsame.trans hsize⟩
  | appendFails => cases hnone
  | flushFails => cases hnone
  | _ =>
    obtain ⟨hbelow, hflushed, hsize⟩ := hbatched hnone
    exact ⟨hbelow, hflushed, hsize⟩

/-- In every reachable state in which nothing has failed, the recorder has kept to the flush policy. -/
theorem batched_of_run (hnew : AsyncRecorder.new path queueCapacity writerOptions device now = .ok s₀)
    (hrun : Transition.run step s₀ labels = some s) (hnone : s.failure = none) :
    s.Batched writerOptions device :=
  (Transition.run_invariant
    (I := fun t => t.Recording now ∧ (t.failure = none → t.Batched writerOptions device))
    (fun h hstep => ⟨h.1.step hstep, batched_step h.1 h.2 (step_move hstep)⟩)
    ⟨Recording.new hnew, fun _ => batched_new hnew⟩ hrun).2 hnone

/-- The capacity of the queue is that of its construction. -/
theorem capacity_of_run (hnew : AsyncRecorder.new path queueCapacity writerOptions device now = .ok s₀)
    (hrun : Transition.run step s₀ labels = some s) : s.queue.capacity = max queueCapacity 1 := by
  have hkept : s.queue.capacity = s₀.queue.capacity :=
    Transition.run_invariant (I := fun t => t.queue.capacity = s₀.queue.capacity)
      (fun h hstep => by
        rcases queue_step (step_move hstep) with hsame | ⟨l, hqueue⟩
        · rw [hsame, h]
        · rw [(QueueState.step_move hqueue).capacity_eq, h]) rfl hrun
  obtain ⟨writer, _, rfl⟩ := AsyncRecorder.new_eq hnew
  rw [hkept]
  change (if queueCapacity = 0 then 1 else queueCapacity) = max queueCapacity 1
  split <;> omega

/-- Every record takes at least the bytes of its header. -/
theorem length_encodeRecords_ge (events : List Event) :
    48 * events.length ≤ (encodeRecords events).length := by
  induction events with
  | nil => rfl
  | cons event events ih =>
    have hsplit : encodeRecords (event :: events) =
        recordBytes 0 event ++ encodeRecords events := rfl
    rw [hsplit, List.length_append, length_recordBytes, List.length_cons]
    omega

/-- A reader returns the events that are in the file, unless the file is empty. -/
private theorem recovers_stored (path : String) {out : OFStream} {buffer : List UInt8}
    {events streamed buffered : List Event}
    (h : Divided out buffer now events streamed buffered) (hvalid : ∀ event ∈ events, event.Valid) :
    Recovers path out.content events .endOfLog ∨
      (events = [] ∧ out.content = [] ∧ ∃ message,
        BinaryLogReader.new path (IFStream.ofBytes out.content) =
          .error (.fileFormatError message)) := by
  rcases h.stream with ⟨hcontent, _⟩ | ⟨hnil, hcontent, _⟩
  · obtain ⟨r, hread, hreplay⟩ := replay_encodeRecords path 0 now 0 hvalid
    rw [hcontent]
    exact Or.inl ⟨r, hread, hreplay⟩
  · refine Or.inr ⟨hnil, hcontent, _, BinaryLogReader.new_short path ?_⟩
    rw [hcontent]
    exact Nat.zero_lt_succ _

/-- **How much a crash costs.** In every reachable state in which the writer has not failed, the
accepted events are those that a reader of the file returns before it ends cleanly, and behind them
those in the buffer of the stream, whose records have room there, those in the buffer of the writer,
whose records are shorter than the threshold, at most one that the background thread holds, and those
in the queue. With a flush on each event the buffer of the writer is empty. As long as the file is
empty, the constructor of the reader throws, and nothing is recovered. -/
theorem crash_loses_little
    (hnew : AsyncRecorder.new path queueCapacity writerOptions device now = .ok s₀)
    (hrun : Transition.run step s₀ labels = some s) (hseverity : OnlyEnumerators labels)
    (hnone : s.failure = none) :
    let threshold := (BinaryLogWriter.effectiveOptions writerOptions).flushThresholdBytes.toNat
    ∃ events streamed buffered held,
      (Recovers path s.writer.out.content events .endOfLog ∨
        (events = [] ∧ s.writer.out.content = [] ∧ ∃ message, BinaryLogReader.new path
          (IFStream.ofBytes s.writer.out.content) = .error (.fileFormatError message))) ∧
      s.queue.accepted.map Prod.snd =
        events ++ (streamed ++ (buffered ++ (held ++ s.queue.queue))) ∧
      (encodeRecords streamed).length ≤ device.bufferSize ∧
      (encodeRecords buffered).length < threshold ∧
      (writerOptions.flushOnEachEvent = true → buffered = []) ∧ held.length ≤ 1 ∧
      s.queue.queue.length ≤ max queueCapacity 1 ∧
      s.queue.accepted.length ≤ events.length + device.bufferSize / 48 + (threshold - 1) / 48 + 1 +
        max queueCapacity 1 := by
  have hrecording := recording_of_run hnew hrun
  have hwriting := hrecording.writing
  have hbatched := batched_of_run hnew hrun hnone
  obtain ⟨d, hrefines⟩ := (hwriting.running hnone).refines
  obtain ⟨events, streamed, buffered, hsplit, hdivided⟩ := hrefines.divided
  have hvalid : ∀ event ∈ events, event.Valid := by
    intro event hevent
    refine taken_valid hrecording (onlySubmits_of_run hnew hrun hseverity) event ?_
    rw [taken, hsplit, List.append_assoc]
    exact List.mem_append_left _ hevent
  let held := inFlight s.runAt (s.queue.activity .writer)
  have haccepted : s.queue.accepted.map Prod.snd =
      events ++ (streamed ++ (buffered ++ (held ++ s.queue.queue))) := by
    rw [hrecording.queue.channel.fifo, hwriting.handed, hsplit, hnone]
    simp [lost, held]
  have hheld : held.length ≤ 1 := by
    simp only [held]
    unfold inFlight
    split <;> simp
  have hroom := hdivided.streamed_le
  rw [hbatched.bufferSize] at hroom
  have hbelow := hbatched.below.below
  rw [hdivided.buffer] at hbelow
  have hqueue := hrecording.queue.channel.bounded
  rw [capacity_of_run hnew hrun] at hqueue
  refine ⟨events, streamed, buffered, held, recovers_stored path hdivided hvalid, haccepted, hroom,
    hbelow, fun heach => ?_, hheld, hqueue, ?_⟩
  · have hempty := hbatched.flushed heach
    rw [hdivided.buffer] at hempty
    exact encodeRecords_eq_nil hempty
  · have hstreamed := length_encodeRecords_ge streamed
    have hbuffered := length_encodeRecords_ge buffered
    have hcount := congrArg List.length haccepted
    simp only [List.length_map, List.length_append] at hcount
    omega

/-- Of two accepted events the first is in the file, and the second waits in the queue. -/
theorem crash_loses_little_queued : ∃ (s₀ s : AsyncRecorder Unit) (events : List Event),
    AsyncRecorder.new "log" 8 { flushOnEachEvent := true } tearsSecond 0 = .ok s₀ ∧
    Transition.run step s₀ (recordsOne ++ recordsOne.take 6) = some s ∧
    Recovers "log" s.writer.out.content events .endOfLog ∧ s.queue.accepted.length = 2 ∧
    s.queue.accepted.length ≤ events.length + 40 / 48 + (1048576 - 1) / 48 + 1 + 8 := by
  obtain ⟨s₀, s, hnew, hrun, hfailure, haccepted, hstored⟩ :=
    exists_run "log" 8 { flushOnEachEvent := true } tearsSecond 0 (recordsOne ++ recordsOne.take 6)
      (fun s => s.failure = none ∧ s.queue.accepted.length = 2 ∧ s.writer.out.content ≠ [])
      (by decide +kernel)
  obtain ⟨events, _, _, _, hrecovers | ⟨_, hempty, _⟩, _, _, _, _, _, _, hcount⟩ :=
    crash_loses_little hnew hrun (by unfold OnlyEnumerators; decide) hfailure
  · exact ⟨s₀, s, events, hnew, hrun, hrecovers, haccepted, hcount⟩
  · exact absurd hempty hstored

end AsyncRecorder

end Hpblr
