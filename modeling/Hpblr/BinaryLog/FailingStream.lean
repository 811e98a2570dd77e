import Hpblr.BinaryLog.WriterRefinement

/-!
# The writer on a stream that fails

A stream that has failed stores nothing more. The buffer is kept after a failed write and offered
again, together with newer records, but none of it reaches the file: what is in the file is always
a front part of the header and the records that the writer has taken in.
-/

namespace Hpblr

namespace BinaryLogWriter

/-! ## What the writer has taken in -/

/-- The event of this call, if it gets past the closed check and the size check of `append`. -/
def takesIn (w : BinaryLogWriter) : WriterCall → List Event
  | .append event =>
    if w.closed ∨ event.payload.length > kMaxPayloadBytes then [] else [event]
  | .flush | .close => []

/-- The events of these calls that get past the two checks, each in the state in which its call
finds the writer. -/
def takenIn (w : BinaryLogWriter) : List WriterCall → List Event
  | [] => []
  | c :: calls => w.takesIn c ++ (w.call c).2.takenIn calls

/-- The file holds a front part of `log`; as long as the stream is good, the buffers of the stream
and of the writer hold the rest. -/
structure Stores (w : BinaryLogWriter) (log : List UInt8) : Prop where
  front : w.out.content <+: log
  rest : w.out.failed = false → w.out.received ++ w.buffer = log

variable {w : BinaryLogWriter} {log : List UInt8}

/-! ## One call -/

/-- Writing the buffer out moves it to the stream, or the stream fails. -/
theorem Stores.writeBufferIfNeeded (h : w.Stores log) (force : Bool) :
    (w.writeBufferIfNeeded force).2.Stores log := by
  have hwrite : (w.out.write w.buffer).content <+: log ∧
      ((w.out.write w.buffer).failed = false → (w.out.write w.buffer).received = log) := by
    rcases w.out.write_cases w.buffer with ⟨hfailed, heq⟩ | ⟨hgood, _, _, hreceived⟩ |
      ⟨hgood, k, _, hfailed, hcontent⟩
    · rw [heq]
      exact ⟨h.front, fun hgood => by simp [hfailed] at hgood⟩
    · have hlog := hreceived.trans (h.rest hgood)
      exact ⟨hlog ▸ List.prefix_append _ _, fun _ => hlog⟩
    · refine ⟨?_, fun hgood' => by simp [hfailed] at hgood'⟩
      rw [hcontent, ← h.rest hgood, OFStream.received, List.append_assoc]
      exact (List.prefix_append_right_inj _).mpr (List.take_prefix k _)
  rcases w.writeBufferIfNeeded_cases force with ⟨_, heq⟩ | ⟨_, _, heq⟩ | ⟨_, hfailed, e, heq⟩
  · rwa [heq]
  · rw [heq]
    exact ⟨hwrite.1, fun hgood => by simpa using hwrite.2 hgood⟩
  · rw [heq]
    exact ⟨hwrite.1, fun hgood => by simp [hfailed] at hgood⟩

/-- Synchronizing the stream moves its buffer to the file, or the stream fails. -/
theorem Stores.sync (h : w.Stores log) :
    ({ w with out := w.out.sync } : BinaryLogWriter).Stores log := by
  refine ⟨?_, fun hgood => ?_⟩
  · by_cases hfailed : w.out.failed = true
    · rw [OFStream.sync, if_pos hfailed]
      exact h.front
    · have hgood : w.out.failed = false := by simpa using hfailed
      have hrest := h.rest hgood
      rw [OFStream.received, List.append_assoc] at hrest
      rcases OFStream.sync_cases hgood with ⟨_, _, _, hcontent⟩ | ⟨k, _, _, hcontent⟩
      · rw [hcontent, ← h.rest hgood]
        exact List.prefix_append _ _
      · rw [hcontent, ← hrest, List.prefix_append_right_inj]
        exact (List.take_prefix k _).trans (List.prefix_append _ _)
  · rw [OFStream.received_sync hgood]
    exact h.rest (OFStream.sync_good hgood).1

/-- Taking an event in lengthens the log by its record. -/
theorem Stores.buffered (h : w.Stores log) (event : Event) :
    (w.buffered event).Stores (log ++ recordBytes 0 event) := by
  refine ⟨h.front.trans (List.prefix_append log _), fun hgood => ?_⟩
  rw [← h.rest hgood]
  simp [BinaryLogWriter.buffered, recordBytes]

theorem Stores.append (h : w.Stores log) (event : Event) :
    (w.append event).2.Stores (log ++ encodeRecords (w.takesIn (.append event))) := by
  rcases append_cases w event with ⟨hclosed, heq⟩ | ⟨_, hlarge, heq⟩ | ⟨hopen, hsmall, force, heq⟩
  · simpa [heq, takesIn, hclosed] using h
  · simpa [heq, takesIn, hlarge] using h
  · have htakes : w.takesIn (.append event) = [event] := by
      simp [takesIn, hopen, Nat.not_lt.mpr hsmall]
    rw [heq, htakes, encodeRecords_singleton]
    exact (h.buffered event).writeBufferIfNeeded force

theorem Stores.flush (h : w.Stores log) : w.flush.2.Stores log := by
  have hwrite := h.writeBufferIfNeeded true
  rcases w.flush_cases with ⟨_, heq⟩ | ⟨_, e, w₁, hbuffer, heq⟩ | ⟨_, w₁, result, hbuffer, heq, _⟩
  · rwa [heq]
  · rw [hbuffer] at hwrite
    rwa [heq]
  · rw [hbuffer] at hwrite
    rw [heq]
    exact hwrite.sync

theorem Stores.close (h : w.Stores log) : w.close.2.Stores log := by
  have hflush := h.flush
  rcases w.close_cases with ⟨_, heq⟩ | ⟨_, e, w₁, hstream, heq⟩ | ⟨_, e, w₁, hstream, _, heq⟩ |
    ⟨_, w₁, hstream, _, heq⟩
  · rwa [heq]
  · rw [hstream] at hflush
    rwa [heq]
  · rw [hstream] at hflush
    rw [heq]
    exact hflush.sync
  · rw [hstream] at hflush
    rw [heq]
    exact ⟨hflush.sync.front, hflush.sync.rest⟩

/-- One call, whether it throws or not, lengthens the log by the event it takes in. -/
theorem Stores.call (h : w.Stores log) (c : WriterCall) :
    (w.call c).2.Stores (log ++ encodeRecords (w.takesIn c)) := by
  cases c with
  | append event => exact h.append event
  | flush => simpa [takesIn, BinaryLogWriter.call] using h.flush
  | close => simpa [takesIn, BinaryLogWriter.call] using h.close

/-! ## What an operation leaves in the file -/

/-- Nothing is ever taken out of the file. -/
theorem content_writeBufferIfNeeded (w : BinaryLogWriter) (force : Bool) :
    w.out.content <+: (w.writeBufferIfNeeded force).2.out.content := by
  rcases w.writeBufferIfNeeded_cases force with ⟨_, heq⟩ | ⟨_, _, heq⟩ | ⟨_, _, e, heq⟩
  · rw [heq]
  · rw [heq]
    exact w.out.content_write w.buffer
  · rw [heq]
    exact w.out.content_write w.buffer

theorem content_append (w : BinaryLogWriter) (event : Event) :
    w.out.content <+: (w.append event).2.out.content := by
  rcases append_cases w event with ⟨_, heq⟩ | ⟨_, _, heq⟩ | ⟨_, _, force, heq⟩
  · rw [heq]
  · rw [heq]
  · rw [heq]
    exact (w.buffered event).content_writeBufferIfNeeded force

theorem content_flush (w : BinaryLogWriter) : w.out.content <+: w.flush.2.out.content := by
  have hwrite := w.content_writeBufferIfNeeded true
  rcases w.flush_cases with ⟨_, heq⟩ | ⟨_, e, w₁, hbuffer, heq⟩ | ⟨_, w₁, result, hbuffer, heq, _⟩
  · rw [heq]
  · rwa [heq, ← hbuffer]
  · rw [hbuffer] at hwrite
    rw [heq]
    exact hwrite.trans w₁.out.content_sync

/-! ## Failures that spare what was taken in before -/

/-- If an `append` of the event fails, then not before the bytes that are in the two buffers are in
the file. -/
def AppendSpares (w : BinaryLogWriter) (event : Event) : Prop :=
  if event.payload.length > kMaxPayloadBytes then w.out.pending ++ w.buffer = []
  else
    w.writesOut event = true →
      ∀ k ∈ w.out.fate (w.buffered event).buffer, (w.out.pending ++ w.buffer).length ≤ k

/-- If a `flush` fails, then not before the bytes that are in the two buffers are in the file. All of
them go to the file in its first operation. -/
def FlushSpares (w : BinaryLogWriter) : Prop :=
  ∀ k ∈ w.out.device 0, (w.out.pending ++ w.buffer).length ≤ k

instance (w : BinaryLogWriter) (event : Event) : Decidable (w.AppendSpares event) := by
  unfold AppendSpares
  infer_instance

instance (w : BinaryLogWriter) : Decidable w.FlushSpares := by
  unfold FlushSpares
  infer_instance

/-- A front part of the bytes to be stored contains those that wait if it is long enough. -/
private theorem waiting_prefix_iff {content waiting tail : List UInt8} {k : ℕ} :
    content ++ waiting <+: content ++ (waiting ++ tail).take k ↔ waiting.length ≤ k := by
  rw [List.prefix_append_right_inj, List.prefix_take_iff]
  exact ⟨fun h => h.2, fun h => ⟨List.prefix_append waiting tail, h⟩⟩

/-- A write of the buffer on a good stream fails exactly if the device fails in it, and stores as
much as the device says; otherwise the stream has taken the buffer. -/
theorem writeBufferIfNeeded_outcome {w w' : BinaryLogWriter} {force : Bool}
    {result : Except Exception Unit} (hgood : w.out.failed = false)
    (h : w.writeBufferIfNeeded force = (result, w')) :
    (result = .ok () ∧ (force = true → w.buffer = [] ∨ w.out.fate w.buffer = none)) ∨
      ((∃ e, result = .error e) ∧ force = true ∧ ∃ k, w.out.fate w.buffer = some k ∧
        w'.out.content = w.out.content ++ (w.out.pending ++ w.buffer).take k) := by
  rcases w.writeBufferIfNeeded_cases force with ⟨hempty, heq⟩ | ⟨_, hwritten, heq⟩ |
    ⟨hforce, hfailed, e, heq⟩
  · rw [heq] at h
    cases h
    exact Or.inl ⟨rfl, fun hforce => Or.inl (hempty hforce)⟩
  · rw [heq] at h
    cases h
    rcases w.out.write_cases w.buffer with ⟨hbad, _⟩ | ⟨_, hdevice, _⟩ | ⟨_, k, _, hfailed, _⟩
    · exact absurd (hgood.symm.trans hbad) Bool.false_ne_true
    · exact Or.inl ⟨rfl, fun _ => Or.inr hdevice⟩
    · exact absurd (hwritten.symm.trans hfailed) Bool.false_ne_true
  · rw [heq] at h
    cases h
    rcases w.out.write_cases w.buffer with ⟨hbad, _⟩ | ⟨_, _, hwritten, _⟩ | ⟨_, k, hk, _, hcontent⟩
    · exact absurd (hgood.symm.trans hbad) Bool.false_ne_true
    · exact absurd (hwritten.symm.trans hfailed) Bool.false_ne_true
    · exact Or.inr ⟨⟨e, rfl⟩, hforce, k, hk, hcontent⟩

/-- An `append` that returns normally has spared the buffers. -/
theorem appendSpares_of_ok {w w' : BinaryLogWriter} {event : Event} (hopen : w.closed = false)
    (hgood : w.out.failed = false) (h : w.append event = (.ok (), w')) : w.AppendSpares event := by
  have hsmall := (append_ok hgood h).2
  rw [append_eq hopen hsmall] at h
  rw [AppendSpares, if_neg hsmall.not_gt]
  intro hwrites k hk
  rcases writeBufferIfNeeded_outcome (w := w.buffered event) hgood h with ⟨_, hdone⟩ | ⟨⟨e, he⟩, _⟩
  · rcases hdone hwrites with hempty | hdevice
    · have hlen := congrArg List.length hempty
      simp [buffered] at hlen
    · exact absurd (hdevice.symm.trans hk) (by simp)
  · cases he

/-- An `append` that fails leaves the bytes of the buffers in the file exactly if it spares them. -/
theorem appendSpares_iff {w w' : BinaryLogWriter} {event : Event} {e : Exception}
    (hopen : w.closed = false) (hgood : w.out.failed = false)
    (h : w.append event = (.error e, w')) :
    w.out.received ++ w.buffer <+: w'.out.content ↔ w.AppendSpares event := by
  rw [OFStream.received, List.append_assoc]
  rcases append_cases w event with ⟨hclosed, _⟩ | ⟨_, hlarge, heq⟩ | ⟨_, hsmall, _⟩
  · exact absurd (hopen.symm.trans hclosed) Bool.false_ne_true
  · rw [heq] at h
    cases h
    rw [AppendSpares, if_pos hlarge]
    refine ⟨fun hfront => ?_, fun hempty => by rw [hempty, List.append_nil]⟩
    have hlen := hfront.length_le
    rw [List.length_append] at hlen
    exact List.length_eq_zero_iff.mp (by omega)
  · rw [append_eq hopen hsmall] at h
    rw [AppendSpares, if_neg hsmall.not_gt]
    rcases writeBufferIfNeeded_outcome (w := w.buffered event) hgood h with ⟨hok, _⟩ |
      ⟨_, hwrites, k, hk, hcontent⟩
    · cases hok
    · have hsplit : (w.buffered event).out.pending ++ (w.buffered event).buffer =
          (w.out.pending ++ w.buffer) ++ recordBytes 0 event := by
        simp [buffered, recordBytes]
      rw [hcontent, hsplit, show (w.buffered event).out.content = w.out.content from rfl,
        waiting_prefix_iff]
      refine ⟨fun hle _ k' hk' => ?_, fun hspares => hspares hwrites k hk⟩
      rwa [Option.some.inj (hk'.symm.trans hk)]

/-- A `flush` on a good stream stores all that waits in its first operation, or a front part. -/
theorem flush_outcome {w : BinaryLogWriter} (hopen : w.closed = false)
    (hgood : w.out.failed = false) :
    (w.out.device 0 = none ∧ w.flush.2.out.content = w.out.received ++ w.buffer) ∨
      ∃ k, w.out.device 0 = some k ∧
        w.flush.2.out.content = w.out.content ++ (w.out.pending ++ w.buffer).take k := by
  rcases w.flush_cases with ⟨hclosed, _⟩ | ⟨_, e, w₁, hwrite, heq⟩ |
    ⟨_, w₁, result, hwrite, heq, _⟩
  · exact absurd (hopen.symm.trans hclosed) Bool.false_ne_true
  · rw [heq]
    rcases writeBufferIfNeeded_outcome hgood hwrite with ⟨hok, _⟩ | ⟨_, _, k, hk, hcontent⟩
    · cases hok
    · exact Or.inr ⟨k, OFStream.device_of_fate hk, hcontent⟩
  · rw [heq]
    have hgood₁ := writeBufferIfNeeded_ok hgood hwrite
    have hreceived : w₁.out.received = w.out.received ++ w.buffer := by
      obtain ⟨_, _, ⟨rfl, hempty⟩ | ⟨_, hreceived⟩⟩ := writeBufferIfNeeded_good hwrite hgood₁
      · rw [hempty rfl, List.append_nil]
      · exact hreceived
    -- The buffer of the writer waits in that of the stream, or the stream has stored both.
    have hkept : (w₁.out.device = w.out.device ∧ w₁.out.content = w.out.content ∧
        w₁.out.pending = w.out.pending ++ w.buffer) ∨
          (w.out.device 0 = none ∧ w₁.out.pending = []) := by
      rcases w.writeBufferIfNeeded_cases true with ⟨hempty, heq₁⟩ | ⟨_, hwritten, heq₁⟩ |
        ⟨_, _, e, heq₁⟩
      · rw [heq₁] at hwrite
        cases hwrite
        exact Or.inl ⟨rfl, rfl, by rw [hempty rfl, List.append_nil]⟩
      · rw [heq₁] at hwrite
        cases hwrite
        rcases OFStream.write_kept hwritten with ⟨_, hkeeps⟩ | hstored
        · dsimp only
          rw [hkeeps]
          exact Or.inl ⟨rfl, rfl, rfl⟩
        · exact Or.inr hstored
      · rw [heq₁] at hwrite
        cases hwrite
    rcases OFStream.sync_cases hgood₁ with ⟨hdevice, _, _, hcontent⟩ | ⟨k, hdevice, _, hcontent⟩
    · rcases hkept with ⟨hsame, _⟩ | ⟨hnone, _⟩
      · exact Or.inl ⟨hsame ▸ hdevice, hcontent.trans hreceived⟩
      · exact Or.inl ⟨hnone, hcontent.trans hreceived⟩
    · rcases hkept with ⟨hsame, hstay, hwaits⟩ | ⟨hnone, hempty⟩
      · exact Or.inr ⟨k, hsame ▸ hdevice, hcontent.trans (by rw [hstay, hwaits])⟩
      · refine Or.inl ⟨hnone, hcontent.trans ?_⟩
        rw [← hreceived, OFStream.received, hempty, List.take_nil]

/-- What a `flush` on a good stream leaves: the bytes of the buffers are in the file, exactly if it
spares them. -/
theorem flushSpares_iff {w : BinaryLogWriter} (hopen : w.closed = false)
    (hgood : w.out.failed = false) :
    w.out.received ++ w.buffer <+: w.flush.2.out.content ↔ w.FlushSpares := by
  unfold FlushSpares
  rcases flush_outcome hopen hgood with ⟨hnone, hcontent⟩ | ⟨k, hk, hcontent⟩
  · rw [hcontent, hnone]
    exact ⟨fun _ k hk => by simp at hk, fun _ => List.prefix_rfl⟩
  · have hfront := @waiting_prefix_iff w.out.content (w.out.pending ++ w.buffer) [] k
    rw [List.append_nil] at hfront
    rw [hcontent, OFStream.received, List.append_assoc, hfront, hk]
    refine ⟨fun hle k' hk' => ?_, fun hspares => hspares k rfl⟩
    rwa [← Option.some.inj hk']

/-! ## Runs -/

theorem Stores.run (h : w.Stores log) (calls : List WriterCall) :
    (w.run calls).2.Stores (log ++ encodeRecords (w.takenIn calls)) := by
  induction calls generalizing w log with
  | nil => simpa [takenIn, BinaryLogWriter.run] using h
  | cons c calls ih =>
    have hrest := ih (h.call c)
    rwa [List.append_assoc, ← encodeRecords_append] at hrest

/-- A constructed writer has stored the file header. -/
theorem stores_new {path : String} {options : WriterOptions} {device : Device} {now : UInt64}
    (h : new path options device now = .ok w) : w.Stores (fileHeader 0 now 0) := by
  obtain ⟨hrefines, _⟩ := refines_new h
  obtain ⟨given, pending, hevents, hreceived, hbuffer⟩ := hrefines.split
  obtain ⟨rfl, rfl⟩ := List.append_eq_nil_iff.mp hevents.symm
  have hlog : w.out.received = fileHeader 0 now 0 := by simpa using hreceived
  exact ⟨hlog ▸ List.prefix_append _ _, fun _ => by simp [hlog, hbuffer]⟩

/-- **A failing stream only truncates.** For every run of calls by a client that catches what they
throw, whatever the device does: the file holds a front part of the file header followed by the
records of the events that got past the checks of `append`, in their order, after the calls and
after the destruction of the writer. -/
theorem content_truncated {path : String} {options : WriterOptions} {device : Device}
    {now : UInt64} (hnew : new path options device now = .ok w) (calls : List WriterCall) :
    (w.run calls).2.out.content <+: fileHeader 0 now 0 ++ encodeRecords (w.takenIn calls) ∧
    (w.run calls).2.destroy.out.content <+:
      fileHeader 0 now 0 ++ encodeRecords (w.takenIn calls) := by
  have hstores := (stores_new hnew).run calls
  exact ⟨hstores.front, hstores.close.sync.front⟩

/-- A device that fails ten bytes into the first record of the first flush. -/
def failsInRecord : Device := .failingAt 1 46

/-- Two records are taken in, and ten bytes of the first one are in the file in the end. -/
theorem content_truncated_two : ∃ w,
    new "log" { flushOnEachEvent := true } failsInRecord 0 = .ok w ∧
    w.takenIn [.append {}, .append {}, .flush, .close] = [{}, {}] ∧
    (w.run [.append {}, .append {}, .flush, .close]).2.destroy.out.content.length = 46 ∧
    (w.run [.append {}, .append {}, .flush, .close]).2.destroy.out.content <+:
      fileHeader 0 0 0 ++ encodeRecords [{}, {}] := by
  have hnew : ∃ w, new "log" { flushOnEachEvent := true } failsInRecord 0 = .ok w ∧
      w.takenIn [.append {}, .append {}, .flush, .close] = [{}, {}] ∧
      (w.run [.append {}, .append {}, .flush, .close]).2.destroy.out.content.length = 46 :=
    ⟨_, rfl, by decide +kernel, by decide +kernel⟩
  obtain ⟨w, hnew, htaken, hlength⟩ := hnew
  have hfront := (content_truncated hnew [.append {}, .append {}, .flush, .close]).2
  rw [htaken] at hfront
  exact ⟨w, hnew, htaken, hlength, hfront⟩

/-! ## One `append` -/

theorem writeBufferIfNeeded_stats (w : BinaryLogWriter) (force : Bool) :
    (w.writeBufferIfNeeded force).2.stats = w.stats := by
  rcases w.writeBufferIfNeeded_cases force with ⟨_, heq⟩ | ⟨_, _, heq⟩ | ⟨_, _, e, heq⟩ <;> rw [heq]

/-- When the stream fails, the buffer stays. -/
theorem writeBufferIfNeeded_error {force : Bool} {e : Exception}
    (h : (w.writeBufferIfNeeded force).1 = .error e) :
    (w.writeBufferIfNeeded force).2.buffer = w.buffer ∧
      (w.writeBufferIfNeeded force).2.out.failed = true := by
  rcases w.writeBufferIfNeeded_cases force with ⟨_, heq⟩ | ⟨_, _, heq⟩ | ⟨_, hfailed, e', heq⟩
  · rw [heq] at h
    cases h
  · rw [heq] at h
    cases h
  · rw [heq]
    exact ⟨rfl, hfailed⟩

/-- **What `append` leaves behind.** In every state of the writer: an `append` that the closed check
or the size check refuses changes nothing; one that returns normally has advanced both counters by
exactly its event; and one in which the stream fails while the buffer is written has taken its
event in as well, counted it and kept it at the end of the buffer, on a stream that stores nothing
more. -/
theorem append_outcome (w : BinaryLogWriter) (event : Event) :
    let w' := (w.append event).2
    let counted : WriterStats := {
      eventsWritten := w.stats.eventsWritten + 1
      bytesWritten := w.stats.bytesWritten + UInt64.ofNat (48 + event.payload.length) }
    (w.closed = true ∨ event.payload.length > kMaxPayloadBytes →
      (∃ e, (w.append event).1 = .error e) ∧ w' = w) ∧
    ((w.append event).1 = .ok () → w'.stats = counted) ∧
    (∀ e, (w.append event).1 = .error e → w.closed = false →
      event.payload.length ≤ kMaxPayloadBytes →
      w'.stats = counted ∧ w'.buffer = w.buffer ++ recordBytes 0 event ∧ w'.out.failed = true) := by
  dsimp only
  rcases append_cases w event with ⟨hclosed, heq⟩ | ⟨hopen, hlarge, heq⟩ |
    ⟨hopen, hsmall, force, heq⟩
  · rw [heq]
    refine ⟨fun _ => ⟨⟨_, rfl⟩, rfl⟩, nofun, fun _ _ hopen => ?_⟩
    exact absurd (hopen.symm.trans hclosed) Bool.false_ne_true
  · rw [heq]
    exact ⟨fun _ => ⟨⟨_, rfl⟩, rfl⟩, nofun, fun _ _ _ hsmall => absurd hlarge hsmall.not_gt⟩
  · rw [heq, writeBufferIfNeeded_stats]
    refine ⟨fun hrefused => ?_, fun _ => rfl, fun e herror _ _ => ?_⟩
    · rcases hrefused with hclosed | hlarge
      · exact absurd (hopen.symm.trans hclosed) Bool.false_ne_true
      · exact absurd hlarge hsmall.not_gt
    · obtain ⟨hbuffer, hfailed⟩ := writeBufferIfNeeded_error herror
      refine ⟨rfl, hbuffer.trans ?_, hfailed⟩
      simp [buffered, recordBytes]

/-- An event whose record has no room in the buffer of the stream. -/
def largeEvent : Event := { payload := List.replicate 9000 0 }

/-- An `append` in which the stream fails throws, and yet its event is counted and in the buffer. -/
theorem append_counts_failure : ∃ w e,
    new "log" { flushOnEachEvent := true } .full 0 = .ok w ∧
    (w.append largeEvent).1 = .error e ∧ w.stats.eventsWritten = 0 ∧
    (w.append largeEvent).2.stats.eventsWritten = 1 ∧ (w.append largeEvent).2.buffer ≠ [] := by
  obtain ⟨w, hnew, hopen, hgood, hflush, hcount, hdevice, hsize⟩ : ∃ w,
      new "log" { flushOnEachEvent := true } .full 0 = .ok w ∧ w.closed = false ∧
      w.out.failed = false ∧ w.options.flushOnEachEvent = true ∧ w.stats.eventsWritten = 0 ∧
      w.out.device 0 = some 0 ∧ w.out.device.bufferSize = 8191 :=
    ⟨_, rfl, rfl, rfl, rfl, rfl, rfl, rfl⟩
  have hpayload : largeEvent.payload.length = 9000 := List.length_replicate
  have hsmall : largeEvent.payload.length ≤ kMaxPayloadBytes := by
    rw [hpayload]
    decide
  have hoverflows : ¬ w.out.Keeps (w.buffered largeEvent).buffer := by
    simp only [OFStream.Keeps, buffered, List.length_append, RecordHeader.length_toBytes, hpayload,
      hsize]
    omega
  have hfailed : (w.out.write (w.buffered largeEvent).buffer).failed = true := by
    rw [OFStream.write, hgood, if_neg Bool.false_ne_true, if_neg hoverflows]
    exact (OFStream.transfer_some hdevice _).1
  have hwrites : w.writesOut largeEvent = true := by simp [writesOut, hflush]
  rcases (w.buffered largeEvent).writeBufferIfNeeded_cases true with ⟨hempty, _⟩ | ⟨_, hwritten, _⟩ |
    ⟨_, _, e, heq⟩
  · have hlen := congrArg List.length (hempty rfl)
    simp [buffered] at hlen
  · exact absurd (hwritten.symm.trans hfailed) Bool.false_ne_true
  · refine ⟨w, e, hnew, ?_⟩
    rw [append_eq hopen hsmall, hwrites, heq]
    refine ⟨rfl, hcount, ?_, ?_⟩
    · simp [buffered, hcount]
    · intro hempty
      have hlen := congrArg List.length hempty
      simp [buffered] at hlen

end BinaryLogWriter

end Hpblr
