import Hpblr.BinaryLog.Writer

/-!
# What the operations of the writer do

First the ways each operation can go, and from them one lemma for each operation and each kind of
outcome: what a stream that is still good says about the operation that left it so, how an operation
on a device that does not fail goes, and what becomes of the closed flag. The proofs about runs use
these lemmas and never unfold an operation.
-/

namespace Hpblr

namespace BinaryLogWriter

/-! ## The ways an operation can go -/

/-- The three ways `write_buffer_if_needed` can go: there is nothing to do, the buffer is stored, or
the stream fails and the buffer is kept. -/
theorem writeBufferIfNeeded_cases (w : BinaryLogWriter) (force : Bool) :
    ((force = true → w.buffer = []) ∧ w.writeBufferIfNeeded force = (.ok (), w)) ∨
    (force = true ∧ (w.out.write w.buffer).failed = false ∧ w.writeBufferIfNeeded force =
      (.ok (), { w with out := w.out.write w.buffer, buffer := [] })) ∨
    (force = true ∧ (w.out.write w.buffer).failed = true ∧ ∃ e,
      w.writeBufferIfNeeded force = (.error e, { w with out := w.out.write w.buffer })) := by
  unfold writeBufferIfNeeded
  by_cases hskip : (!force || w.buffer.isEmpty) = true
  · refine Or.inl ⟨fun hforce => ?_, if_pos hskip⟩
    simpa [hforce] using hskip
  · have hforce : force = true ∧ w.buffer.isEmpty = false := by simpa using hskip
    rw [if_neg hskip, writeAll, hforce.2, if_neg Bool.false_ne_true]
    by_cases hfailed : (w.out.write w.buffer).failed = true
    · rw [if_pos hfailed]
      exact Or.inr (Or.inr ⟨hforce.1, hfailed, _, rfl⟩)
    · rw [if_neg hfailed]
      exact Or.inr (Or.inl ⟨hforce.1, by simpa using hfailed, rfl⟩)

/-- The buffer and the counters after `append` has taken an event in, before it writes. -/
def buffered (w : BinaryLogWriter) (event : Event) : BinaryLogWriter :=
  { w with
    buffer := w.buffer ++ (recordHeader 0 event).toBytes ++ event.payload
    stats := {
      eventsWritten := w.stats.eventsWritten + 1
      bytesWritten := w.stats.bytesWritten + UInt64.ofNat (48 + event.payload.length) } }

/-- Whether `append` writes the buffer out once it has taken an event in. -/
def writesOut (w : BinaryLogWriter) (event : Event) : Bool :=
  w.options.flushOnEachEvent ||
    decide ((w.buffered event).buffer.length ≥ w.options.flushThresholdBytes.toNat)

/-- Past the first two checks `append` takes the event in; the other checks never fire. -/
theorem append_eq {w : BinaryLogWriter} {event : Event} (hopen : w.closed = false)
    (hsmall : event.payload.length ≤ kMaxPayloadBytes) :
    w.append event = (w.buffered event).writeBufferIfNeeded (w.writesOut event) := by
  have hsmall' : ¬ event.payload.length > 2 ^ 32 - 1 := by
    unfold kMaxPayloadBytes at hsmall
    omega
  have hheader : ¬ 48 ≠ kRecordHeaderSize.toNat := by simp
  unfold append
  rw [if_neg (by simp [hopen]), if_neg hsmall.not_gt, if_neg hsmall']
  simp only [encodeRecordHeader_eq, RecordHeader.length_toBytes]
  rw [if_neg hheader]
  rfl

/-- The three ways `append` can go. -/
theorem append_cases (w : BinaryLogWriter) (event : Event) :
    (w.closed = true ∧
      w.append event = (.error (.ioError "cannot append to closed binary log"), w)) ∨
    (w.closed = false ∧ event.payload.length > kMaxPayloadBytes ∧ w.append event =
      (.error (.fileFormatError ("payload too large: " ++ toString event.payload.length)), w)) ∨
    (w.closed = false ∧ event.payload.length ≤ kMaxPayloadBytes ∧ ∃ force,
      w.append event = (w.buffered event).writeBufferIfNeeded force) := by
  by_cases hclosed : w.closed = true
  · exact Or.inl ⟨hclosed, by unfold append; exact if_pos hclosed⟩
  · have hopen : w.closed = false := by simpa using hclosed
    by_cases hlarge : event.payload.length > kMaxPayloadBytes
    · refine Or.inr (Or.inl ⟨hopen, hlarge, ?_⟩)
      unfold append
      rw [if_neg hclosed, if_pos hlarge]
    · have hsmall := Nat.not_lt.mp hlarge
      exact Or.inr (Or.inr ⟨hopen, hsmall, _, append_eq hopen hsmall⟩)

/-- The ways `flush` can go: the writer is closed, the buffer cannot be written, or the stream is
synchronized behind it. -/
theorem flush_cases (w : BinaryLogWriter) :
    (w.closed = true ∧ w.flush = (.ok (), w)) ∨
    (w.closed = false ∧ ∃ e w₁, w.writeBufferIfNeeded true = (.error e, w₁) ∧
      w.flush = (.error e, w₁)) ∨
    (w.closed = false ∧ ∃ w₁ result, w.writeBufferIfNeeded true = (.ok (), w₁) ∧
      w.flush = (result, { w₁ with out := w₁.out.sync }) ∧
      (result = .ok () ↔ w₁.out.sync.failed = false)) := by
  unfold flush
  by_cases hclosed : w.closed = true
  · exact Or.inl ⟨hclosed, if_pos hclosed⟩
  · have hopen : w.closed = false := by simpa using hclosed
    rw [if_neg hclosed]
    rcases hwrite : w.writeBufferIfNeeded true with ⟨e | u, w₁⟩
    · exact Or.inr (Or.inl ⟨hopen, e, w₁, rfl, rfl⟩)
    · refine Or.inr (Or.inr ⟨hopen, w₁, if w₁.out.sync.failed then
        .error (.ioError (ioContext w₁.path "failed to flush binary log")) else .ok (), rfl, ?_⟩)
      by_cases hfailed : w₁.out.sync.failed = true <;> simp [hfailed]

/-- The ways `close` can go: the writer is closed already, `flush` throws, the stream fails when the
file is closed, or the writer gets closed. -/
theorem close_cases (w : BinaryLogWriter) :
    (w.closed = true ∧ w.close = (.ok (), w)) ∨
    (w.closed = false ∧ ∃ e w₁, w.flush = (.error e, w₁) ∧ w.close = (.error e, w₁)) ∨
    (w.closed = false ∧ ∃ e w₁, w.flush = (.ok (), w₁) ∧ w₁.out.sync.failed = true ∧
      w.close = (.error e, { w₁ with out := w₁.out.sync })) ∨
    (w.closed = false ∧ ∃ w₁, w.flush = (.ok (), w₁) ∧ w₁.out.sync.failed = false ∧
      w.close = (.ok (), { w₁ with out := w₁.out.sync, closed := true })) := by
  unfold close
  by_cases hclosed : w.closed = true
  · exact Or.inl ⟨hclosed, if_pos hclosed⟩
  · have hopen : w.closed = false := by simpa using hclosed
    rw [if_neg hclosed]
    rcases hflush : w.flush with ⟨e | u, w₁⟩
    · exact Or.inr (Or.inl ⟨hopen, e, w₁, rfl, rfl⟩)
    · by_cases hfailed : w₁.out.sync.failed = true
      · refine Or.inr (Or.inr (Or.inl ⟨hopen, .ioError
          (ioContext w₁.path "failed to close binary log"), w₁, rfl, hfailed, ?_⟩))
        simp [hfailed]
      · refine Or.inr (Or.inr (Or.inr ⟨hopen, w₁, rfl, by simpa using hfailed, ?_⟩))
        simp [hfailed]

/-! ## Operations that leave the stream good -/

/-- If the stream is good after `write_buffer_if_needed`, the call returned normally and has moved
the whole buffer or nothing. -/
theorem writeBufferIfNeeded_good {w w' : BinaryLogWriter} {force : Bool}
    {result : Except Exception Unit} (h : w.writeBufferIfNeeded force = (result, w'))
    (hgood : w'.out.failed = false) :
    w.out.failed = false ∧ result = .ok () ∧
      ((w' = w ∧ (force = true → w.buffer = [])) ∨
        (w' = { w with out := w.out.write w.buffer, buffer := [] } ∧
          w'.out.received = w.out.received ++ w.buffer)) := by
  rcases w.writeBufferIfNeeded_cases force with ⟨hempty, heq⟩ | ⟨_, _, heq⟩ | ⟨_, hfailed, e, heq⟩
  · rw [heq] at h
    cases h
    exact ⟨hgood, rfl, Or.inl ⟨rfl, hempty⟩⟩
  · rw [heq] at h
    cases h
    obtain ⟨hout, hreceived⟩ := OFStream.write_good hgood
    exact ⟨hout, rfl, Or.inr ⟨rfl, hreceived⟩⟩
  · rw [heq] at h
    cases h
    exact absurd (hgood.symm.trans hfailed) Bool.false_ne_true

/-- If the stream is good after `flush`, the call returned normally and has synchronized the
stream behind an empty buffer, unless the writer was closed. -/
theorem flush_good {w w' : BinaryLogWriter} {result : Except Exception Unit}
    (h : w.flush = (result, w')) (hgood : w'.out.failed = false) :
    w.out.failed = false ∧ result = .ok () ∧
      ((w.closed = true ∧ w' = w) ∨ (w.closed = false ∧ ∃ w₁ : BinaryLogWriter,
        w.writeBufferIfNeeded true = (.ok (), w₁) ∧ w₁.out.failed = false ∧
          w' = { w₁ with out := w₁.out.sync })) := by
  rcases w.flush_cases with ⟨hclosed, heq⟩ | ⟨_, e, w₁, hwrite, heq⟩ |
    ⟨hopen, w₁, result', hwrite, heq, hresult⟩
  · rw [heq] at h
    cases h
    exact ⟨hgood, rfl, Or.inl ⟨hclosed, rfl⟩⟩
  · rw [heq] at h
    cases h
    obtain ⟨_, hresult, _⟩ := writeBufferIfNeeded_good hwrite hgood
    cases hresult
  · rw [heq] at h
    cases h
    have hgood₁ := (OFStream.sync_good hgood).1
    exact ⟨(writeBufferIfNeeded_good hwrite hgood₁).1, hresult.mpr hgood,
      Or.inr ⟨hopen, w₁, hwrite, hgood₁, rfl⟩⟩

/-- If the stream is good after `close`, the call returned normally and the writer is closed. -/
theorem close_good {w w' : BinaryLogWriter} {result : Except Exception Unit}
    (h : w.close = (result, w')) (hgood : w'.out.failed = false) :
    w.out.failed = false ∧ result = .ok () ∧
      ((w.closed = true ∧ w' = w) ∨ (w.closed = false ∧ ∃ w₁ : BinaryLogWriter,
        w.flush = (.ok (), w₁) ∧ w₁.out.failed = false ∧
          w' = { w₁ with out := w₁.out.sync, closed := true })) := by
  rcases w.close_cases with ⟨hclosed, heq⟩ | ⟨_, e, w₁, hflush, heq⟩ |
    ⟨_, e, w₁, _, hfailed, heq⟩ | ⟨hopen, w₁, hflush, _, heq⟩
  · rw [heq] at h
    cases h
    exact ⟨hgood, rfl, Or.inl ⟨hclosed, rfl⟩⟩
  · rw [heq] at h
    cases h
    obtain ⟨_, hresult, _⟩ := flush_good hflush hgood
    cases hresult
  · rw [heq] at h
    cases h
    exact absurd (hgood.symm.trans hfailed) Bool.false_ne_true
  · rw [heq] at h
    cases h
    have hgood₁ := (OFStream.sync_good hgood).1
    exact ⟨(flush_good hflush hgood₁).1, rfl, Or.inr ⟨hopen, w₁, hflush, hgood₁, rfl⟩⟩

/-- A stream that is good after a call was good before it. -/
theorem good_of_call_good {w : BinaryLogWriter} {c : WriterCall}
    (h : (w.call c).2.out.failed = false) : w.out.failed = false := by
  cases c with
  | append event =>
    rcases append_cases w event with ⟨_, heq⟩ | ⟨_, _, heq⟩ | ⟨_, _, force, heq⟩
    · simpa only [call, heq] using h
    · simpa only [call, heq] using h
    · simp only [call, heq] at h
      exact (writeBufferIfNeeded_good rfl h).1
  | flush => exact (flush_good rfl h).1
  | close => exact (close_good rfl h).1

theorem good_of_run_good {w : BinaryLogWriter} {calls : List WriterCall}
    (h : (w.run calls).2.out.failed = false) : w.out.failed = false := by
  induction calls generalizing w with
  | nil => exact h
  | cons c calls ih => exact good_of_call_good (ih h)

/-! ## Operations that return normally -/

/-- A `write_all` of some bytes that returns normally has handed them to a stream that stays good. -/
theorem writeAll_ok {out out' : OFStream} {data : List UInt8} {path : String}
    (hnonempty : data.isEmpty = false) (h : writeAll out data path = (.ok (), out')) :
    out' = out.write data ∧ out'.failed = false := by
  unfold writeAll at h
  rw [hnonempty, if_neg Bool.false_ne_true] at h
  by_cases hfailed : (out.write data).failed = true
  · rw [if_pos hfailed] at h
    cases h
  · rw [if_neg hfailed] at h
    cases h
    exact ⟨rfl, by simpa using hfailed⟩

theorem writeBufferIfNeeded_ok {w w' : BinaryLogWriter} {force : Bool}
    (hgood : w.out.failed = false) (h : w.writeBufferIfNeeded force = (.ok (), w')) :
    w'.out.failed = false := by
  rcases w.writeBufferIfNeeded_cases force with ⟨_, heq⟩ | ⟨_, hwritten, heq⟩ | ⟨_, _, e, heq⟩
  · rw [heq] at h
    cases h
    exact hgood
  · rw [heq] at h
    cases h
    exact hwritten
  · rw [heq] at h
    cases h

/-- An `append` on a good stream that returns normally leaves the stream good, and its event fits
the format. -/
theorem append_ok {w w' : BinaryLogWriter} {event : Event} (hgood : w.out.failed = false)
    (h : w.append event = (.ok (), w')) :
    w'.out.failed = false ∧ event.payload.length ≤ kMaxPayloadBytes := by
  rcases append_cases w event with ⟨_, heq⟩ | ⟨_, _, heq⟩ | ⟨_, hsmall, force, heq⟩
  · rw [heq] at h
    cases h
  · rw [heq] at h
    cases h
  · rw [heq] at h
    have hbuffered : (w.buffered event).out.failed = false := hgood
    exact ⟨writeBufferIfNeeded_ok hbuffered h, hsmall⟩

/-- A `flush` on a good stream that returns normally leaves the stream good. -/
theorem flush_ok {w w' : BinaryLogWriter} (hgood : w.out.failed = false)
    (h : w.flush = (.ok (), w')) : w'.out.failed = false := by
  rcases w.flush_cases with ⟨_, heq⟩ | ⟨_, e, w₁, _, heq⟩ | ⟨_, w₁, result, _, heq, hresult⟩
  · rw [heq] at h
    cases h
    exact hgood
  · rw [heq] at h
    cases h
  · rw [heq] at h
    cases h
    exact hresult.mp rfl

/-! ## Devices that do not fail -/

theorem writeAll_healthy {out : OFStream} (h : out.Healthy) (data : List UInt8) (path : String) :
    ∃ out', writeAll out data path = (.ok (), out') ∧ out'.Healthy := by
  unfold writeAll
  by_cases hempty : data.isEmpty = true
  · exact ⟨out, if_pos hempty, h⟩
  · refine ⟨out.write data, ?_, h.write data⟩
    rw [if_neg hempty]
    simp [(h.write data).1]

theorem writeBufferIfNeeded_healthy {w : BinaryLogWriter} (h : w.out.Healthy) (force : Bool) :
    ∃ w', w.writeBufferIfNeeded force = (.ok (), w') ∧ w'.out.Healthy := by
  unfold writeBufferIfNeeded
  by_cases hskip : (!force || w.buffer.isEmpty) = true
  · exact ⟨w, if_pos hskip, h⟩
  · obtain ⟨out, hwrite, hout⟩ := writeAll_healthy h w.buffer w.path
    exact ⟨{ w with out := out, buffer := [] }, by rw [if_neg hskip, hwrite], hout⟩

theorem flush_healthy {w : BinaryLogWriter} (h : w.out.Healthy) :
    ∃ w', w.flush = (.ok (), w') ∧ w'.out.Healthy := by
  unfold flush
  by_cases hclosed : w.closed = true
  · exact ⟨w, if_pos hclosed, h⟩
  · obtain ⟨w₁, hwrite, h₁⟩ := writeBufferIfNeeded_healthy h true
    refine ⟨{ w₁ with out := w₁.out.sync }, ?_, h₁.sync⟩
    rw [if_neg hclosed, hwrite]
    simp [h₁.sync.1]

theorem close_healthy {w : BinaryLogWriter} (h : w.out.Healthy) :
    ∃ w', w.close = (.ok (), w') ∧ w'.out.Healthy ∧ w'.closed = true := by
  unfold close
  by_cases hclosed : w.closed = true
  · exact ⟨w, if_pos hclosed, h, hclosed⟩
  · obtain ⟨w₁, hflush, h₁⟩ := flush_healthy h
    refine ⟨{ w₁ with out := w₁.out.sync, closed := true }, ?_, h₁.sync, rfl⟩
    rw [if_neg hclosed, hflush]
    simp [h₁.sync.1]

/-- No call makes a healthy stream fail. -/
theorem call_healthy {w : BinaryLogWriter} (h : w.out.Healthy) (c : WriterCall) :
    (w.call c).2.out.Healthy := by
  cases c with
  | append event =>
    rcases append_cases w event with ⟨_, heq⟩ | ⟨_, _, heq⟩ | ⟨_, _, force, heq⟩
    · simpa only [call, heq] using h
    · simpa only [call, heq] using h
    · obtain ⟨w', hwrite, hout⟩ := writeBufferIfNeeded_healthy (w := w.buffered event) h force
      simpa only [call, heq, hwrite] using hout
  | flush =>
    obtain ⟨w', hflush, hout⟩ := flush_healthy h
    simpa only [call, hflush] using hout
  | close =>
    obtain ⟨w', hclose, hout, _⟩ := close_healthy h
    simpa only [call, hclose] using hout

theorem run_healthy {w : BinaryLogWriter} (h : w.out.Healthy) (calls : List WriterCall) :
    (w.run calls).2.out.Healthy := by
  induction calls generalizing w with
  | nil => exact h
  | cons c calls ih => exact ih (call_healthy h c)

/-- On a device that does not fail the constructor succeeds whenever the buffer can be reserved. -/
theorem new_healthy (path : String) {options : WriterOptions} {device : Device} (now : UInt64)
    (hdevice : device.Healthy) (hreserve : ¬ reserveRequest options > vectorMaxSize) :
    ∃ w, new path options device now = .ok w ∧ w.out.Healthy := by
  have hopen := OFStream.open_healthy hdevice
  have hlen : ¬ (encodeFileHeader now).length ≠ kFileHeaderSize.toNat := by
    simp [encodeFileHeader_eq]
  obtain ⟨out, hwrite, hout⟩ := writeAll_healthy hopen (encodeFileHeader now) path
  unfold new
  simp only [hopen.1, Bool.false_eq_true, if_false, if_neg hreserve, writeFileHeader, if_neg hlen,
    hwrite]
  exact ⟨_, rfl, hout⟩

/-- A writer that was constructed on such a device has a healthy stream. -/
theorem healthy_of_new {path : String} {options : WriterOptions} {device : Device} {now : UInt64}
    {w : BinaryLogWriter} (hdevice : device.Healthy) (h : new path options device now = .ok w) :
    w.out.Healthy := by
  by_cases hreserve : reserveRequest options > vectorMaxSize
  · have hopen := (OFStream.open_healthy hdevice).1
    simp [new, hopen, hreserve] at h
  · obtain ⟨w', hnew, hout⟩ := new_healthy path now hdevice hreserve
    rw [hnew] at h
    cases h
    exact hout

/-- With the default options the constructor succeeds on such a device. -/
theorem new_default (path : String) {device : Device} (now : UInt64) (hdevice : device.Healthy) :
    ∃ w, new path {} device now = .ok w ∧ w.out.Healthy :=
  new_healthy path now hdevice (by decide +kernel)

/-! ## The closed flag -/

theorem writeBufferIfNeeded_closed (w : BinaryLogWriter) (force : Bool) :
    (w.writeBufferIfNeeded force).2.closed = w.closed := by
  rcases w.writeBufferIfNeeded_cases force with ⟨_, heq⟩ | ⟨_, _, heq⟩ | ⟨_, _, e, heq⟩ <;> rw [heq]

theorem append_closed (w : BinaryLogWriter) (event : Event) :
    (w.append event).2.closed = w.closed := by
  rcases append_cases w event with ⟨_, heq⟩ | ⟨_, _, heq⟩ | ⟨_, _, force, heq⟩
  · rw [heq]
  · rw [heq]
  · rw [heq]
    exact (w.buffered event).writeBufferIfNeeded_closed force

theorem flush_closed (w : BinaryLogWriter) : w.flush.2.closed = w.closed := by
  have hwrite := w.writeBufferIfNeeded_closed true
  rcases w.flush_cases with ⟨_, heq⟩ | ⟨_, e, w₁, hbuffer, heq⟩ | ⟨_, w₁, result, hbuffer, heq, _⟩
  · rw [heq]
  · rwa [heq, ← hbuffer]
  · rw [hbuffer] at hwrite
    rwa [heq]

/-- A `close` that throws leaves an open writer open, and one that returns normally has closed it on
a good stream. -/
theorem close_result {w w' : BinaryLogWriter} (hopen : w.closed = false)
    {result : Except Exception Unit} (h : w.close = (result, w')) :
    ((∃ e, result = .error e) ∧ w'.closed = false) ∨
      (result = .ok () ∧ w'.closed = true ∧ w'.out.failed = false) := by
  have hstay := (flush_closed w).trans hopen
  rcases w.close_cases with ⟨hclosed, _⟩ | ⟨_, e, w₁, hflush, heq⟩ |
    ⟨_, e, w₁, hflush, _, heq⟩ | ⟨_, w₁, _, hgood, heq⟩
  · exact absurd (hopen.symm.trans hclosed) Bool.false_ne_true
  · rw [heq] at h
    cases h
    rw [hflush] at hstay
    exact Or.inl ⟨⟨e, rfl⟩, hstay⟩
  · rw [heq] at h
    cases h
    rw [hflush] at hstay
    exact Or.inl ⟨⟨e, rfl⟩, hstay⟩
  · rw [heq] at h
    cases h
    exact Or.inr ⟨rfl, rfl, hgood⟩

/-- A call leaves a closed writer alone, and closes an open one only on a good stream. -/
theorem call_closed_good {w : BinaryLogWriter} (h : w.closed = true → w.out.failed = false)
    (c : WriterCall) : (w.call c).2.closed = true → (w.call c).2.out.failed = false := by
  intro hclosed
  cases c with
  | append event =>
    rcases append_cases w event with ⟨_, heq⟩ | ⟨_, _, heq⟩ | ⟨hopen, _, force, heq⟩
    · rw [call, heq] at hclosed ⊢
      exact h hclosed
    · rw [call, heq] at hclosed ⊢
      exact h hclosed
    · rw [call, heq, writeBufferIfNeeded_closed] at hclosed
      exact absurd (hopen.symm.trans hclosed) Bool.false_ne_true
  | flush =>
    rw [call, flush_closed] at hclosed
    rw [call, flush, if_pos hclosed]
    exact h hclosed
  | close =>
    by_cases hbefore : w.closed = true
    · rw [call, close, if_pos hbefore]
      exact h hbefore
    · rcases close_result (by simpa using hbefore) rfl with ⟨_, hopen⟩ | ⟨_, _, hgood⟩
      · exact absurd (hopen.symm.trans hclosed) Bool.false_ne_true
      · exact hgood

end BinaryLogWriter

end Hpblr
