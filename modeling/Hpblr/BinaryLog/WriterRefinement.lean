import Hpblr.BinaryLog.WriterSpec

/-!
# The buffered writer refines a direct one

The direct writer stores each record at once and has neither buffer nor options. As long as the
stream does not fail, the buffered writer answers every call as the direct writer does, and its
stream and buffer together hold what the direct writer has stored. The stream always ends at a
record boundary.
-/

namespace Hpblr

/-- The records of a list of events as the writer writes them, with flags zero. -/
def encodeRecords (events : List Event) : List UInt8 := events.flatMap (recordBytes 0)

@[simp] theorem encodeRecords_nil : encodeRecords [] = [] := rfl

@[simp] theorem encodeRecords_append (xs ys : List Event) :
    encodeRecords (xs ++ ys) = encodeRecords xs ++ encodeRecords ys :=
  List.flatMap_append

theorem encodeRecords_singleton (event : Event) :
    encodeRecords [event] = (recordHeader 0 event).toBytes ++ event.payload := by
  simp [encodeRecords, recordBytes]

theorem encodeRecords_eq_nil {events : List Event} (h : encodeRecords events = []) :
    events = [] := by
  cases events with
  | nil => rfl
  | cons event events =>
    have hlen := congrArg List.length h
    simp [encodeRecords] at hlen

/-! ## The direct writer -/

/-- A writer that stores every record at once. -/
structure DirectWriter where
  /-- The bytes of the file. -/
  log : List UInt8
  closed : Bool := false

namespace DirectWriter

/-- A new file holds the file header. -/
def new (now : UInt64) : DirectWriter := { log := fileHeader 0 now 0 }

def append (d : DirectWriter) (event : Event) : Except Exception Unit × DirectWriter :=
  if d.closed then
    (.error (.ioError "cannot append to closed binary log"), d)
  else if event.payload.length > kMaxPayloadBytes then
    (.error (.fileFormatError ("payload too large: " ++ toString event.payload.length)), d)
  else
    (.ok (), { d with log := d.log ++ recordBytes 0 event })

def call (d : DirectWriter) : WriterCall → Except Exception Unit × DirectWriter
  | .append event => d.append event
  | .flush => (.ok (), d)
  | .close => (.ok (), { d with closed := true })

def run (d : DirectWriter) : List WriterCall → List (Except Exception Unit) × DirectWriter
  | [] => ([], d)
  | c :: calls =>
    let (result, d) := d.call c
    let (results, d) := d.run calls
    (result :: results, d)

end DirectWriter

/-! ## The refinement relation -/

/-- The file, the buffer of the stream and the buffer of the writer hold the file header and the
records of three lists of events, one behind the other. None of these is divided between two of
them. -/
structure Divided (out : OFStream) (buffer : List UInt8) (now : UInt64)
    (stored streamed buffered : List Event) : Prop where
  stream : (out.content = fileHeader 0 now 0 ++ encodeRecords stored ∧
      out.pending = encodeRecords streamed) ∨
    (stored = [] ∧ out.content = [] ∧ out.pending = fileHeader 0 now 0 ++ encodeRecords streamed)
  buffer : buffer = encodeRecords buffered
  room : out.pending.length ≤ out.device.bufferSize

/-- The buffered writer `w` has stored or buffered what the direct writer `d` has stored, which is
the file header and the records of `events`. -/
structure BinaryLogWriter.Refines (w : BinaryLogWriter) (d : DirectWriter) (now : UInt64)
    (events : List Event) : Prop where
  divided : ∃ stored streamed buffered, events = stored ++ (streamed ++ buffered) ∧
    Divided w.out w.buffer now stored streamed buffered
  log : d.log = fileHeader 0 now 0 ++ encodeRecords events
  closed : w.closed = d.closed
  closed_buffer : w.closed = true → w.buffer = []
  closed_pending : w.closed = true → w.out.pending = []
  eventsWritten : w.stats.eventsWritten = UInt64.ofNat events.length
  bytesWritten : w.stats.bytesWritten = UInt64.ofNat (w.out.received.length + w.buffer.length)

/-! ## What is stored, and what waits where -/

section Divided

variable {out : OFStream} {buffer : List UInt8} {now : UInt64} {stored streamed buffered : List Event}

theorem Divided.received (h : Divided out buffer now stored streamed buffered) :
    out.received = fileHeader 0 now 0 ++ encodeRecords (stored ++ streamed) := by
  rw [OFStream.received, encodeRecords_append]
  rcases h.stream with ⟨hcontent, hpending⟩ | ⟨rfl, hcontent, hpending⟩
  · rw [hcontent, hpending, List.append_assoc]
  · rw [hcontent, hpending]
    rfl

/-- The records that wait in the buffer of the stream have room there. -/
theorem Divided.streamed_le (h : Divided out buffer now stored streamed buffered) :
    (encodeRecords streamed).length ≤ out.device.bufferSize := by
  have hroom := h.room
  rcases h.stream with ⟨_, hpending⟩ | ⟨_, _, hpending⟩
  · rwa [hpending] at hroom
  · rw [hpending, List.length_append] at hroom
    omega

/-- The file header is the first thing that a stream takes. -/
theorem divided_new {device : Device}
    (hgood : ((OFStream.open device).write (fileHeader 0 now 0)).failed = false) :
    Divided ((OFStream.open device).write (fileHeader 0 now 0)) [] now [] [] [] := by
  have hroom := OFStream.room_write hgood
  rcases OFStream.write_kept hgood with ⟨_, hkept⟩ | ⟨_, hempty⟩
  · exact ⟨Or.inr ⟨rfl, by rw [hkept]; rfl, by rw [hkept]; rfl⟩, rfl, hroom⟩
  · have hreceived := (OFStream.write_good hgood).2
    rw [OFStream.received, hempty, List.append_nil] at hreceived
    exact ⟨Or.inl ⟨hreceived.trans (by simp [OFStream.received, OFStream.open]), hempty⟩, rfl, hroom⟩

/-- A write leaves what it has taken in the buffer of the stream, or everything is in the file. -/
theorem Divided.write (h : Divided out buffer now stored streamed buffered)
    (hgood : (out.write buffer).failed = false) : ∃ stored' streamed',
      stored' ++ streamed' = stored ++ (streamed ++ buffered) ∧
      Divided (out.write buffer) [] now stored' streamed' [] := by
  have hroom := OFStream.room_write hgood
  rcases OFStream.write_kept hgood with ⟨_, hkept⟩ | ⟨_, hempty⟩
  · refine ⟨stored, streamed ++ buffered, rfl, ⟨?_, rfl, hroom⟩⟩
    rw [hkept, h.buffer, encodeRecords_append]
    rcases h.stream with ⟨hcontent, hpending⟩ | ⟨hnone, hcontent, hpending⟩
    · exact Or.inl ⟨hcontent, by rw [hpending]⟩
    · exact Or.inr ⟨hnone, hcontent, by rw [hpending, List.append_assoc]⟩
  · refine ⟨stored ++ (streamed ++ buffered), [], List.append_nil _,
      ⟨Or.inl ⟨?_, hempty⟩, rfl, hroom⟩⟩
    have hreceived := (OFStream.write_good hgood).2
    rw [h.received, OFStream.received, hempty, List.append_nil, List.append_assoc] at hreceived
    rw [hreceived, ← List.append_assoc stored, encodeRecords_append _ buffered, h.buffer]

/-- Synchronizing the stream leaves nothing in its buffer. -/
theorem Divided.sync (h : Divided out buffer now stored streamed buffered)
    (hgood : out.sync.failed = false) :
    Divided out.sync buffer now (stored ++ streamed) [] buffered := by
  obtain ⟨_, hempty, hcontent⟩ := OFStream.sync_good hgood
  exact ⟨Or.inl ⟨hcontent.trans h.received, hempty⟩, h.buffer, by simp [hempty]⟩

end Divided

namespace BinaryLogWriter

/-- The bytes that the stream has taken end at a record boundary, and so do those in the buffer. -/
theorem Refines.split {w : BinaryLogWriter} {d : DirectWriter} {now : UInt64} {events : List Event}
    (href : w.Refines d now events) : ∃ given pending, events = given ++ pending ∧
      w.out.received = fileHeader 0 now 0 ++ encodeRecords given ∧
      w.buffer = encodeRecords pending := by
  obtain ⟨stored, streamed, buffered, hevents, hdivided⟩ := href.divided
  exact ⟨stored ++ streamed, buffered, by rw [hevents, List.append_assoc], hdivided.received,
    hdivided.buffer⟩

/-! ## The refinement is kept -/

/-- Writing the buffer out keeps the refinement. -/
theorem Refines.writeBufferIfNeeded {w w' : BinaryLogWriter} {d : DirectWriter} {now : UInt64}
    {events : List Event} {force : Bool} {result : Except Exception Unit}
    (href : w.Refines d now events) (hopen : w.closed = false)
    (h : w.writeBufferIfNeeded force = (result, w')) (hgood : w'.out.failed = false) :
    w'.Refines d now events ∧ (force = true → w'.buffer = []) := by
  obtain ⟨_, _, ⟨rfl, hempty⟩ | ⟨rfl, hreceived⟩⟩ := writeBufferIfNeeded_good h hgood
  · exact ⟨href, hempty⟩
  · obtain ⟨stored, streamed, buffered, rfl, hdivided⟩ := href.divided
    obtain ⟨stored', streamed', hsame, hdivided'⟩ := hdivided.write hgood
    refine ⟨⟨⟨stored', streamed', [], by rw [List.append_nil, hsame], hdivided'⟩, href.log,
      href.closed, fun _ => rfl, fun hclosed => ?_, href.eventsWritten, ?_⟩, fun _ => rfl⟩
    · exact absurd (hopen.symm.trans hclosed) Bool.false_ne_true
    · rw [hreceived, List.length_append]
      exact href.bytesWritten

/-- Taking an event in keeps the refinement to the direct writer that has stored it. -/
private theorem Refines.buffered {w : BinaryLogWriter} {d : DirectWriter} {now : UInt64}
    {events : List Event} (href : w.Refines d now events) (hopen : w.closed = false)
    (event : Event) :
    (w.buffered event).Refines { d with log := d.log ++ recordBytes 0 event } now
      (events ++ [event]) := by
  obtain ⟨stored, streamed, waiting, rfl, hdivided⟩ := href.divided
  have hnever : ¬ (w.buffered event).closed = true := by
    rw [show (w.buffered event).closed = w.closed from rfl, hopen]
    exact Bool.false_ne_true
  refine ⟨⟨stored, streamed, waiting ++ [event], by simp, hdivided.stream, ?_, hdivided.room⟩, ?_,
    href.closed, fun hclosed => absurd hclosed hnever, fun hclosed => absurd hclosed hnever, ?_, ?_⟩
  · simp only [BinaryLogWriter.buffered, hdivided.buffer, encodeRecords_append,
      encodeRecords_singleton, List.append_assoc]
  · simp only [href.log, encodeRecords_append, encodeRecords_singleton, recordBytes,
      List.append_assoc]
  · simp [BinaryLogWriter.buffered, href.eventsWritten, UInt64.add_assoc]
  · simp only [BinaryLogWriter.buffered, href.bytesWritten, List.length_append,
      RecordHeader.length_toBytes, ← UInt64.ofNat_add]
    congr 1
    omega

theorem Refines.append {w w' : BinaryLogWriter} {d : DirectWriter} {now : UInt64}
    {events : List Event} {event : Event} {result : Except Exception Unit}
    (href : w.Refines d now events) (h : w.append event = (result, w'))
    (hgood : w'.out.failed = false) :
    result = (d.append event).1 ∧
      w'.Refines (d.append event).2 now (events ++ acceptedEvents [.append event] [result]) := by
  rcases append_cases w event with ⟨hclosed, heq⟩ | ⟨hopen, hlarge, heq⟩ | ⟨hopen, hsmall, force, heq⟩
  · rw [heq] at h
    cases h
    have hd : d.closed = true := href.closed ▸ hclosed
    simp [DirectWriter.append, hd, acceptedEvents, href]
  · rw [heq] at h
    cases h
    have hd : d.closed = false := href.closed ▸ hopen
    simp [DirectWriter.append, hd, hlarge, acceptedEvents, href]
  · rw [heq] at h
    have hd : d.closed = false := href.closed ▸ hopen
    obtain ⟨_, rfl, _⟩ := writeBufferIfNeeded_good h hgood
    have hkeep := ((href.buffered hopen event).writeBufferIfNeeded hopen h hgood).1
    have hd' : d.append event = (.ok (), { d with log := d.log ++ recordBytes 0 event }) := by
      simp [DirectWriter.append, hd, hsmall.not_gt]
    rw [hd']
    exact ⟨rfl, hkeep⟩

/-- Synchronizing the stream keeps the refinement. -/
private theorem Refines.sync {w : BinaryLogWriter} {d : DirectWriter} {now : UInt64}
    {events : List Event} (href : w.Refines d now events) (hgood : w.out.sync.failed = false) :
    ({ w with out := w.out.sync } : BinaryLogWriter).Refines d now events := by
  obtain ⟨stored, streamed, buffered, hevents, hdivided⟩ := href.divided
  refine ⟨⟨stored ++ streamed, [], buffered, ?_, hdivided.sync hgood⟩, href.log, href.closed,
    href.closed_buffer, fun _ => (OFStream.sync_good hgood).2.1, href.eventsWritten, ?_⟩
  · rw [hevents, List.nil_append, List.append_assoc]
  · dsimp only
    rw [OFStream.received_sync hgood]
    exact href.bytesWritten

/-- A `flush` that leaves the stream good has stored everything. -/
theorem Refines.flush {w w' : BinaryLogWriter} {d : DirectWriter} {now : UInt64}
    {events : List Event} {result : Except Exception Unit} (href : w.Refines d now events)
    (h : w.flush = (result, w')) (hgood : w'.out.failed = false) :
    result = .ok () ∧ w'.Refines d now events ∧ w'.buffer = [] ∧ w'.out.pending = [] := by
  obtain ⟨_, hresult, ⟨hclosed, rfl⟩ | ⟨hopen, w₁, hwrite, hgood₁, rfl⟩⟩ := flush_good h hgood
  · exact ⟨hresult, href, href.closed_buffer hclosed, href.closed_pending hclosed⟩
  · obtain ⟨hkeep, hempty⟩ := href.writeBufferIfNeeded hopen hwrite hgood₁
    exact ⟨hresult, hkeep.sync hgood, hempty rfl, (OFStream.sync_good hgood).2.1⟩

theorem Refines.close {w w' : BinaryLogWriter} {d : DirectWriter} {now : UInt64}
    {events : List Event} {result : Except Exception Unit} (href : w.Refines d now events)
    (h : w.close = (result, w')) (hgood : w'.out.failed = false) :
    result = .ok () ∧ w'.Refines { d with closed := true } now events := by
  obtain ⟨_, hresult, ⟨hclosed, rfl⟩ | ⟨_, w₁, hflush, hgood₁, rfl⟩⟩ := close_good h hgood
  · have hd : { d with closed := true } = d := by
      rw [← href.closed.symm.trans hclosed]
    exact ⟨hresult, hd ▸ href⟩
  · obtain ⟨_, hkeep, hempty, _⟩ := href.flush hflush hgood₁
    have hsync := hkeep.sync hgood
    exact ⟨hresult, hsync.divided, hsync.log, rfl, fun _ => hempty,
      fun _ => (OFStream.sync_good hgood).2.1, hsync.eventsWritten, hsync.bytesWritten⟩

/-- A closed writer has everything in the file. -/
theorem Refines.content_of_closed {w : BinaryLogWriter} {d : DirectWriter} {now : UInt64}
    {events : List Event} (href : w.Refines d now events) (hbuffer : w.buffer = [])
    (hpending : w.out.pending = []) :
    w.out.content = fileHeader 0 now 0 ++ encodeRecords events := by
  obtain ⟨given, pending, hevents, hgiven, hrest⟩ := href.split
  rw [hbuffer] at hrest
  rw [encodeRecords_eq_nil hrest.symm, List.append_nil] at hevents
  rw [OFStream.received, hpending, List.append_nil] at hgiven
  rw [hgiven, hevents]

/-- **One call.** If the stream does not fail, the result is that of the direct writer, and the
refinement is kept. -/
theorem Refines.call {w w' : BinaryLogWriter} {d : DirectWriter} {now : UInt64}
    {events : List Event} {c : WriterCall} {result : Except Exception Unit}
    (href : w.Refines d now events) (h : w.call c = (result, w'))
    (hgood : w'.out.failed = false) :
    result = (d.call c).1 ∧
      w'.Refines (d.call c).2 now (events ++ acceptedEvents [c] [result]) := by
  cases c with
  | append event => exact href.append h hgood
  | flush =>
    obtain ⟨rfl, hkeep, _, _⟩ := href.flush h hgood
    refine ⟨rfl, ?_⟩
    rw [show acceptedEvents [.flush] [.ok ()] = [] from rfl, List.append_nil]
    exact hkeep
  | close =>
    obtain ⟨rfl, hkeep⟩ := href.close h hgood
    refine ⟨rfl, ?_⟩
    rw [show acceptedEvents [.close] [.ok ()] = [] from rfl, List.append_nil]
    exact hkeep

/-! ## Runs -/

/-- A constructed writer refines a new direct writer that has accepted nothing. -/
theorem refines_new {path : String} {options : WriterOptions} {device : Device} {now : UInt64}
    {w : BinaryLogWriter} (h : new path options device now = .ok w) :
    w.Refines (DirectWriter.new now) now [] ∧ w.out.failed = false := by
  unfold new at h
  simp only at h
  split_ifs at h with hopen hreserve
  simp only [writeFileHeader, encodeFileHeader_eq, length_fileHeader] at h
  rw [if_neg (by simp)] at h
  rcases hwrite : writeAll (OFStream.open device) (fileHeader 0 now 0) path with ⟨result, out⟩
  rw [hwrite] at h
  have hnonempty : (fileHeader 0 now 0).isEmpty = false := by
    simp [fileHeader, fileHeaderBody, kFileMagic]
  cases result with
  | error e => cases h
  | ok u =>
    obtain ⟨rfl, hgood⟩ := writeAll_ok hnonempty hwrite
    have hdivided := divided_new hgood
    cases h
    refine ⟨⟨⟨[], [], [], rfl, hdivided⟩, ?_, rfl, fun _ => rfl, ?_, rfl, ?_⟩, hgood⟩
    · simp [DirectWriter.new]
    · intro hclosed
      cases hclosed
    · rw [hdivided.received]
      simp

theorem acceptedEvents_cons (c : WriterCall) (calls : List WriterCall)
    (result : Except Exception Unit) (results : List (Except Exception Unit)) :
    acceptedEvents (c :: calls) (result :: results) =
      acceptedEvents [c] [result] ++ acceptedEvents calls results := by
  rcases c with event | _ | _ <;> rcases result with e | ⟨⟨⟩⟩ <;> rfl

/-- **A whole run.** The refinement is kept as long as the stream does not fail. -/
theorem Refines.run {w : BinaryLogWriter} {d : DirectWriter} {now : UInt64} {events : List Event}
    (href : w.Refines d now events) {calls : List WriterCall}
    (hgood : (w.run calls).2.out.failed = false) :
    (w.run calls).1 = (d.run calls).1 ∧
      (w.run calls).2.Refines (d.run calls).2 now
        (events ++ acceptedEvents calls (w.run calls).1) := by
  induction calls generalizing w d events with
  | nil =>
    refine ⟨rfl, ?_⟩
    rw [show acceptedEvents [] (w.run []).1 = [] from rfl, List.append_nil]
    exact href
  | cons c calls ih =>
    have hrest : ((w.call c).2.run calls).2.out.failed = false := hgood
    obtain ⟨hresult, hkeep⟩ := href.call rfl (good_of_run_good hrest)
    obtain ⟨hresults, hkeeps⟩ := ih hkeep hrest
    refine ⟨congrArg₂ List.cons hresult hresults, ?_⟩
    rw [List.append_assoc, ← acceptedEvents_cons] at hkeeps
    exact hkeeps

/-- **The buffered writer refines one that stores each record at once.** For every run of calls in
which the stream has not failed: the results are those of the direct writer; the bytes that the
stream has taken and the buffer together are the file header and the records of the accepted events,
and so is what the direct writer has stored; the stream ends at a record boundary; the statistics
count exactly this; and a closed writer has an empty buffer, as has its stream. Two runs that accept
the same events therefore produce the same record bytes, whatever their options, times and flushes. -/
theorem run_refines {path : String} {options : WriterOptions} {device : Device} {now : UInt64}
    {w : BinaryLogWriter} (hnew : new path options device now = .ok w) (calls : List WriterCall)
    (hgood : (w.run calls).2.out.failed = false) :
    let results := (w.run calls).1
    let w' := (w.run calls).2
    let accepted := acceptedEvents calls results
    results = ((DirectWriter.new now).run calls).1 ∧
    w'.out.received ++ w'.buffer = fileHeader 0 now 0 ++ encodeRecords accepted ∧
    w'.out.received ++ w'.buffer = ((DirectWriter.new now).run calls).2.log ∧
    (∃ k, w'.out.received = fileHeader 0 now 0 ++ encodeRecords (accepted.take k)) ∧
    w'.stats.bytesWritten = UInt64.ofNat (w'.out.received.length + w'.buffer.length) ∧
    w'.stats.eventsWritten = UInt64.ofNat accepted.length ∧
    (w'.closed = true → w'.buffer = [] ∧ w'.out.pending = []) ∧
    (∀ {path' options' device' now' v} (calls' : List WriterCall),
      new path' options' device' now' = .ok v → (v.run calls').2.out.failed = false →
      acceptedEvents calls' (v.run calls').1 = accepted →
      ((v.run calls').2.out.received ++ (v.run calls').2.buffer).drop 36 =
        (w'.out.received ++ w'.buffer).drop 36) := by
  have hbytes {path : String} {options : WriterOptions} {device : Device} {now : UInt64}
      {w : BinaryLogWriter} (hnew : new path options device now = .ok w) {calls : List WriterCall}
      (hgood : (w.run calls).2.out.failed = false) :
      (w.run calls).2.out.received ++ (w.run calls).2.buffer =
        fileHeader 0 now 0 ++ encodeRecords (acceptedEvents calls (w.run calls).1) := by
    obtain ⟨given, pending, hevents, hgiven, hpending⟩ :=
      ((refines_new hnew).1.run hgood).2.split
    rw [List.nil_append] at hevents
    rw [hgiven, hpending, hevents, encodeRecords_append, List.append_assoc]
  obtain ⟨hresults, href⟩ := (refines_new hnew).1.run hgood
  rw [List.nil_append] at href
  obtain ⟨given, pending, hevents, hgiven, _⟩ := href.split
  refine ⟨hresults, hbytes hnew hgood, (hbytes hnew hgood).trans href.log.symm,
    ⟨given.length, ?_⟩, href.bytesWritten, href.eventsWritten,
    fun hclosed => ⟨href.closed_buffer hclosed, href.closed_pending hclosed⟩, ?_⟩
  · rw [hevents, List.take_left, hgiven]
  · intro path' options' device' now' v calls' hnew' hgood' hsame
    rw [hbytes hnew hgood, hbytes hnew' hgood', hsame, List.drop_left' (length_fileHeader ..),
      List.drop_left' (length_fileHeader ..)]

/-- A run in which the second of two appends fails because the writer is closed. -/
theorem run_refines_closed : ∃ w,
    new "log" {} .reliable 0 = .ok w ∧
    let w' := (w.run [.append {}, .close, .append {}]).2
    w'.out.received ++ w'.buffer = fileHeader 0 0 0 ++ encodeRecords [{}] ∧
      w'.stats.eventsWritten = 1 := by
  have hdevice := Device.reliable_healthy
  obtain ⟨w, hnew, hhealthy⟩ := new_default "log" 0 hdevice
  have hgood := (run_healthy hhealthy [.append {}, .close, .append {}]).1
  obtain ⟨hresults, hbytes, _, _, _, hevents, _⟩ := run_refines hnew _ hgood
  rw [hresults] at hbytes hevents
  exact ⟨w, hnew, hbytes, hevents⟩

end BinaryLogWriter

end Hpblr
