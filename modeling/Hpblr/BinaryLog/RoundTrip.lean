import Hpblr.BinaryLog.Replay
import Hpblr.BinaryLog.WriterRefinement

/-!
# Writing a log and reading it back

What the reader makes of the file of a writer that was closed. On a device that does not fail,
every event the format can represent comes back. In general the reader accepts all records of the
file exactly when their severities are known ones, a condition the writer does not check.
-/

namespace Hpblr

namespace BinaryLogWriter

/-! ## Which events the writer accepts -/

/-- The direct writer accepts the events that pass its checks. -/
private theorem acceptedEvents_direct {d : DirectWriter} (calls : List WriterCall) :
    acceptedEvents calls (d.run calls).1 = if d.closed then [] else passedEvents calls := by
  induction calls generalizing d with
  | nil => simp [acceptedEvents, passedEvents]
  | cons c calls ih =>
    rw [show d.run (c :: calls) = ((d.call c).1 :: ((d.call c).2.run calls).1,
      ((d.call c).2.run calls).2) from rfl, acceptedEvents_cons, ih]
    cases c with
    | append event =>
      by_cases hclosed : d.closed = true
      · simp [DirectWriter.call, DirectWriter.append, hclosed, acceptedEvents]
      · by_cases hlarge : event.payload.length > kMaxPayloadBytes
        · simp [DirectWriter.call, DirectWriter.append, hclosed, hlarge, acceptedEvents,
            passedEvents]
        · simp [DirectWriter.call, DirectWriter.append, hclosed, hlarge, acceptedEvents,
            passedEvents]
    | flush =>
      have hnone : acceptedEvents [.flush] [(d.call .flush).1] = [] := rfl
      rw [hnone, List.nil_append]
      rfl
    | close => simp [DirectWriter.call, acceptedEvents, passedEvents]

/-- Without a stream failure, `append` accepts exactly the events that get past its checks. -/
theorem acceptedEvents_eq_passedEvents {path : String} {options : WriterOptions}
    {device : Device} {now : UInt64} {w : BinaryLogWriter}
    (hnew : new path options device now = .ok w) {calls : List WriterCall}
    (hgood : (w.run calls).2.out.failed = false) :
    acceptedEvents calls (w.run calls).1 = passedEvents calls := by
  rw [((refines_new hnew).1.run hgood).1, acceptedEvents_direct]
  rfl

/-! ## Closed writers -/

/-- A constructed writer that has been closed has a good stream. -/
theorem good_of_close {path : String} {options : WriterOptions} {device : Device}
    {now : UInt64} {w w' : BinaryLogWriter} (hnew : new path options device now = .ok w)
    {calls : List WriterCall} (hclose : (w.run calls).2.close = (.ok (), w')) :
    w'.out.failed = false := by
  have hrun (calls : List WriterCall) {w : BinaryLogWriter}
      (h : w.closed = true → w.out.failed = false) :
      (w.run calls).2.closed = true → (w.run calls).2.out.failed = false := by
    induction calls generalizing w with
    | nil => exact h
    | cons c calls ih => exact ih (call_closed_good h c)
  by_cases hclosed : (w.run calls).2.closed = true
  · rw [close, if_pos hclosed] at hclose
    cases hclose
    exact hrun calls (fun _ => (refines_new hnew).2) hclosed
  · rcases close_result (by simpa using hclosed) hclose with ⟨⟨e, he⟩, _⟩ | ⟨_, _, hgood⟩
    · cases he
    · exact hgood

/-- The events that get past the checks fit. -/
theorem passedEvents_payload {calls : List WriterCall} {event : Event}
    (h : event ∈ passedEvents calls) : event.payload.length ≤ kMaxPayloadBytes := by
  induction calls with
  | nil => simp [passedEvents] at h
  | cons c calls ih =>
    cases c with
    | append e =>
      by_cases hlarge : e.payload.length > kMaxPayloadBytes
      · rw [passedEvents, if_pos hlarge] at h
        exact ih h
      · rw [passedEvents, if_neg hlarge] at h
        rcases List.mem_cons.mp h with rfl | hmem
        · exact Nat.not_lt.mp hlarge
        · exact ih hmem
    | flush => exact ih h
    | close => simp [passedEvents] at h

/-- The file of a closed writer is the file header and the records of the accepted events, which
are those that got past the checks of `append`. -/
theorem content_of_close {path : String} {options : WriterOptions} {device : Device}
    {now : UInt64} {w w' : BinaryLogWriter} (hnew : new path options device now = .ok w)
    {calls : List WriterCall} (hclose : (w.run calls).2.close = (.ok (), w')) :
    w'.out.content = fileHeader 0 now 0 ++ encodeRecords (passedEvents calls) ∧
      acceptedEvents calls (w.run calls).1 = passedEvents calls := by
  have hgood := good_of_close hnew hclose
  have hgood' : (w.run calls).2.out.failed = false := (close_good hclose hgood).1
  have haccepted := acceptedEvents_eq_passedEvents hnew hgood'
  obtain ⟨_, href⟩ := ((refines_new hnew).1.run hgood').2.close hclose hgood
  rw [List.nil_append, haccepted] at href
  have hclosed : w'.closed = true := href.closed
  exact ⟨href.content_of_closed (href.closed_buffer hclosed) (href.closed_pending hclosed),
    haccepted⟩

end BinaryLogWriter

/-! ## Reading the records back -/

/-- The records of valid events are records of the grammar. -/
theorem isRecords_encodeRecords {events : List Event} (h : ∀ event ∈ events, event.Valid) :
    IsRecords (encodeRecords events) events := by
  induction events with
  | nil => exact .nil
  | cons event events ih =>
    exact .cons 0 (h event List.mem_cons_self)
      (ih (fun e he => h e (List.mem_cons_of_mem event he)))

theorem IsRecords.valid {bytes : List UInt8} {events : List Event} (h : IsRecords bytes events) :
    ∀ event ∈ events, event.Valid := by
  induction h with
  | nil => simp
  | cons flags hvalid _ ih =>
    intro event hmem
    rcases List.mem_cons.mp hmem with rfl | hmem
    · exact hvalid
    · exact ih event hmem

/-- A file header and the records of valid events are read back to a clean end, whatever number
of further calls is made. -/
theorem replay_encodeRecords (path : String) (flags : UInt16) (created reserved : UInt64)
    {events : List Event} (h : ∀ event ∈ events, event.Valid) :
    ∃ r, BinaryLogReader.new path
        (IFStream.ofBytes (fileHeader flags created reserved ++ encodeRecords events)) = .ok r ∧
      ∀ calls, r.replay (events.length + 1 + calls) = (events, .endOfLog) := by
  obtain ⟨r, hnew, hat, _⟩ :=
    BinaryLogReader.new_fileHeader path flags created reserved (encodeRecords events)
  rw [← List.append_nil (encodeRecords events)] at hat
  obtain ⟨r', hat', hreplay⟩ := BinaryLogReader.replay_records (isRecords_encodeRecords h) hat
  obtain ⟨r'', hnext, _⟩ := BinaryLogReader.next_nil hat'
  refine ⟨r, hnew, fun calls => ?_⟩
  rw [Nat.add_assoc, hreplay, Nat.add_comm 1, BinaryLogReader.replay_none hnext, List.append_nil]

/-! ## The round trip -/

/-- The events handed to `append`, whatever it answers. -/
def appendedEvents : List WriterCall → List Event
  | .append event :: calls => event :: appendedEvents calls
  | _ :: calls => appendedEvents calls
  | [] => []

/-- The calls of a client that appends events the format can represent, and flushes at will. -/
def OnlyValidAppends (calls : List WriterCall) : Prop :=
  ∀ c ∈ calls, c = .flush ∨ ∃ event : Event, c = .append event ∧ event.Valid

theorem OnlyValidAppends.tail {c : WriterCall} {calls : List WriterCall}
    (h : OnlyValidAppends (c :: calls)) : OnlyValidAppends calls :=
  fun c' hmem => h c' (List.mem_cons_of_mem c hmem)

theorem OnlyValidAppends.valid {calls : List WriterCall} (h : OnlyValidAppends calls) :
    ∀ event ∈ appendedEvents calls, event.Valid := by
  induction calls with
  | nil => simp [appendedEvents]
  | cons c calls ih =>
    rcases h c List.mem_cons_self with rfl | ⟨event, rfl, hvalid⟩
    · exact ih h.tail
    · intro e hmem
      rcases List.mem_cons.mp hmem with rfl | hmem
      · exact hvalid
      · exact ih h.tail e hmem

theorem OnlyValidAppends.passedEvents_eq {calls : List WriterCall} (h : OnlyValidAppends calls) :
    passedEvents calls = appendedEvents calls := by
  induction calls with
  | nil => rfl
  | cons c calls ih =>
    rcases h c List.mem_cons_self with rfl | ⟨event, rfl, hvalid⟩
    · exact ih h.tail
    · rw [passedEvents, if_neg hvalid.payload.not_gt, ih h.tail]
      rfl

/-- The direct writer answers such calls without an exception. -/
private theorem OnlyValidAppends.direct_ok {calls : List WriterCall} (h : OnlyValidAppends calls)
    {d : DirectWriter} (hopen : d.closed = false) : ∀ result ∈ (d.run calls).1, result = .ok () := by
  induction calls generalizing d with
  | nil => simp [DirectWriter.run]
  | cons c calls ih =>
    intro result hmem
    rcases h c List.mem_cons_self with rfl | ⟨event, rfl, hvalid⟩
    · rcases List.mem_cons.mp hmem with rfl | hmem
      · rfl
      · exact ih h.tail hopen result hmem
    · have happend : d.append event = (.ok (), { d with log := d.log ++ recordBytes 0 event }) := by
        simp [DirectWriter.append, hopen, hvalid.payload.not_gt]
      rw [DirectWriter.run, DirectWriter.call, happend] at hmem
      rcases List.mem_cons.mp hmem with rfl | hmem
      · rfl
      · exact ih h.tail (by exact hopen) result hmem

namespace BinaryLogWriter

/-- **The round trip.** On a device that does not fail, with any options, any flushes in between
and any events that the format can represent: no call throws, `close` returns normally, and a
reader of the file returns exactly the appended events in their order, then `std::nullopt`. -/
theorem write_read {path : String} {options : WriterOptions} {device : Device} {now : UInt64}
    {w : BinaryLogWriter} (hdevice : device.Healthy) (hnew : new path options device now = .ok w)
    {calls : List WriterCall} (hcalls : OnlyValidAppends calls) :
    (∀ result ∈ (w.run calls).1, result = .ok ()) ∧
    ∃ w', (w.run calls).2.close = (.ok (), w') ∧
      ∃ r, BinaryLogReader.new path (IFStream.ofBytes w'.out.content) = .ok r ∧
        ∀ further, r.replay ((appendedEvents calls).length + 1 + further) =
          (appendedEvents calls, .endOfLog) := by
  have hhealthy := run_healthy (healthy_of_new hdevice hnew) calls
  obtain ⟨w', hclose, _, _⟩ := close_healthy hhealthy
  refine ⟨?_, w', hclose, ?_⟩
  · rw [((refines_new hnew).1.run hhealthy.1).1]
    exact hcalls.direct_ok rfl
  · rw [(content_of_close hnew hclose).1, hcalls.passedEvents_eq]
    exact replay_encodeRecords path 0 now 0 hcalls.valid

/-- A log of two events with a flush in between. -/
theorem write_read_two : ∃ w w' r,
    new "log" {} .reliable 0 = .ok w ∧
    (w.run [.append { sequence := 1 }, .flush, .append { payload := [7] }]).2.close =
      (.ok (), w') ∧
    BinaryLogReader.new "log" (IFStream.ofBytes w'.out.content) = .ok r ∧
    r.replay 3 = ([{ sequence := 1 }, { payload := [7] }], .endOfLog) := by
  have hdevice := Device.reliable_healthy
  obtain ⟨w, hnew, _⟩ := new_default "log" 0 hdevice
  have hcalls : OnlyValidAppends
      [.append { sequence := 1 }, .flush, .append { payload := [7] }] := by
    intro c hmem
    simp only [List.mem_cons, List.not_mem_nil, or_false] at hmem
    rcases hmem with rfl | rfl | rfl
    · exact Or.inr ⟨_, rfl, by decide, by simp⟩
    · exact Or.inl rfl
    · exact Or.inr ⟨_, rfl, by decide, by simp [kMaxPayloadBytes]⟩
  obtain ⟨_, w', hclose, r, hread, hreplay⟩ := write_read hdevice hnew hcalls
  exact ⟨w, w', r, hnew, hclose, hread, hreplay 0⟩

/-! ## What the writer accepts and the reader refuses -/

/-- **When the reader accepts what the writer accepted.** On any device, with any options and
calls, once `close` has returned normally: the reader goes through all records of the file to its
clean end, returning the events that `append` accepted, if and only if every event that got past
the checks of `append` has one of the six severities. -/
theorem reader_accepts_iff {path : String} {options : WriterOptions} {device : Device}
    {now : UInt64} {w w' : BinaryLogWriter} (hnew : new path options device now = .ok w)
    {calls : List WriterCall} (hclose : (w.run calls).2.close = (.ok (), w')) :
    (∃ r further, BinaryLogReader.new path (IFStream.ofBytes w'.out.content) = .ok r ∧
      r.replay further = (acceptedEvents calls (w.run calls).1, .endOfLog)) ↔
    ∀ event ∈ passedEvents calls, event.severity.IsEnumerator := by
  obtain ⟨hcontent, haccepted⟩ := content_of_close hnew hclose
  rw [haccepted, hcontent]
  constructor
  · intro hread event hmem
    have hlog := (BinaryLogReader.replay_log path _).mp hread
    obtain ⟨_, _, _, _, _, hrecords⟩ := hlog
    exact (hrecords.valid event hmem).severity
  · intro hseverity
    have hvalid : ∀ event ∈ passedEvents calls, event.Valid :=
      fun event hmem => ⟨hseverity event hmem, passedEvents_payload hmem⟩
    obtain ⟨r, hread, hreplay⟩ := replay_encodeRecords path 0 now 0 hvalid
    exact ⟨r, _, hread, hreplay 0⟩

/-- The condition is met by a log of one event with the default severity. -/
theorem reader_accepts_one : ∃ w w' r further,
    new "log" {} .reliable 0 = .ok w ∧
    (w.run [.append {}]).2.close = (.ok (), w') ∧
    BinaryLogReader.new "log" (IFStream.ofBytes w'.out.content) = .ok r ∧
    r.replay further = (acceptedEvents [.append {}] (w.run [.append {}]).1, .endOfLog) := by
  have hdevice := Device.reliable_healthy
  obtain ⟨w, hnew, hhealthy⟩ := new_default "log" 0 hdevice
  obtain ⟨w', hclose, _⟩ := close_healthy (run_healthy hhealthy [.append {}])
  obtain ⟨r, further, hread, hreplay⟩ := (reader_accepts_iff hnew hclose).mpr (by decide)
  exact ⟨w, w', r, further, hnew, hclose, hread, hreplay⟩

end BinaryLogWriter

/-- `next` throws at a record whose severity is not one of the six. -/
theorem BinaryLogReader.next_unknown_severity {r : BinaryLogReader} {flags : UInt32}
    {event : Event} {rest : List UInt8} (hat : r.input.At (recordBytes flags event ++ rest))
    (hpayload : event.payload.length ≤ kMaxPayloadBytes)
    (hseverity : ¬ event.severity.IsEnumerator) :
    ∃ r', r.next = (.error (.fileFormatError ("invalid severity value in HPBLR record: " ++
      toString (severityToU16 event.severity))), r') := by
  rw [recordBytes, List.append_assoc] at hat
  obtain ⟨r₁, hat₁, _, hnext⟩ := next_header hat
  obtain ⟨r₂, hread, _⟩ := readPayload_append hat₁ (toNat_payloadSize hpayload flags).symm
  have hheader : checkRecordHeader (recordHeader flags event).toBytes =
      .ok (recordHeader flags event) :=
    checkRecordHeader_eq_ok.mpr ⟨rfl, recordHeader_accepted hpayload flags⟩
  have hnone : severityFromU16 (recordHeader flags event).severityRaw = none := by
    cases hraw : severityFromU16 (recordHeader flags event).severityRaw with
    | none => rfl
    | some severity =>
      obtain ⟨henum, hvalue⟩ := severityFromU16_eq_some.mp hraw
      have hsame : severity = event.severity := congrArg Severity.mk hvalue
      exact absurd (hsame ▸ henum) hseverity
  have hcheck : checkPayload (recordHeader flags event) event.payload =
      .error (.fileFormatError ("invalid severity value in HPBLR record: " ++
        toString (severityToU16 event.severity))) := by
    have hcrc : (recordHeader flags event).payloadCrc = crc32 event.payload := rfl
    rw [checkPayload, if_neg (not_not.mpr hcrc), hnone]
    rfl
  rw [readRecord, hheader] at hnext
  simp only [hread, hcheck] at hnext
  exact ⟨r₂, hnext⟩

namespace BinaryLogWriter

/-- The writer accepts an event of severity 6 and a good one after it, and the reader of the file
throws at the first record, so that it never gets to the second. -/
theorem reader_refuses_severity_six : ∃ w w' r,
    new "log" {} .reliable 0 = .ok w ∧
    (w.run [.append { severity := ⟨6⟩ }, .append {}]).1 = [.ok (), .ok ()] ∧
    (w.run [.append { severity := ⟨6⟩ }, .append {}]).2.close = (.ok (), w') ∧
    BinaryLogReader.new "log" (IFStream.ofBytes w'.out.content) = .ok r ∧
    ∀ further, r.replay (further + 1) =
      ([], .threw (.fileFormatError "invalid severity value in HPBLR record: 6")) := by
  have hdevice := Device.reliable_healthy
  obtain ⟨w, hnew, hhealthy⟩ := new_default "log" 0 hdevice
  have hrun := run_healthy hhealthy [.append { severity := ⟨6⟩ }, .append {}]
  obtain ⟨w', hclose, _⟩ := close_healthy hrun
  have hcontent := (content_of_close hnew hclose).1
  obtain ⟨r, hread, hat, _⟩ := BinaryLogReader.new_fileHeader "log" 0 0 0
    (recordBytes 0 { severity := ⟨6⟩ } ++ recordBytes 0 {})
  obtain ⟨r', hnext⟩ := BinaryLogReader.next_unknown_severity hat (by simp) (by decide)
  refine ⟨w, w', r, hnew, ((refines_new hnew).1.run hrun.1).1, hclose, ?_, fun further => ?_⟩
  · rw [hcontent, ← hread]
    rfl
  · rw [BinaryLogReader.replay_error hnext]
    rfl

end BinaryLogWriter

end Hpblr
