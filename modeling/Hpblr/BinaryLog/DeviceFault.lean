import Hpblr.BinaryLog.Truncation

/-!
# Reading a file whose device fails

The reader looks at the number of bytes it got and at the end-of-file bit, and never at the bit that
reports a failure of the device. It returns the events before the failure, and then takes the failure
for a truncated file.
-/

namespace Hpblr

namespace BinaryLogReader

/-- What the documentation asks of a reader of a log whose device fails behind `position` bytes: all
the events whose whole record precedes the failure, and then an I/O error. -/
structure ReportsFault (path : String) (file : List UInt8) (events : List Event) (position : ℕ) :
    Prop where
  inHeader : position < 36 →
    ∃ message, new path (IFStream.failingAt file position) = .error (.ioError message)
  inRecords : 36 ≤ position →
    ∃ r, new path (IFStream.failingAt file position) = .ok r ∧
      ∃ n ≤ events.length, (∀ i < events.length, recordEnd events (i + 1) ≤ position ↔ i < n) ∧
        ∃ message, r.replay (n + 1) = (events.take n, .threw (.ioError message))

/-! ## One call of `next` -/

/-- `next` takes a failure inside a record header, or right before it, for a truncated header. -/
theorem next_fault_header {r : BinaryLogReader} {bytes : List UInt8}
    (hat : r.input.Before bytes true) (hshort : bytes.length < 48) :
    ∃ r', r.next = (.error (.fileFormatError "truncated HPBLR record header"), r') := by
  obtain ⟨buffer, input, hread, hcount, heof, _⟩ := hat.read_fault hshort
  refine ⟨{ r with input := input }, ?_⟩
  simp [next, hread, hcount, heof]

/-- A failure inside a payload is taken for a truncated payload. -/
theorem readPayload_fault {r : BinaryLogReader} {h : RecordHeader} {bytes : List UInt8}
    (hat : r.input.Before bytes true) (hshort : bytes.length < h.payloadSize.toNat) :
    ∃ r', r.readPayload h = (.error (.fileFormatError
      ("truncated HPBLR record payload near sequence " ++ toString h.sequence)), r') := by
  have hpos : h.payloadSize > 0 := by
    rw [gt_iff_lt, UInt32.lt_iff_toNat_lt]
    exact Nat.lt_of_le_of_lt (Nat.zero_le _) hshort
  obtain ⟨buffer, input, hread, hcount, _⟩ := hat.read_fault hshort
  have hne : (0 : ℕ) ≠ h.payloadSize.toNat := by omega
  refine ⟨{ r with input := input }, ?_⟩
  simp only [readPayload, if_pos hpos, hread, hcount, ne_eq, hne, not_false_eq_true, if_true]

/-- `next` throws a format error when the device fails inside the record it stands at, or right
before it. -/
theorem next_fault {r : BinaryLogReader} {flags : UInt32} {event : Event} {rest : List UInt8}
    {k : ℕ} (hat : r.input.Before ((recordBytes flags event ++ rest).take k) true)
    (hvalid : event.Valid) (hk : k < 48 + event.payload.length) :
    ∃ message r', r.next = (.error (.fileFormatError message), r') := by
  by_cases hheader : k < 48
  · have hshort : ((recordBytes flags event ++ rest).take k).length < 48 := by
      rw [List.length_take]
      omega
    obtain ⟨r', hnext⟩ := next_fault_header hat hshort
    exact ⟨_, r', hnext⟩
  · obtain ⟨j, rfl⟩ := Nat.exists_eq_add_of_le (Nat.le_of_not_lt hheader)
    rw [take_record_payload flags event rest (by omega)] at hat
    obtain ⟨r₁, hat₁, _, hnext⟩ := next_header_before hat
    have hshort : (event.payload.take j).length < (recordHeader flags event).payloadSize.toNat := by
      rw [toNat_payloadSize hvalid.payload, List.length_take]
      omega
    obtain ⟨r', hread⟩ := readPayload_fault hat₁ hshort
    simp only [readRecord, checkRecordHeader_recordHeader hvalid, hread] at hnext
    exact ⟨_, r', hnext⟩

/-! ## The whole file -/

/-- The constructor takes a failure inside the file header for a short file. -/
theorem new_fault (path : String) (file : List UInt8) {position : ℕ} (h : position < 36) :
    new path (IFStream.failingAt file position) =
      .error (.fileFormatError "file is too short to contain an HPBLR header") := by
  have hshort : (file.take position).length < 36 := by
    rw [List.length_take]
    omega
  obtain ⟨buffer, input, hread, hcount, _⟩ :=
    (IFStream.failingAt_before file position).read_fault hshort
  have hopen : (IFStream.failingAt file position).fail = false := rfl
  have hne : ¬ (0 : ℕ) = 36 := by decide
  simp only [new, hopen, Bool.false_eq_true, if_false, readFileHeader, toNat_kFileHeaderSize, hread,
    hcount, ne_eq, hne, not_false_eq_true, if_true]

/-- The constructor accepts a file header that precedes the failure. -/
theorem new_before_fault (path : String) (flags : UInt16) (created reserved : UInt64)
    (rest : List UInt8) (k : ℕ) :
    ∃ r, new path (IFStream.failingAt (fileHeader flags created reserved ++ rest) (36 + k)) = .ok r ∧
      r.input.Before (rest.take k) true := by
  have htake : (fileHeader flags created reserved ++ rest).take (36 + k) =
      fileHeader flags created reserved ++ rest.take k := by
    rw [List.take_append, length_fileHeader, Nat.add_sub_cancel_left,
      List.take_of_length_le (by simp)]
  have hbefore := IFStream.failingAt_before (fileHeader flags created reserved ++ rest) (36 + k)
  have hopen : (IFStream.failingAt (fileHeader flags created reserved ++ rest) (36 + k)).fail =
      false := rfl
  rw [htake] at hbefore
  obtain ⟨input, hread, hat, hcount⟩ := hbefore.read_append
  rw [length_fileHeader] at hread hcount
  refine ⟨{ path := path, input := input,
            info := { version := kFileFormatVersion, createdUnixNs := created } }, ?_, hat⟩
  simp only [new, hopen, Bool.false_eq_true, if_false, readFileHeader, toNat_kFileHeaderSize, hread,
    hcount, ne_eq, not_true_eq_false, checkFileHeader_fileHeader]

/-- The records of a log on a device that fails behind `k` bytes of them: the whole records are
returned, and then `next` throws a format error. -/
theorem replay_fault {records : List UInt8} {events : List Event}
    (hrecords : IsRecords records events) {k : ℕ} (hk : k ≤ records.length) {r : BinaryLogReader}
    (hat : r.input.Before (records.take k) true) :
    ∃ n ≤ events.length, (∀ i < events.length, recordsLength events (i + 1) ≤ k ↔ i < n) ∧
      ∃ message, ∀ further,
        r.replay (n + 1 + further) = (events.take n, .threw (.fileFormatError message)) := by
  induction hrecords generalizing k r with
  | nil =>
    obtain ⟨r', hnext⟩ := next_fault_header hat (by simp)
    refine ⟨0, le_rfl, by simp, "truncated HPBLR record header", fun further => ?_⟩
    rw [Nat.zero_add, Nat.add_comm, replay_error hnext, List.take_nil]
  | @cons flags event rest events hvalid _ ih =>
    by_cases hinside : k < 48 + event.payload.length
    · obtain ⟨message, r', hnext⟩ := next_fault hat hvalid hinside
      refine ⟨0, Nat.zero_le _, ?_, message, fun further => ?_⟩
      · intro i _
        rw [recordsLength_cons]
        omega
      · rw [Nat.zero_add, Nat.add_comm, replay_error hnext, List.take_zero]
    · obtain ⟨j, rfl⟩ := Nat.exists_eq_add_of_le (Nat.le_of_not_lt hinside)
      rw [take_record] at hat
      rw [List.length_append, length_recordBytes] at hk
      obtain ⟨r₁, hnext, hat₁, _⟩ := next_record_before hat hvalid
      obtain ⟨n, hn, hwithin, message, hreplay⟩ := ih (by omega) hat₁
      refine ⟨n + 1, Nat.succ_le_succ hn, ?_, message, fun further => ?_⟩
      · intro i hi
        rw [recordsLength_cons]
        cases i with
        | zero =>
          rw [recordsLength_zero]
          omega
        | succ i =>
          have := hwithin i (Nat.lt_of_succ_lt_succ hi)
          omega
      · have hcalls : n + 1 + 1 + further = n + 1 + further + 1 := by omega
        rw [hcalls, replay_some hnext, hreplay, List.take_succ_cons]

/-- What the reader does on a log whose device fails: the events are the right ones, and the
exception is a format error. -/
theorem read_fault (path : String) {file : List UInt8} {events : List Event}
    (hlog : IsLog file events) {position : ℕ} (hposition : position ≤ file.length)
    (hlong : 36 ≤ position) :
    ∃ r, new path (IFStream.failingAt file position) = .ok r ∧
      ∃ n ≤ events.length, (∀ i < events.length, recordEnd events (i + 1) ≤ position ↔ i < n) ∧
        ∃ message, ∀ further,
          r.replay (n + 1 + further) = (events.take n, .threw (.fileFormatError message)) := by
  obtain ⟨flags, created, reserved, records, rfl, hrecords⟩ := hlog
  obtain ⟨k, rfl⟩ := Nat.exists_eq_add_of_le hlong
  rw [List.length_append, length_fileHeader] at hposition
  obtain ⟨r, hnew, hat⟩ := new_before_fault path flags created reserved records k
  obtain ⟨n, hn, hwithin, hreplay⟩ := replay_fault hrecords (by omega) hat
  refine ⟨r, hnew, n, hn, ?_, hreplay⟩
  intro i hi
  have := hwithin i hi
  unfold recordEnd
  omega

/-- **A device failure is never reported as one.** Whatever the log and wherever its device fails,
the reader does not report an I/O error. Inside the file header the constructor throws a format
error; behind it the reader returns exactly the events whose whole record precedes the failure, and
the next call throws a format error. -/
theorem not_reportsFault (path : String) {file : List UInt8} {events : List Event}
    (hlog : IsLog file events) {position : ℕ} (hposition : position ≤ file.length) :
    ¬ ReportsFault path file events position ∧
    (position < 36 →
      ∃ message, new path (IFStream.failingAt file position) = .error (.fileFormatError message)) ∧
    (36 ≤ position → ∃ r, new path (IFStream.failingAt file position) = .ok r ∧
      ∃ n ≤ events.length, (∀ i < events.length, recordEnd events (i + 1) ≤ position ↔ i < n) ∧
        ∃ message, ∀ further,
          r.replay (n + 1 + further) = (events.take n, .threw (.fileFormatError message))) := by
  refine ⟨?_, fun hshort => ⟨_, new_fault path file hshort⟩, read_fault path hlog hposition⟩
  intro hreports
  by_cases hshort : position < 36
  · obtain ⟨message, hthrows⟩ := hreports.inHeader hshort
    rw [new_fault path file hshort] at hthrows
    cases hthrows
  · have hlong : 36 ≤ position := Nat.le_of_not_lt hshort
    obtain ⟨r, hnew, n, hn, hwithin, message, hreplay⟩ := hreports.inRecords hlong
    obtain ⟨r', hnew', n', hn', hwithin', message', hreplay'⟩ :=
      read_fault path hlog hposition hlong
    obtain rfl : r' = r := Except.ok.inj (hnew'.symm.trans hnew)
    -- Both numbers count the records that end before the failure.
    obtain rfl : n' = n := by
      by_contra hne
      have hleft := hwithin (min n n')
      have hright := hwithin' (min n n')
      omega
    have hsame := hreplay.symm.trans (hreplay' 0)
    simp at hsame

/-- A log of one empty event. -/
def oneEmptyEvent : List UInt8 := fileHeader 0 0 0 ++ recordBytes 0 {}

theorem oneEmptyEvent_isLog : IsLog oneEmptyEvent [{}] :=
  ⟨0, 0, 0, recordBytes 0 {}, rfl, by
    simpa using IsRecords.cons 0 ⟨by decide, by simp⟩ IsRecords.nil⟩

/-- The device fails right behind the file header. The reader should throw an I/O error, and throws
a format error. -/
theorem fault_taken_for_truncation :
    (∃ r r', new "log" (IFStream.failingAt oneEmptyEvent 36) = .ok r ∧
      r.next = (.error (.fileFormatError "truncated HPBLR record header"), r')) ∧
    ¬ ReportsFault "log" oneEmptyEvent [{}] 36 := by
  obtain ⟨r, hnew, hat⟩ := new_before_fault "log" 0 0 0 (recordBytes 0 {}) 0
  obtain ⟨r', hnext⟩ := next_fault_header hat (by simp)
  refine ⟨⟨r, r', hnew, hnext⟩, ?_⟩
  intro hreports
  obtain ⟨r'', hnew'', n, _, _, message, hreplay⟩ := hreports.inRecords le_rfl
  obtain rfl : r = r'' := Except.ok.inj (hnew.symm.trans hnew'')
  simp [replay_error hnext] at hreplay

/-- The same failure, by the general theorem. -/
theorem not_reportsFault_one : ¬ ReportsFault "log" oneEmptyEvent [{}] 36 :=
  (not_reportsFault "log" oneEmptyEvent_isLog (by simp [oneEmptyEvent])).1

end BinaryLogReader

end Hpblr
