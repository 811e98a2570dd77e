import Hpblr.BinaryLog.RoundTrip

/-!
# Reading a truncated file

A file cut at any byte. The reader returns the events whose records are whole, and tells a cut at
the end of a record, which it takes for the end of the log, from a cut inside one.
-/

namespace Hpblr

/-- The length of the first `n` records. -/
def recordsLength (events : List Event) (n : ℕ) : ℕ := (encodeRecords (events.take n)).length

@[simp] theorem recordsLength_zero (events : List Event) : recordsLength events 0 = 0 := rfl

@[simp] theorem recordsLength_nil (n : ℕ) : recordsLength [] n = 0 := by
  simp [recordsLength]

@[simp] theorem recordsLength_cons (event : Event) (events : List Event) (n : ℕ) :
    recordsLength (event :: events) (n + 1) =
      48 + event.payload.length + recordsLength events n := by
  simp [recordsLength, encodeRecords]

/-- Every record takes some bytes. -/
theorem recordsLength_lt {events : List Event} {m n : ℕ} (hmn : m < n) (hn : n ≤ events.length) :
    recordsLength events m < recordsLength events n := by
  induction events generalizing m n with
  | nil => simp at hn; omega
  | cons event events ih =>
    obtain ⟨n, rfl⟩ := Nat.exists_eq_succ_of_ne_zero (Nat.ne_of_gt (Nat.zero_lt_of_lt hmn))
    rw [recordsLength_cons]
    cases m with
    | zero =>
      rw [recordsLength_zero]
      omega
    | succ m =>
      have hrest := ih (Nat.lt_of_succ_lt_succ hmn) (Nat.le_of_succ_le_succ hn)
      rw [recordsLength_cons]
      omega

/-- The position in the file behind the first `n` records. -/
def recordEnd (events : List Event) (n : ℕ) : ℕ := 36 + recordsLength events n

/-- A cut behind a whole record. -/
theorem take_record (flags : UInt32) (event : Event) (rest : List UInt8) (j : ℕ) :
    (recordBytes flags event ++ rest).take (48 + event.payload.length + j) =
      recordBytes flags event ++ rest.take j := by
  rw [List.take_append, length_recordBytes, Nat.add_sub_cancel_left,
    List.take_of_length_le (by simp)]

/-- A cut behind the header of a record, inside its payload. -/
theorem take_record_payload (flags : UInt32) (event : Event) (rest : List UInt8) {j : ℕ}
    (hj : j ≤ event.payload.length) :
    (recordBytes flags event ++ rest).take (48 + j) =
      (recordHeader flags event).toBytes ++ event.payload.take j := by
  rw [recordBytes, List.append_assoc, List.take_append, List.take_append,
    RecordHeader.length_toBytes, Nat.add_sub_cancel_left, List.take_of_length_le (by simp),
    Nat.sub_eq_zero_of_le hj, List.take_zero, List.append_nil]

/-- The events in front of the first one with an unknown severity. A reader gets no further. -/
def readable (events : List Event) : List Event :=
  events.takeWhile (fun event => decide event.severity.IsEnumerator)

theorem readable_cons {event : Event} {events : List Event} (h : event.severity.IsEnumerator) :
    readable (event :: events) = event :: readable events := by
  simp [readable, h]

theorem readable_unknown {event : Event} {events : List Event}
    (h : ¬ event.severity.IsEnumerator) : readable (event :: events) = [] := by
  simp [readable, h]

theorem readable_eq {events : List Event} (h : ∀ event ∈ events, event.Valid) :
    readable events = events :=
  List.takeWhile_eq_self_iff.mpr fun event hmem => decide_eq_true (h event hmem).severity

theorem length_readable_le (events : List Event) : (readable events).length ≤ events.length :=
  (List.takeWhile_prefix _).length_le

/-- A longer list of events does not make the readable ones fewer. -/
theorem length_readable_of_prefix {events events' : List Event} (h : events <+: events') :
    (readable events).length ≤ (readable events').length := by
  obtain ⟨rest, rfl⟩ := h
  induction events with
  | nil => exact Nat.zero_le _
  | cons event events ih =>
    rw [List.cons_append]
    by_cases hseverity : event.severity.IsEnumerator
    · rw [readable_cons hseverity, readable_cons hseverity]
      exact Nat.succ_le_succ ih
    · rw [readable_unknown hseverity]
      exact Nat.zero_le _

namespace BinaryLogReader

/-- How a replay that has returned `n` events ends at a cut behind `k` bytes of records: cleanly if
this is the end of their records, and with a format error otherwise. -/
def CutEnd (events : List Event) (n k : ℕ) (outcome : ReplayEnd) : Prop :=
  (k = recordsLength events n ∧ outcome = .endOfLog) ∨
    (k ≠ recordsLength events n ∧ ∃ message, outcome = .threw (.fileFormatError message))

/-- A cut behind a whole record ends the replay as the same cut of the records after it. -/
private theorem CutEnd.cons {event : Event} {events : List Event} {n k : ℕ} {outcome : ReplayEnd}
    (h : CutEnd events n k outcome) :
    CutEnd (event :: events) (n + 1) (48 + event.payload.length + k) outcome := by
  rw [CutEnd, recordsLength_cons]
  rcases h with ⟨rfl, houtcome⟩ | ⟨hne, houtcome⟩
  · exact Or.inl ⟨rfl, houtcome⟩
  · exact Or.inr ⟨by omega, houtcome⟩

/-- `next` throws when the file ends inside the record it stands at. -/
theorem next_cut {r : BinaryLogReader} {flags : UInt32} {event : Event} {rest : List UInt8}
    {k : ℕ} (hat : r.input.At ((recordBytes flags event ++ rest).take k))
    (hpayload : event.payload.length ≤ kMaxPayloadBytes)
    (hpos : 0 < k) (hk : k < 48 + event.payload.length) :
    ∃ message r', r.next = (.error (.fileFormatError message), r') := by
  have hlen : ((recordBytes flags event ++ rest).take k).length = k := by
    rw [List.length_take, List.length_append, length_recordBytes]
    omega
  rcases Nat.lt_or_ge k 48 with hheader | hbehind
  · have hne : (recordBytes flags event ++ rest).take k ≠ [] := by
      intro hnil
      rw [hnil, List.length_nil] at hlen
      omega
    obtain ⟨r', hnext, _⟩ := next_partial hat hne (by omega)
    exact ⟨_, r', hnext⟩
  · obtain ⟨j, rfl⟩ := Nat.exists_eq_add_of_le hbehind
    rw [take_record_payload flags event rest (by omega)] at hat
    obtain ⟨r₁, hat₁, _, hnext⟩ := next_header hat
    have hshort : (event.payload.take j).length < (recordHeader flags event).payloadSize.toNat := by
      rw [toNat_payloadSize hpayload, List.length_take]
      omega
    have hheader : checkRecordHeader (recordHeader flags event).toBytes =
        .ok (recordHeader flags event) :=
      checkRecordHeader_eq_ok.mpr ⟨rfl, recordHeader_accepted hpayload flags⟩
    obtain ⟨message, r', hread, _⟩ := readPayload_short hat₁ hshort
    simp only [readRecord, hheader, hread] at hnext
    exact ⟨message, r', hnext⟩

/-- The records of events, cut behind `k` bytes: the events of the whole records are returned as far
as they are readable, and the end is as `CutEnd` says. -/
theorem replay_cut {events : List Event}
    (hfits : ∀ event ∈ events, event.payload.length ≤ kMaxPayloadBytes) {k : ℕ}
    (hk : k ≤ (encodeRecords events).length) {r : BinaryLogReader}
    (hat : r.input.At ((encodeRecords events).take k)) :
    ∃ n ≤ (readable events).length, ∃ outcome,
      (∀ i < (readable events).length, recordsLength events (i + 1) ≤ k ↔ i < n) ∧
      CutEnd events n k outcome ∧
      ∀ further, r.replay (n + 1 + further) = (events.take n, outcome) := by
  induction events generalizing k r with
  | nil =>
    have hzero : k = 0 := by simpa using hk
    subst hzero
    obtain ⟨r', hnext, _⟩ := next_nil hat
    refine ⟨0, le_rfl, .endOfLog, fun i hi => absurd hi (Nat.not_lt_zero i), Or.inl ⟨rfl, rfl⟩,
      fun further => ?_⟩
    rw [Nat.zero_add, Nat.add_comm, replay_none hnext, List.take_nil]
  | cons event events ih =>
    have hhead := hfits event List.mem_cons_self
    have htail : ∀ e ∈ events, e.payload.length ≤ kMaxPayloadBytes :=
      fun e he => hfits e (List.mem_cons_of_mem event he)
    have hsplit : encodeRecords (event :: events) =
        recordBytes 0 event ++ encodeRecords events := rfl
    rw [hsplit] at hat hk
    rcases Nat.lt_or_ge k (48 + event.payload.length) with hinside | hwhole
    · have hbeyond (i : ℕ) (_ : i < (readable (event :: events)).length) :
          recordsLength (event :: events) (i + 1) ≤ k ↔ i < 0 := by
        rw [recordsLength_cons]
        omega
      rcases Nat.eq_zero_or_pos k with rfl | hpos
      · obtain ⟨r', hnext, _⟩ := next_nil hat
        refine ⟨0, Nat.zero_le _, .endOfLog, hbeyond, Or.inl ⟨rfl, rfl⟩, fun further => ?_⟩
        rw [Nat.zero_add, Nat.add_comm, replay_none hnext, List.take_zero]
      · obtain ⟨message, r', hnext⟩ := next_cut hat hhead hpos hinside
        refine ⟨0, Nat.zero_le _, .threw (.fileFormatError message), hbeyond,
          Or.inr ⟨Nat.ne_of_gt hpos, message, rfl⟩, fun further => ?_⟩
        rw [Nat.zero_add, Nat.add_comm, replay_error hnext, List.take_zero]
    · obtain ⟨j, rfl⟩ := Nat.exists_eq_add_of_le hwhole
      rw [take_record] at hat
      rw [List.length_append, length_recordBytes] at hk
      by_cases hseverity : event.severity.IsEnumerator
      · obtain ⟨r₁, hnext, hat₁, _⟩ := next_record hat ⟨hseverity, hhead⟩
        obtain ⟨n, hn, outcome, hwithin, hend, hreplay⟩ := ih htail (by omega) hat₁
        rw [readable_cons hseverity]
        refine ⟨n + 1, Nat.succ_le_succ hn, outcome, fun i hi => ?_, hend.cons, fun further => ?_⟩
        · rw [recordsLength_cons]
          cases i with
          | zero =>
            rw [recordsLength_zero]
            omega
          | succ i =>
            have := hwithin i (Nat.lt_of_succ_lt_succ hi)
            omega
        · have hcalls : n + 1 + 1 + further = n + 1 + further + 1 := by omega
          rw [hcalls, replay_some hnext, hreplay, List.take_succ_cons]
      · -- The record is whole, but its severity is refused.
        obtain ⟨message, r', hnext⟩ : ∃ message r', r.next = (.error (.fileFormatError message), r') :=
          ⟨_, next_unknown_severity hat hhead hseverity⟩
        rw [readable_unknown hseverity]
        refine ⟨0, le_rfl, .threw (.fileFormatError message),
          fun i hi => absurd hi (Nat.not_lt_zero i), Or.inr ⟨?_, message, rfl⟩, fun further => ?_⟩
        · rw [recordsLength_zero]
          omega
        · rw [Nat.zero_add, Nat.add_comm, replay_error hnext, List.take_zero]

/-! ## What a reader recovers -/

/-- A reader of the file returns these events, and then ends in this way. -/
def Recovers (path : String) (file : List UInt8) (events : List Event) (outcome : ReplayEnd) :
    Prop :=
  ∃ r, new path (IFStream.ofBytes file) = .ok r ∧
    ∀ further, r.replay (events.length + 1 + further) = (events, outcome)

/-- A file that holds a front part of a log: without a whole file header the constructor throws, and
otherwise the events are recovered whose records are in the file, as far as they are readable. -/
theorem recovers_front (path : String) (now : UInt64) {events : List Event}
    (hfits : ∀ event ∈ events, event.payload.length ≤ kMaxPayloadBytes) {file : List UInt8}
    (hfront : file <+: fileHeader 0 now 0 ++ encodeRecords events) :
    (file.length < 36 →
      ∃ message, new path (IFStream.ofBytes file) = .error (.fileFormatError message)) ∧
    (36 ≤ file.length → ∃ n ≤ (readable events).length, ∃ outcome,
      (∀ i < (readable events).length, recordEnd events (i + 1) ≤ file.length ↔ i < n) ∧
      CutEnd events n (file.length - 36) outcome ∧ Recovers path file (events.take n) outcome) := by
  refine ⟨fun hshort => ⟨_, new_short path hshort⟩, fun hlong => ?_⟩
  have hlength := hfront.length_le
  rw [List.length_append, length_fileHeader] at hlength
  have hfile : file = fileHeader 0 now 0 ++ (encodeRecords events).take (file.length - 36) := by
    conv_lhs => rw [List.prefix_iff_eq_take.mp hfront]
    rw [List.take_append, length_fileHeader, List.take_of_length_le (by simpa using hlong)]
  obtain ⟨r, hread, hat, _⟩ := new_fileHeader path 0 now 0
    ((encodeRecords events).take (file.length - 36))
  rw [← hfile] at hread
  obtain ⟨n, hn, outcome, hwithin, hend, hreplay⟩ := replay_cut hfits (by omega) hat
  have htaken : (events.take n).length = n := by
    have := length_readable_le events
    rw [List.length_take]
    omega
  refine ⟨n, hn, outcome, fun i hi => ?_, hend, r, hread, fun further => ?_⟩
  · have hrecord := hwithin i hi
    unfold recordEnd
    omega
  · rw [htaken]
    exact hreplay further

end BinaryLogReader

namespace BinaryLogWriter

/-- **Truncation is handled exactly.** Take the file that the writer leaves for events the format
can represent, and cut it behind any number of bytes. Within the file header the constructor throws
a format error. Otherwise the reader returns exactly the events whose whole record precedes the
cut, and the next call returns `std::nullopt` if the cut is the end of the file header or of a
record, and throws a format error if it is not. -/
theorem read_truncated {path : String} {options : WriterOptions} {device : Device} {now : UInt64}
    {w w' : BinaryLogWriter} (hnew : new path options device now = .ok w)
    {calls : List WriterCall} (hcalls : OnlyValidAppends calls)
    (hclose : (w.run calls).2.close = (.ok (), w')) {k : ℕ} (hk : k ≤ w'.out.content.length) :
    let events := appendedEvents calls
    let opened := BinaryLogReader.new path (IFStream.ofBytes (w'.out.content.take k))
    (k < 36 → ∃ message, opened = .error (.fileFormatError message)) ∧
    (36 ≤ k → ∃ r, opened = .ok r ∧ ∃ n ≤ events.length, ∃ outcome,
      (∀ i < events.length, recordEnd events (i + 1) ≤ k ↔ i < n) ∧
      (∀ further, r.replay (n + 1 + further) = (events.take n, outcome)) ∧
      ((∃ m ≤ events.length, k = recordEnd events m) → outcome = .endOfLog) ∧
      ((∀ m ≤ events.length, k ≠ recordEnd events m) →
        ∃ message, outcome = .threw (.fileFormatError message))) := by
  have hcontent := (content_of_close hnew hclose).1
  rw [hcalls.passedEvents_eq] at hcontent
  have hlength : (w'.out.content.take k).length = k := List.length_take_of_le hk
  have hfront : w'.out.content.take k <+:
      fileHeader 0 now 0 ++ encodeRecords (appendedEvents calls) :=
    hcontent ▸ List.take_prefix k _
  obtain ⟨hshort, hlong⟩ := BinaryLogReader.recovers_front path now
    (fun event hmem => (hcalls.valid event hmem).payload) hfront
  rw [hlength] at hshort hlong
  refine ⟨hshort, fun hk36 => ?_⟩
  obtain ⟨n, hn, outcome, hwithin, hend, r, hread, hreplay⟩ := hlong hk36
  rw [readable_eq hcalls.valid] at hn hwithin
  have htaken : ((appendedEvents calls).take n).length = n := List.length_take_of_le hn
  rw [htaken] at hreplay
  refine ⟨r, hread, n, hn, outcome, hwithin, hreplay, ?_, ?_⟩
  · rintro ⟨m, hm, hboundary⟩
    rcases hend with ⟨_, houtcome⟩ | ⟨hinside, _⟩
    · exact houtcome
    · -- A record ends at the cut: it is the last of the records that precede the cut.
      unfold recordEnd at hboundary hwithin
      refine absurd ?_ hinside
      rcases lt_trichotomy m n with hless | rfl | hgreater
      · have hbefore := (hwithin m (hless.trans_le hn)).mpr hless
        have hgrows := recordsLength_lt (Nat.lt_add_one m) (hless.trans_le hn)
        omega
      · omega
      · have hbehind := (hwithin n (hgreater.trans_le hm)).not.mpr (Nat.lt_irrefl n)
        rcases Nat.eq_or_lt_of_le (show n + 1 ≤ m from hgreater) with rfl | hfar
        · exact absurd hboundary.ge hbehind
        · have hgrows := recordsLength_lt hfar hm
          omega
  · intro hinside
    rcases hend with ⟨hcut, _⟩ | ⟨_, houtcome⟩
    · refine absurd ?_ (hinside n hn)
      unfold recordEnd
      omega
    · exact houtcome

/-- A file of one empty event, cut one byte before its end. -/
theorem read_truncated_one : ∃ w w' r message,
    new "log" {} .reliable 0 = .ok w ∧
    (w.run [.append {}]).2.close = (.ok (), w') ∧
    BinaryLogReader.new "log" (IFStream.ofBytes (w'.out.content.take 83)) = .ok r ∧
    r.replay 1 = ([], .threw (.fileFormatError message)) := by
  have hdevice := Device.reliable_healthy
  obtain ⟨w, hnew, hhealthy⟩ := new_default "log" 0 hdevice
  obtain ⟨w', hclose, _⟩ := close_healthy (run_healthy hhealthy [.append {}])
  have hcalls : OnlyValidAppends [.append {}] := by
    intro c hmem
    rw [List.mem_singleton] at hmem
    exact Or.inr ⟨_, hmem, by decide, by simp⟩
  have hlength : 83 ≤ w'.out.content.length := by
    rw [(content_of_close hnew hclose).1, List.length_append, length_fileHeader]
    simp [passedEvents, encodeRecords]
  obtain ⟨r, hread, n, hn, outcome, hwithin, hreplay, _, hthrew⟩ :=
    (read_truncated hnew hcalls hclose hlength).2 (by omega)
  have hzero : n = 0 := by
    have := hwithin 0 Nat.zero_lt_one
    simp only [appendedEvents, recordEnd, recordsLength_cons, recordsLength_zero] at this
    omega
  subst hzero
  obtain ⟨message, rfl⟩ := hthrew (by
    intro m hm
    have hcases : m = 0 ∨ m = 1 := by
      simp only [appendedEvents, List.length_singleton] at hm
      omega
    rcases hcases with rfl | rfl <;>
      simp [appendedEvents, recordEnd])
  exact ⟨w, w', r, message, hnew, hclose, hread, hreplay 0⟩

end BinaryLogWriter

end Hpblr
