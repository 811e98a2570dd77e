import Hpblr.Apps.Selection

/-!
# The totals of `inspect`

`inspect` counts the events that the reader returns, their payload bytes, and the events of each
severity. On a log these counters account for every byte of the file. They are 64-bit counters, so
they hold the totals modulo 2^64, and the totals themselves as long as these are smaller than that.
-/

namespace Hpblr

/-! ## Totals of a list of events -/

/-- The payload bytes of some events. -/
def payloadTotal (events : List Event) : ℕ := (events.map (fun event => event.payload.length)).sum

/-- The number of events whose severity has the value `i`. -/
def severityCount (events : List Event) (i : ℕ) : ℕ :=
  events.countP (fun event => (severityToU16 event.severity).toNat = i)

theorem severityCount_le (events : List Event) (i : ℕ) : severityCount events i ≤ events.length :=
  List.countP_le_length

/-- The value of a severity that the format allows is an index of the six counters. -/
theorem severity_lt {event : Event} (hvalid : event.Valid) :
    (severityToU16 event.severity).toNat < 6 :=
  Nat.lt_succ_of_le (Severity.isEnumerator_iff.mp hvalid.severity)

/-- A number is counted once among those below `n`, if it is one of them. -/
theorem sum_indicator (k n : ℕ) :
    ((List.range n).map (fun i => if k = i then 1 else 0)).sum = if k < n then 1 else 0 := by
  induction n with
  | zero => rfl
  | succ n ih =>
    rw [List.range_succ, List.map_append, List.sum_append, ih]
    simp only [List.map_cons, List.map_nil, List.sum_cons, List.sum_nil, Nat.add_zero]
    split_ifs <;> omega

/-- Each event has one of the six severities. -/
theorem sum_severityCount {events : List Event} (hvalid : ∀ event ∈ events, event.Valid) :
    ((List.range 6).map (severityCount events)).sum = events.length := by
  induction events with
  | nil => rfl
  | cons event events ih =>
    have htail := ih (fun e he => hvalid e (List.mem_cons_of_mem event he))
    have hindex := severity_lt (hvalid event List.mem_cons_self)
    have hcons : severityCount (event :: events) = fun i =>
        severityCount events i + if (severityToU16 event.severity).toNat = i then 1 else 0 := by
      funext i
      simp [severityCount, List.countP_cons]
    rw [hcons, List.sum_map_add, htail, sum_indicator, if_pos hindex, List.length_cons]

/-- The records of a log take 48 bytes each, and their payloads. -/
theorem IsRecords.length_eq {records : List UInt8} {events : List Event}
    (h : IsRecords records events) :
    records.length = 48 * events.length + payloadTotal events := by
  induction h with
  | nil => rfl
  | cons flags _ _ ih =>
    simp only [List.length_append, length_recordBytes, List.length_cons, payloadTotal,
      List.map_cons, List.sum_cons] at ih ⊢
    omega

/-- The size of a log: the file header, and its records. -/
theorem IsLog.length_eq {file : List UInt8} {events : List Event} (h : IsLog file events) :
    file.length = 36 + 48 * events.length + payloadTotal events := by
  obtain ⟨flags, created, reserved, records, rfl, hrecords⟩ := h
  rw [List.length_append, length_fileHeader, hrecords.length_eq, Nat.add_assoc]

namespace Tool

open BinaryLogReader

/-! ## The counters -/

/-- The counters hold the totals of some events, modulo 2^64. -/
structure InspectTotals.Counts (totals : InspectTotals) (events : List Event) : Prop where
  count : totals.count = UInt64.ofNat events.length
  payloadBytes : totals.payloadBytes = UInt64.ofNat (payloadTotal events)
  severities : ∀ i (h : i < 6), totals.severities[i] = UInt64.ofNat (severityCount events i)

/-- The counters hold the totals of some events themselves: none of them has wrapped. -/
structure InspectTotals.Exact (totals : InspectTotals) (events : List Event) : Prop where
  count : totals.count.toNat = events.length
  payloadBytes : totals.payloadBytes.toNat = payloadTotal events
  severities : ∀ i (h : i < 6), totals.severities[i].toNat = severityCount events i

theorem InspectTotals.counts_nil : InspectTotals.Counts {} [] := by
  refine ⟨rfl, rfl, ?_⟩
  intro i h
  simp [severityCount]

/-- `at` does not throw. -/
theorem InspectTotals.add_eq (totals : InspectTotals) {event : Event}
    (hindex : (severityToU16 event.severity).toNat < 6) :
    totals.add event = .ok {
      count := totals.count + 1
      payloadBytes := totals.payloadBytes + UInt64.ofNat event.payload.length
      severities := totals.severities.set (severityToU16 event.severity).toNat
        (totals.severities[(severityToU16 event.severity).toNat] + 1) } := by
  rw [InspectTotals.add]
  exact dif_pos hindex

/-- One event more. -/
theorem InspectTotals.Counts.add {totals : InspectTotals} {events : List Event} {event : Event}
    (h : totals.Counts events) (hvalid : event.Valid) :
    ∃ totals', totals.add event = .ok totals' ∧ totals'.Counts (events ++ [event]) := by
  refine ⟨_, totals.add_eq (severity_lt hvalid), ?_, ?_, ?_⟩
  · simp [h.count, UInt64.ofNat_add]
  · simp [h.payloadBytes, payloadTotal, UInt64.ofNat_add]
  · intro i hi
    rw [Vector.getElem_set]
    split
    · next heq =>
      subst heq
      simp [h.severities, severityCount, UInt64.ofNat_add]
    · next hne =>
      simp [h.severities i hi, severityCount, hne]

/-- Totals below 2^64 are exact. -/
theorem InspectTotals.Counts.exact {totals : InspectTotals} {events : List Event}
    (h : totals.Counts events) (hcount : events.length < 2 ^ 64)
    (hpayload : payloadTotal events < 2 ^ 64) : totals.Exact events := by
  refine ⟨?_, ?_, ?_⟩
  · rw [h.count]
    exact UInt64.toNat_ofNat_of_lt hcount
  · rw [h.payloadBytes]
    exact UInt64.toNat_ofNat_of_lt hpayload
  · intro i hi
    rw [h.severities i hi]
    exact UInt64.toNat_ofNat_of_lt (Nat.lt_of_le_of_lt (severityCount_le events i) hcount)

/-- The counters of the severities, as a list. -/
theorem InspectTotals.toList_severities {totals : InspectTotals} {f : ℕ → UInt64}
    (h : ∀ i (hi : i < 6), totals.severities[i] = f i) :
    totals.severities.toList = (List.range 6).map f := by
  refine List.ext_getElem (by simp) ?_
  intro i hleft hright
  have hi : i < 6 := by simpa using hright
  simpa using h i hi

/-- In 64-bit arithmetic the counters of the severities always sum up to that of the events. -/
theorem InspectTotals.Counts.sum_severities {totals : InspectTotals} {events : List Event}
    (h : totals.Counts events) (hvalid : ∀ event ∈ events, event.Valid) :
    totals.severities.toList.foldr (· + ·) 0 = totals.count := by
  have hsum (is : List ℕ) :
      (is.map (fun i => UInt64.ofNat (severityCount events i))).foldr (· + ·) 0 =
        UInt64.ofNat (is.map (severityCount events)).sum := by
    induction is with
    | nil => rfl
    | cons i is ih =>
      rw [List.map_cons, List.foldr_cons, ih, ← UInt64.ofNat_add, List.map_cons, List.sum_cons]
  rw [toList_severities h.severities, hsum, sum_severityCount hvalid, h.count]

/-- Exact counters of the severities sum up to that of the events. -/
theorem InspectTotals.Exact.sum_severities {totals : InspectTotals} {events : List Event}
    (h : totals.Exact events) (hvalid : ∀ event ∈ events, event.Valid) :
    (totals.severities.toList.map UInt64.toNat).sum = totals.count.toNat := by
  rw [h.count, ← sum_severityCount hvalid]
  congr 1
  refine List.ext_getElem (by simp) ?_
  intro i hleft hright
  have hi : i < 6 := by simpa using hright
  simpa using h.severities i hi

/-! ## The loop -/

section InspectLoop

variable {r r' : BinaryLogReader} {totals totals' : InspectTotals} {bytes : List UInt8}
  {events : List Event}

theorem inspectLoop_none (h : r.next = (.ok none, r')) :
    inspectLoop r totals = (.ok totals, r') := by
  rw [inspectLoop]
  split
  · next h' => cases h.symm.trans h'
  · next h' =>
    cases h.symm.trans h'
    rfl
  · next h' => cases h.symm.trans h'

theorem inspectLoop_error {e : Exception} (h : r.next = (.error e, r')) :
    inspectLoop r totals = (.error e, r') := by
  rw [inspectLoop]
  split
  · next h' =>
    cases h.symm.trans h'
    rfl
  · next h' => cases h.symm.trans h'
  · next h' => cases h.symm.trans h'

theorem inspectLoop_some {event : Event} (h : r.next = (.ok (some event), r'))
    (hadd : totals.add event = .ok totals') : inspectLoop r totals = inspectLoop r' totals' := by
  rw [inspectLoop]
  split
  · next h' => cases h.symm.trans h'
  · next h' => cases h.symm.trans h'
  · next h' =>
    cases h.symm.trans h'
    rw [hadd]

/-- The loop ends as the reader does, and counts what the reader delivers. -/
theorem inspectLoop_deliver (hat : r.input.At bytes) (hcounts : totals.Counts events) :
    (∃ e r', r.deliver.2 = some e ∧ inspectLoop r totals = (.error e, r')) ∨
    (∃ totals' r', r.deliver.2 = none ∧ inspectLoop r totals = (.ok totals', r') ∧
      totals'.Counts (events ++ r.deliver.1)) := by
  induction r using deliver_induction generalizing totals events bytes with
  | hend r r' hnext =>
    right
    refine ⟨totals, r', by rw [deliver_none hnext], inspectLoop_none hnext, ?_⟩
    rw [deliver_none hnext, List.append_nil]
    exact hcounts
  | herror r r' e hnext =>
    left
    exact ⟨e, r', by rw [deliver_error hnext], inspectLoop_error hnext⟩
  | hsome r r' event hnext ih =>
    obtain ⟨flags, rest, _, hvalid, hat'⟩ := next_some_at hat hnext
    obtain ⟨next, hadd, hcounts'⟩ := hcounts.add hvalid
    rw [deliver_some hnext, inspectLoop_some hnext hadd]
    have htail := ih hat' hcounts'
    rw [List.append_assoc, List.singleton_append] at htail
    exact htail

end InspectLoop

/-! ## The command -/

/-- What `inspect` prints for the six severities. -/
def severityPieces (totals : InspectTotals) (i : ℕ) : List Text :=
  match severityFromU16 (UInt16.ofNat i) with
  | none => []
  | some severity => ["severity_".toList, severityToString severity, ['='],
      decimal (totals.severities.toList.getD i 0).toNat, ['\n']]

/-- The value of each of the six severities can be had. -/
theorem severityLines_ok {σ : Type} [OStream σ] (totals : InspectTotals) {is : List ℕ}
    (his : ∀ i ∈ is, i < 6) (out : σ) :
    severityLines totals is out = (.ok (), insertAll out (is.flatMap (severityPieces totals))) := by
  induction is generalizing out with
  | nil => rfl
  | cons i is ih =>
    have hi : i < 6 := his i List.mem_cons_self
    have hknown : ∀ i < 6, (severityFromU16 (UInt16.ofNat i)).isSome = true := by decide
    obtain ⟨severity, hseverity⟩ := Option.isSome_iff_exists.mp (hknown i hi)
    rw [List.flatMap_cons, insertAll_append, severityLines, severityPieces, hseverity]
    exact ih (fun j hj => his j (List.mem_cons_of_mem i hj)) _

/-- The insertions of `inspect`. -/
def inspectPieces (opts : CommonOptions) (totals : InspectTotals) (info : FileInfo) : List Text :=
  ["file=".toList, quoted opts.input, ['\n'],
    "version=".toList, decimal info.version.toNat, ['\n'],
    "created_unix_ns=".toList, decimal info.createdUnixNs.toNat, ['\n'],
    "created_utc=".toList, formatUnixNsUtc info.createdUnixNs, ['\n'],
    "events=".toList, decimal totals.count.toNat, ['\n'],
    "payload_bytes=".toList, decimal totals.payloadBytes.toNat, ['\n']] ++
  (if totals.count > 0 then
    ["first_timestamp_ns=".toList, decimal info.firstTimestampNs.toNat, ['\n'],
      "last_timestamp_ns=".toList, decimal info.lastTimestampNs.toNat, ['\n']]
  else []) ++
  (List.range 6).flatMap (severityPieces totals)

variable {opts : CommonOptions} {input : IFStream}

/-- Once the counters are complete, `inspect` prints them. -/
theorem inspect_ok {σ : Type} [OStream σ] {totals : InspectTotals} {info : FileInfo}
    (h : inspectTotals opts input = .ok (totals, info)) (out : σ) :
    inspect opts input out = (.ok (), insertAll out (inspectPieces opts totals info)) := by
  rw [inspect, h]
  simp only
  rw [severityLines_ok totals (fun i hi => List.mem_range.mp hi), inspectPieces, insertAll_append,
    insertAll_append]
  by_cases hcount : totals.count > 0
  · rw [if_pos hcount, if_pos hcount]
    rfl
  · rw [if_neg hcount, if_neg hcount]
    rfl

/-- Otherwise it prints nothing. -/
theorem inspect_error {σ : Type} [OStream σ] {e : Exception}
    (h : inspectTotals opts input = .error e) (out : σ) :
    inspect opts input out = (.error e, out) := by
  rw [inspect, h]

/-- The reading part of `inspect` on any file: the exception of the reader if there is one, and the
totals of the events of the log if there is none. -/
theorem inspectTotals_file (opts : CommonOptions) (file : List UInt8) :
    let delivered := delivered opts.input (IFStream.ofBytes file)
    (∃ e, delivered.2 = some e ∧ inspectTotals opts (IFStream.ofBytes file) = .error e) ∨
    (∃ totals info, IsLog file delivered.1 ∧ totals.Counts delivered.1 ∧
      inspectTotals opts (IFStream.ofBytes file) = .ok (totals, info)) := by
  unfold BinaryLogReader.delivered inspectTotals
  cases hnew : new opts.input (IFStream.ofBytes file) with
  | error e => exact Or.inl ⟨e, rfl, rfl⟩
  | ok r =>
    obtain ⟨flags, created, reserved, rest, hfile, hat⟩ := at_of_new hnew
    rcases inspectLoop_deliver hat InspectTotals.counts_nil with
      ⟨e, r', hdeliver, hloop⟩ | ⟨totals, r', hdeliver, hloop, hcounts⟩
    · left
      simp only [hloop]
      exact ⟨e, hdeliver, rfl⟩
    · right
      simp only [hloop]
      have hrecords : IsRecords rest r.deliver.1 :=
        isRecords_of_deliver hat (Prod.ext rfl hdeliver)
      exact ⟨totals, r'.info, ⟨flags, created, reserved, rest, hfile, hrecords⟩, hcounts, rfl⟩

/-- `inspect` completes on every log. -/
theorem inspectTotals_log (opts : CommonOptions) {file : List UInt8} {events : List Event}
    (hlog : IsLog file events) : ∃ totals info, InspectTotals.Counts totals events ∧
      inspectTotals opts (IFStream.ofBytes file) = .ok (totals, info) := by
  have hdelivered := delivered_log opts.input hlog
  rcases inspectTotals_file opts file with ⟨e, herror, _⟩ | ⟨totals, info, _, hcounts, htotals⟩
  · rw [hdelivered] at herror
    cases herror
  · rw [hdelivered] at hcounts
    exact ⟨totals, info, hcounts, htotals⟩

/-- **`inspect` accounts for every byte.** On any file the count of an event never throws, and the
only exceptions are those of the reader. Where `inspect` completes, the size of the file is that of
the header, of 48 bytes for each event, and of the payload bytes, and the six severities sum up to
the events: in 64-bit arithmetic always, and exactly, without a counter that has wrapped, if there
are less than 2^64 events and payload bytes. -/
theorem inspect_accounts (opts : CommonOptions) (file : List UInt8) :
    let input := IFStream.ofBytes file
    let delivered := delivered opts.input input
    (∀ event ∈ delivered.1, ∀ totals : InspectTotals,
      ∃ totals', totals.add event = .ok totals') ∧
    (∀ (out : Text) (e : Exception), (inspect opts input out).1 = .error e →
      delivered.2 = some e ∧ e.IsFormatOrCrc) ∧
    (∀ out : Text, (inspect opts input out).1 = .ok () → ∃ totals info,
      inspectTotals opts input = .ok (totals, info) ∧
      (inspect opts input out).2 = out ++ (inspectPieces opts totals info).flatten ∧
      file.length = 36 + 48 * delivered.1.length + payloadTotal delivered.1 ∧
      UInt64.ofNat file.length = 36 + 48 * totals.count + totals.payloadBytes ∧
      totals.severities.toList.foldr (· + ·) 0 = totals.count ∧
      (delivered.1.length < 2 ^ 64 → payloadTotal delivered.1 < 2 ^ 64 →
        totals.Exact delivered.1 ∧
        file.length = 36 + 48 * totals.count.toNat + totals.payloadBytes.toNat ∧
        (totals.severities.toList.map UInt64.toNat).sum = totals.count.toNat)) := by
  intro input delivered
  have hvalid : ∀ event ∈ delivered.1, event.Valid := (delivered_file opts.input file).1
  have hcase := inspectTotals_file opts file
  refine ⟨?_, ?_, ?_⟩
  · intro event hevent totals
    exact ⟨_, totals.add_eq (severity_lt (hvalid event hevent))⟩
  · intro out e herror
    rcases hcase with ⟨e', hdelivered, htotals⟩ | ⟨totals, info, _, _, htotals⟩
    · rw [inspect_error htotals] at herror
      obtain rfl : e' = e := Except.error.inj herror
      exact ⟨hdelivered, (delivered_file opts.input file).2 e' hdelivered⟩
    · rw [inspect_ok htotals] at herror
      cases herror
  · intro out hok
    rcases hcase with ⟨e', hdelivered, htotals⟩ | ⟨totals, info, hlog, hcounts, htotals⟩
    · rw [inspect_error htotals] at hok
      cases hok
    · have hlength := hlog.length_eq
      refine ⟨totals, info, htotals, ?_, hlength, ?_, hcounts.sum_severities hvalid, ?_⟩
      · rw [inspect_ok htotals, insertAll_text]
      · rw [hlength, hcounts.count, hcounts.payloadBytes, UInt64.ofNat_add, UInt64.ofNat_add,
          UInt64.ofNat_mul]
        rfl
      · intro hcount hpayload
        have hexact := hcounts.exact hcount hpayload
        refine ⟨hexact, ?_, hexact.sum_severities hvalid⟩
        rw [hexact.count, hexact.payloadBytes]
        exact hlength

/-! ## Counters that wrap -/

/-- A log of `n` empty events. -/
def emptyEventsLog (n : ℕ) : List UInt8 :=
  fileHeader 0 0 0 ++ (List.replicate n (recordBytes 0 {})).flatten

theorem emptyEventsLog_isLog (n : ℕ) : IsLog (emptyEventsLog n) (List.replicate n {}) := by
  refine ⟨0, 0, 0, _, rfl, ?_⟩
  induction n with
  | zero => exact .nil
  | succ n ih => exact .cons 0 ⟨by decide, by decide⟩ ih

theorem payloadTotal_replicate (n : ℕ) : payloadTotal (List.replicate n {}) = 0 := by
  simp [payloadTotal]

/-- Of 2^64 empty events `inspect` counts none. -/
theorem inspect_wraps :
    (inspect { input := "log" } (IFStream.ofBytes (emptyEventsLog (2 ^ 64))) ([] : Text)).1 =
      .ok () ∧
    ∃ totals info,
      inspectTotals { input := "log" } (IFStream.ofBytes (emptyEventsLog (2 ^ 64))) =
        .ok (totals, info) ∧
      totals.count = 0 ∧
      (emptyEventsLog (2 ^ 64)).length ≠
        36 + 48 * totals.count.toNat + totals.payloadBytes.toNat := by
  have hlog := emptyEventsLog_isLog (2 ^ 64)
  have hlength := hlog.length_eq
  obtain ⟨totals, info, hcounts, htotals⟩ := inspectTotals_log { input := "log" } hlog
  have hcount := hcounts.count
  have hpayload := hcounts.payloadBytes
  rw [List.length_replicate] at hlength hcount
  rw [payloadTotal_replicate] at hlength hpayload
  have hzero : totals.count = 0 := hcount
  have hempty : totals.payloadBytes = 0 := hpayload
  refine ⟨by rw [inspect_ok htotals], totals, info, htotals, hzero, ?_⟩
  rw [hlength, hzero, hempty, UInt64.toNat_zero]
  omega

end Tool

end Hpblr
