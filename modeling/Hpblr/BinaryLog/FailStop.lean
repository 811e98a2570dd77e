import Hpblr.BinaryLog.Replay

/-!
# Calling `next` after an exception

`next` keeps no error state of its own, so what a later call does depends on where the exception
left the stream. Every finite file brings the stream to its end sooner or later, and from there
`next` returns `std::nullopt`. The reader is therefore fail-stop on a file exactly when no call
throws at all.
-/

namespace Hpblr

namespace BinaryLogReader

/-- The results of consecutive calls of `next`, by a caller that catches the exceptions. -/
def results : ℕ → BinaryLogReader → List (Except Exception (Option Event))
  | 0, _ => []
  | calls + 1, r => r.next.1 :: results calls r.next.2

/-- Once a call has thrown a format or checksum error, no later call returns anything. -/
def FailStop (r : BinaryLogReader) : Prop :=
  ∀ (calls i j : ℕ) (e : Exception), (r.results calls)[i]? = some (Except.error e) → e.IsFormatOrCrc → i < j →
    ∀ value, (r.results calls)[j]? ≠ some (Except.ok value)

theorem results_succ {r r' : BinaryLogReader} {value : Except Exception (Option Event)}
    (h : r.next = (value, r')) (calls : ℕ) :
    r.results (calls + 1) = value :: r'.results calls := by
  simp only [results, h]

/-- A fail-stop reader stays so. -/
theorem FailStop.next {r r' : BinaryLogReader} {value : Except Exception (Option Event)}
    (hstop : r.FailStop) (h : r.next = (value, r')) : r'.FailStop := by
  intro calls i j e hi he hij result hj
  refine hstop (calls + 1) (i + 1) (j + 1) e ?_ he (by omega) result ?_
  · rwa [results_succ h, List.getElem?_cons_succ]
  · rwa [results_succ h, List.getElem?_cons_succ]

/-- Behind the end of the file the first call returns `std::nullopt`. -/
private theorem AtEnd.endOfFile {r : BinaryLogReader} (h : r.AtEnd) :
    ∃ calls j : ℕ, (r.results calls)[j]? = some (Except.ok none) := by
  obtain ⟨r', hnext, _⟩ := next_atEnd h
  exact ⟨1, 0, by rw [results_succ hnext]; rfl⟩

/-- Whatever the file holds, enough calls bring a reader to `std::nullopt`. -/
theorem exists_endOfFile {r : BinaryLogReader} {bytes : List UInt8} (hat : r.input.At bytes) :
    ∃ calls j : ℕ, (r.results calls)[j]? = some (Except.ok none) := by
  induction hlen : bytes.length using Nat.strong_induction_on generalizing r bytes with
  | _ length ih =>
    rcases next_at hat with rfl | ⟨flags, event, rest, rfl, hvalid⟩ | ⟨e, r', hnext, _, _, hstate⟩
    · obtain ⟨r', hnext, _⟩ := next_nil hat
      exact ⟨1, 0, by rw [results_succ hnext]; rfl⟩
    · obtain ⟨r', hnext, hat', _⟩ := next_record hat hvalid
      have hshorter : rest.length < length := by
        rw [← hlen, List.length_append, length_recordBytes]
        omega
      obtain ⟨calls, j, hj⟩ := ih _ hshorter hat' rfl
      exact ⟨calls + 1, j + 1, by rwa [results_succ hnext, List.getElem?_cons_succ]⟩
    · have hlater : ∃ calls j : ℕ, (r'.results calls)[j]? = some (Except.ok none) := by
        rcases hstate with hend | ⟨rest, hat', hshorter⟩
        · exact hend.endOfFile
        · exact ih _ (hlen ▸ hshorter) hat' rfl
      obtain ⟨calls, j, hj⟩ := hlater
      exact ⟨calls + 1, j + 1, by rwa [results_succ hnext, List.getElem?_cons_succ]⟩

/-- A fail-stop reader stands before a sequence of records: an exception would be followed by
`std::nullopt` in the end. -/
theorem FailStop.isRecords {r : BinaryLogReader} {bytes : List UInt8} (hstop : r.FailStop)
    (hat : r.input.At bytes) : ∃ events, IsRecords bytes events := by
  induction hlen : bytes.length using Nat.strong_induction_on generalizing r bytes with
  | _ length ih =>
    rcases next_at hat with rfl | ⟨flags, event, rest, rfl, hvalid⟩ |
      ⟨e, r', hnext, he, _, hstate⟩
    · exact ⟨[], .nil⟩
    · obtain ⟨r', hnext, hat', _⟩ := next_record hat hvalid
      have hshorter : rest.length < length := by
        rw [← hlen, List.length_append, length_recordBytes]
        omega
      obtain ⟨events, hevents⟩ := ih _ hshorter (hstop.next hnext) hat' rfl
      exact ⟨event :: events, .cons flags hvalid hevents⟩
    · have hend : ∃ calls j : ℕ, (r'.results calls)[j]? = some (Except.ok none) := by
        rcases hstate with hend | ⟨rest, hat', _⟩
        · exact hend.endOfFile
        · exact exists_endOfFile hat'
      obtain ⟨calls, j, hj⟩ := hend
      refine absurd ?_ (hstop (calls + 1) 0 (j + 1) e ?_ he (Nat.succ_pos j) none)
      · rwa [results_succ hnext, List.getElem?_cons_succ]
      · rw [results_succ hnext, List.getElem?_cons_zero]

/-- Past the end of the file no call throws. -/
private theorem results_atEnd {r : BinaryLogReader} (h : r.AtEnd) (calls i : ℕ) (e : Exception) :
    (r.results calls)[i]? ≠ some (Except.error e) := by
  induction calls generalizing r i with
  | zero => simp [results]
  | succ calls ih =>
    obtain ⟨r', hnext, hend, _⟩ := next_atEnd h
    rw [results_succ hnext]
    cases i with
    | zero => simp
    | succ i => simpa using ih hend i

/-- On a sequence of records no call throws. -/
theorem results_records {records : List UInt8} {events : List Event}
    (hrecords : IsRecords records events) {r : BinaryLogReader} (hat : r.input.At records)
    (calls i : ℕ) (e : Exception) : (r.results calls)[i]? ≠ some (Except.error e) := by
  induction hrecords generalizing r calls i with
  | nil =>
    cases calls with
    | zero => simp [results]
    | succ calls =>
      obtain ⟨r', hnext, hend, _⟩ := next_nil hat
      rw [results_succ hnext]
      cases i with
      | zero => simp
      | succ i => simpa using results_atEnd hend calls i e
  | cons flags hvalid _ ih =>
    cases calls with
    | zero => simp [results]
    | succ calls =>
      obtain ⟨r', hnext, hat', _⟩ := next_record hat hvalid
      rw [results_succ hnext]
      cases i with
      | zero => simp
      | succ i => simpa using ih hat' calls i

/-- **When the reader is fail-stop.** Every reader of a file is fail-stop if and only if the file
does not begin with a file header, so that there is no reader, or the file is a log from its first
to its last byte. -/
theorem failStop_iff (file : List UInt8) :
    (∀ path r, new path (IFStream.ofBytes file) = .ok r → r.FailStop) ↔
      ¬ BeginsWithFileHeader file ∨ ∃ events, IsLog file events := by
  constructor
  · intro hstop
    by_cases hheader : BeginsWithFileHeader file
    · right
      obtain ⟨flags, created, reserved, rest, rfl⟩ := hheader
      obtain ⟨r, hnew, hat, _⟩ := new_fileHeader "" flags created reserved rest
      obtain ⟨events, hevents⟩ := (hstop "" r hnew).isRecords hat
      exact ⟨events, flags, created, reserved, rest, rfl, hevents⟩
    · exact Or.inl hheader
  · intro hfile path r hnew
    obtain ⟨flags, created, reserved, rest, rfl, hat⟩ := at_of_new hnew
    rcases hfile with hnone | ⟨events, hlog⟩
    · exact absurd ⟨flags, created, reserved, rest, rfl⟩ hnone
    · obtain ⟨r', calls, hnew', hreplay⟩ := (replay_log path _).mpr hlog
      rw [hnew] at hnew'
      have hrecords := isRecords_of_replay hat (Except.ok.inj hnew' ▸ hreplay)
      intro calls i j e hi
      exact absurd hi (results_records hrecords hat calls i e)

/-- A log header followed by 48 zero bytes and a good record. -/
def damagedLog : List UInt8 :=
  fileHeader 0 0 0 ++ (List.replicate 48 0 ++ recordBytes 0 {})

/-- A log header followed by one stray byte. -/
def truncatedLog : List UInt8 := fileHeader 0 0 0 ++ [0]

/-- Not every reader is fail-stop. On `damagedLog` the first call throws and the second one returns
the event behind the damaged header; on `truncatedLog` the first call throws and the second one
reports a clean end of file. -/
theorem not_failStop :
    ¬ (∀ file path r, new path (IFStream.ofBytes file) = .ok r → r.FailStop) ∧
    (∃ r e, new "log" (IFStream.ofBytes damagedLog) = .ok r ∧
      r.results 2 = [.error e, .ok (some {})] ∧ e.IsFormatOrCrc) ∧
    (∃ r e, new "log" (IFStream.ofBytes truncatedLog) = .ok r ∧
      r.results 2 = [.error e, .ok none] ∧ e.IsFormatOrCrc) := by
  have hdamaged : ∃ r e, new "log" (IFStream.ofBytes damagedLog) = .ok r ∧
      r.results 2 = [.error e, .ok (some {})] ∧ e.IsFormatOrCrc := by
    obtain ⟨r, hnew, hat, _⟩ :=
      new_fileHeader "log" 0 0 0 (List.replicate 48 0 ++ recordBytes 0 {})
    have hzero : (RecordHeader.ofBytes (List.replicate 48 0)).toBytes = List.replicate 48 0 :=
      RecordHeader.toBytes_ofBytes (by simp)
    rw [← hzero] at hat
    obtain ⟨r₁, hat₁, _, hnext⟩ := next_header hat
    have hcheck : checkRecordHeader (List.replicate 48 0) =
        .error (.fileFormatError "invalid HPBLR record magic near sequence 0") := by decide
    rw [readRecord, hzero, hcheck] at hnext
    have hvalid : Event.Valid {} := ⟨by decide, by simp⟩
    rw [← List.append_nil (recordBytes 0 {})] at hat₁
    obtain ⟨r₂, hnext₁, _⟩ := next_record hat₁ hvalid
    refine ⟨r, .fileFormatError "invalid HPBLR record magic near sequence 0", hnew, ?_, trivial⟩
    rw [results_succ hnext, results_succ hnext₁]
    rfl
  have htruncated : ∃ r e, new "log" (IFStream.ofBytes truncatedLog) = .ok r ∧
      r.results 2 = [.error e, .ok none] ∧ e.IsFormatOrCrc := by
    obtain ⟨r, hnew, hat, _⟩ := new_fileHeader "log" 0 0 0 [0]
    obtain ⟨r', hnext, hend, _⟩ := next_partial hat (by simp) (by simp)
    obtain ⟨r'', hnext', _⟩ := next_atEnd hend
    refine ⟨r, .fileFormatError "truncated HPBLR record header", hnew, ?_, trivial⟩
    rw [results_succ hnext, results_succ hnext']
    rfl
  refine ⟨fun hall => ?_, hdamaged, htruncated⟩
  obtain ⟨r, e, hnew, hresults, he⟩ := hdamaged
  exact hall _ _ r hnew 2 0 1 e (by rw [hresults]; rfl) he Nat.zero_lt_one (some {})
    (by rw [hresults]; rfl)

end BinaryLogReader

end Hpblr
