import Hpblr.BinaryLog.ReaderGrammar

/-!
# Replaying a whole file

The constructor and the replay loop on an arbitrary byte string. The loop ends, and it ends at
`std::nullopt` exactly on the logs of the documented grammar.
-/

namespace Hpblr

open LittleEndian

namespace BinaryLogReader

/-! ## The constructor -/

/-- The constructor in terms of the one read it makes. -/
private theorem new_of_read {file header : List UInt8} {input : IFStream}
    (hread : (IFStream.ofBytes file).read 36 = (header, input)) (path : String) :
    new path (IFStream.ofBytes file) =
      if input.gcount ≠ 36 then
        .error (.fileFormatError "file is too short to contain an HPBLR header")
      else
        match checkFileHeader header with
        | .error e => .error e
        | .ok info => .ok { path := path, input := input, info := info } := by
  have hopen : (IFStream.ofBytes file).fail = false := rfl
  simp only [new, hopen, Bool.false_eq_true, if_false, readFileHeader, toNat_kFileHeaderSize, hread]
  by_cases hcount : input.gcount ≠ 36
  · rw [if_pos hcount, if_pos hcount]
  · rw [if_neg hcount, if_neg hcount]
    cases checkFileHeader header <;> rfl

/-- The constructor accepts a file that begins with a file header, and stops behind it. -/
theorem new_fileHeader (path : String) (flags : UInt16) (created reserved : UInt64)
    (rest : List UInt8) :
    ∃ r, new path (IFStream.ofBytes (fileHeader flags created reserved ++ rest)) = .ok r ∧
      r.input.At rest ∧
      r.info = { version := kFileFormatVersion, createdUnixNs := created } := by
  obtain ⟨input, hread, hat, hcount⟩ :=
    (IFStream.ofBytes_at (fileHeader flags created reserved ++ rest)).read_append
  rw [length_fileHeader] at hread hcount
  rw [new_of_read hread, if_neg (not_not.mpr hcount), checkFileHeader_fileHeader]
  exact ⟨_, rfl, hat, rfl⟩

/-- The constructor throws on a file shorter than a file header. -/
theorem new_short (path : String) {file : List UInt8} (h : file.length < 36) :
    new path (IFStream.ofBytes file) =
      .error (.fileFormatError "file is too short to contain an HPBLR header") := by
  obtain ⟨buffer, input, hread, hcount, _, _⟩ := (IFStream.ofBytes_at file).read_short h
  rw [new_of_read hread, if_pos (by omega)]

/-- The files that begin with a file header. -/
def BeginsWithFileHeader (file : List UInt8) : Prop :=
  ∃ flags created reserved rest, file = fileHeader flags created reserved ++ rest

/-- The constructor throws on every file that does not begin with a file header. -/
theorem new_cases (path : String) (file : List UInt8) :
    BeginsWithFileHeader file ∨
      ∃ e, new path (IFStream.ofBytes file) = .error e ∧ e.IsFormatOrCrc := by
  rcases Nat.lt_or_ge file.length 36 with hshort | hlong
  · exact Or.inr ⟨_, new_short path hshort, trivial⟩
  · obtain ⟨header, rest, rfl, hlen, _⟩ := exists_append (l := file)
      (Nat.add_sub_of_le hlong).symm
    obtain ⟨input, hread, hat, hcount⟩ := (IFStream.ofBytes_at (header ++ rest)).read_append
    rw [hlen] at hread hcount
    cases hcheck : checkFileHeader header with
    | ok info =>
      obtain ⟨flags, created, reserved, rfl⟩ := exists_of_checkFileHeader hlen hcheck
      exact Or.inl ⟨flags, created, reserved, rest, rfl⟩
    | error e =>
      right
      refine ⟨e, ?_, checkFileHeader_error hcheck⟩
      rw [new_of_read hread, if_neg (not_not.mpr hcount), hcheck]

/-- A reader that was constructed stands behind a file header. -/
theorem at_of_new {path : String} {file : List UInt8} {r : BinaryLogReader}
    (h : new path (IFStream.ofBytes file) = .ok r) :
    ∃ flags created reserved rest,
      file = fileHeader flags created reserved ++ rest ∧ r.input.At rest := by
  rcases new_cases path file with ⟨flags, created, reserved, rest, rfl⟩ | ⟨e, he, _⟩
  · obtain ⟨r', hr', hat, _⟩ := new_fileHeader path flags created reserved rest
    rw [hr'] at h
    exact ⟨flags, created, reserved, rest, rfl, Except.ok.inj h ▸ hat⟩
  · rw [he] at h
    cases h

/-! ## The replay loop -/

theorem replay_some {r r' : BinaryLogReader} {event : Event}
    (h : r.next = (.ok (some event), r')) (calls : ℕ) :
    r.replay (calls + 1) = (event :: (r'.replay calls).1, (r'.replay calls).2) := by
  simp only [replay, h]

theorem replay_none {r r' : BinaryLogReader} (h : r.next = (.ok none, r')) (calls : ℕ) :
    r.replay (calls + 1) = ([], .endOfLog) := by
  simp only [replay, h]

theorem replay_error {r r' : BinaryLogReader} {e : Exception} (h : r.next = (.error e, r'))
    (calls : ℕ) : r.replay (calls + 1) = ([], .threw e) := by
  simp only [replay, h]

/-- Replay delivers the records at the front of the file one by one, and then behaves as a reader
that stands behind them. -/
theorem replay_records {records tail : List UInt8} {events : List Event}
    (hrecords : IsRecords records events) {r : BinaryLogReader}
    (hat : r.input.At (records ++ tail)) :
    ∃ r' : BinaryLogReader, r'.input.At tail ∧ ∀ calls, r.replay (events.length + calls) =
      (events ++ (r'.replay calls).1, (r'.replay calls).2) := by
  induction hrecords generalizing r with
  | nil => exact ⟨r, hat, fun calls => by simp⟩
  | cons flags hvalid _ ih =>
    rw [List.append_assoc] at hat
    obtain ⟨r₁, hnext, hat₁, _⟩ := next_record hat hvalid
    obtain ⟨r₂, hat₂, hreplay⟩ := ih hat₁
    refine ⟨r₂, hat₂, fun calls => ?_⟩
    rw [List.length_cons, Nat.add_right_comm, replay_some hnext, hreplay, List.cons_append]

/-- A replay that ends at `std::nullopt` has read a sequence of records. -/
theorem isRecords_of_replay {calls : ℕ} {r : BinaryLogReader} {bytes : List UInt8}
    {events : List Event} (hat : r.input.At bytes) (h : r.replay calls = (events, .endOfLog)) :
    IsRecords bytes events := by
  induction calls generalizing r bytes events with
  | zero => simp [replay] at h
  | succ calls ih =>
    rcases next_at hat with rfl | ⟨flags, event, rest, rfl, hvalid⟩ | ⟨e, r', hnext, _⟩
    · obtain ⟨r', hnext, _⟩ := next_nil hat
      rw [replay_none hnext] at h
      cases h
      exact .nil
    · obtain ⟨r', hnext, hat', _⟩ := next_record hat hvalid
      rw [replay_some hnext] at h
      obtain ⟨rfl, hend⟩ := Prod.mk.inj h
      exact .cons flags hvalid (ih hat' (Prod.ext rfl hend))
    · rw [replay_error hnext] at h
      cases h

/-- Each call takes at least a record header from the file, so the loop ends. -/
theorem replay_finishes {calls : ℕ} {r : BinaryLogReader} {bytes : List UInt8}
    (hat : r.input.At bytes) (h : bytes.length / 48 < calls) :
    (r.replay calls).2 = .endOfLog ∨ ∃ e, (r.replay calls).2 = .threw e ∧ e.IsFormatOrCrc := by
  induction calls generalizing r bytes with
  | zero => omega
  | succ calls ih =>
    rcases next_at hat with rfl | ⟨flags, event, rest, rfl, hvalid⟩ | ⟨e, r', hnext, he, _⟩
    · obtain ⟨r', hnext, _⟩ := next_nil hat
      rw [replay_none hnext]
      exact Or.inl rfl
    · obtain ⟨r', hnext, hat', _⟩ := next_record hat hvalid
      rw [replay_some hnext]
      refine ih hat' ?_
      rw [List.length_append, length_recordBytes] at h
      omega
    · rw [replay_error hnext]
      exact Or.inr ⟨e, rfl, he⟩

/-- A replay from the constructor ends at `std::nullopt` exactly on the logs. -/
theorem replay_log (path : String) (file : List UInt8) {events : List Event} :
    (∃ r calls, new path (IFStream.ofBytes file) = .ok r ∧
      r.replay calls = (events, .endOfLog)) ↔ IsLog file events := by
  constructor
  · rintro ⟨r, calls, hnew, hreplay⟩
    obtain ⟨flags, created, reserved, rest, rfl, hat⟩ := at_of_new hnew
    exact ⟨flags, created, reserved, rest, rfl, isRecords_of_replay hat hreplay⟩
  · rintro ⟨flags, created, reserved, records, rfl, hrecords⟩
    obtain ⟨r, hnew, hat, _⟩ := new_fileHeader path flags created reserved records
    rw [← List.append_nil records] at hat
    obtain ⟨r', hat', hreplay⟩ := replay_records hrecords hat
    obtain ⟨r'', hnext, _⟩ := next_nil hat'
    refine ⟨r, events.length + 1, hnew, ?_⟩
    rw [hreplay, replay_none hnext, List.append_nil]

/-- **The reader accepts exactly the documented grammar.** Constructing a reader on a byte string
and calling `next` until `std::nullopt` succeeds with a list of events if and only if the byte
string is a log of that list; in every other case a format or checksum error is thrown; and the
replay loop ends within the stated number of calls. -/
theorem replay_iff_isLog (path : String) (file : List UInt8) :
    (∀ events, (∃ r calls, new path (IFStream.ofBytes file) = .ok r ∧
        r.replay calls = (events, .endOfLog)) ↔ IsLog file events) ∧
    ((∀ events, ¬ IsLog file events) →
      (∃ e, new path (IFStream.ofBytes file) = .error e ∧ e.IsFormatOrCrc) ∨
      ∃ r calls events e, new path (IFStream.ofBytes file) = .ok r ∧
        r.replay calls = (events, .threw e) ∧ e.IsFormatOrCrc) ∧
    (∀ r, new path (IFStream.ofBytes file) = .ok r →
      (r.replay ((file.length - 36) / 48 + 1)).2 ≠ .unfinished) := by
  have hends (r : BinaryLogReader) (hnew : new path (IFStream.ofBytes file) = .ok r) :
      let calls := (file.length - 36) / 48 + 1
      (r.replay calls).2 = .endOfLog ∨
        ∃ e, (r.replay calls).2 = .threw e ∧ e.IsFormatOrCrc := by
    obtain ⟨flags, created, reserved, rest, rfl, hat⟩ := at_of_new hnew
    refine replay_finishes hat ?_
    rw [List.length_append, length_fileHeader, Nat.add_sub_cancel_left]
    exact Nat.lt_succ_self _
  refine ⟨fun _ => replay_log path file, fun hnone => ?_, fun r hnew => ?_⟩
  · rcases hresult : new path (IFStream.ofBytes file) with e | r
    · left
      rcases new_cases path file with ⟨flags, created, reserved, rest, rfl⟩ | ⟨e', he', hkind⟩
      · obtain ⟨r, hnew, _⟩ := new_fileHeader path flags created reserved rest
        rw [hnew] at hresult
        cases hresult
      · rw [he'] at hresult
        exact ⟨e, rfl, Except.error.inj hresult ▸ hkind⟩
    · right
      rcases hends r hresult with hend | ⟨e, hthrew, hkind⟩
      · exact absurd ((replay_log path file).mp ⟨r, _, hresult, Prod.ext rfl hend⟩) (hnone _)
      · exact ⟨r, _, _, e, rfl, Prod.ext rfl hthrew, hkind⟩
  · rcases hends r hnew with hend | ⟨e, hthrew, _⟩
    · rw [hend]
      exact ReplayEnd.noConfusion
    · rw [hthrew]
      exact ReplayEnd.noConfusion

end BinaryLogReader

end Hpblr
