import Mathlib.Logic.Function.Iterate
import Hpblr.BinaryLog.FailStop

/-!
# The file information while a file is read

`info()` between the calls of `next`, by a caller that goes on after exceptions. The reader takes a
first timestamp of zero for one that is not set yet. So it overwrites the first timestamp when an
event with a timestamp other than zero follows events with timestamp zero, and only then.
-/

namespace Hpblr

/-- The timestamps are those of the first and the last of the events, and zero if there are none. -/
structure FileInfo.Describes (info : FileInfo) (events : List Event) : Prop where
  first : info.firstTimestampNs = (events.head?.map Event.timestampNs).getD 0
  last : info.lastTimestampNs = (events.getLast?.map Event.timestampNs).getD 0

instance (info : FileInfo) (events : List Event) : Decidable (info.Describes events) :=
  decidable_of_iff
    (info.firstTimestampNs = (events.head?.map Event.timestampNs).getD 0 ∧
      info.lastTimestampNs = (events.getLast?.map Event.timestampNs).getD 0)
    ⟨fun h => ⟨h.1, h.2⟩, fun h => ⟨h.first, h.last⟩⟩

namespace BinaryLogReader

/-! ## One call -/

/-- The stream stands before the rest of the file, or has run into its end. -/
def InFile (r : BinaryLogReader) : Prop := (∃ bytes, r.input.At bytes) ∨ r.AtEnd

/-- The stream stands before a record whose timestamp is not zero. -/
def MeetsTimestamp (r : BinaryLogReader) : Prop :=
  r.input.good = true ∧ ∃ flags event rest,
    r.input.rest = recordBytes flags event ++ rest ∧ event.Valid ∧ event.timestampNs ≠ 0

/-- The stream that meets such a record returns its event. -/
private theorem MeetsTimestamp.next {r : BinaryLogReader} (hmeets : r.MeetsTimestamp)
    (hfile : r.InFile) :
    ∃ event r', r.next = (.ok (some event), r') ∧ event.timestampNs ≠ 0 := by
  obtain ⟨hgood, flags, event, rest, hrest, hvalid, htime⟩ := hmeets
  rcases hfile with ⟨bytes, hat⟩ | hend
  · rw [← hat.rest, hrest] at hat
    obtain ⟨r', hnext, _⟩ := next_record hat hvalid
    exact ⟨event, r', hnext, htime⟩
  · exact absurd (hgood.symm.trans hend.2) (by simp)

/-- **One call of `next`, for `info()`.** A call that returns an event notes its timestamp; any
other call leaves the information as it is. -/
theorem InFile.next {r : BinaryLogReader} (hfile : r.InFile) :
    ∃ result r', r.next = (result, r') ∧ r'.InFile ∧
      ((∃ event, result = .ok (some event) ∧ r'.info = noteTimestamp r.info event.timestampNs ∧
          (r.MeetsTimestamp ↔ event.timestampNs ≠ 0)) ∨
        ((∀ event, result ≠ .ok (some event)) ∧ r'.info = r.info ∧ ¬ r.MeetsTimestamp)) := by
  -- A call that returns no event meets no record.
  have hother {result : Except Exception (Option Event)} {r' : BinaryLogReader}
      (hnext : r.next = (result, r')) (hnone : ∀ event, result ≠ .ok (some event)) :
      ¬ r.MeetsTimestamp := by
    intro hmeets
    obtain ⟨event, r'', hnext', _⟩ := hmeets.next hfile
    exact hnone event (congrArg Prod.fst (hnext.symm.trans hnext'))
  rcases hfile with ⟨bytes, hat⟩ | hend
  · rcases next_at hat with rfl | ⟨flags, event, rest, rfl, hvalid⟩ | ⟨e, r', hnext, _, hinfo, hstate⟩
    · obtain ⟨r', hnext, hend', hinfo⟩ := next_nil hat
      exact ⟨_, r', hnext, Or.inr hend', Or.inr ⟨by simp, hinfo, hother hnext (by simp)⟩⟩
    · obtain ⟨r', hnext, hat', hinfo⟩ := next_record hat hvalid
      refine ⟨_, r', hnext, Or.inl ⟨rest, hat'⟩, Or.inl ⟨event, rfl, hinfo, fun hmeets => ?_,
        fun htime => ⟨hat.good, flags, event, rest, hat.rest, hvalid, htime⟩⟩⟩
      obtain ⟨event', r'', hnext', htime⟩ := hmeets.next (Or.inl ⟨_, hat⟩)
      have hsame : event = event' := by
        simpa using congrArg Prod.fst (hnext.symm.trans hnext')
      rwa [hsame]
    · refine ⟨_, r', hnext, ?_, Or.inr ⟨by simp, hinfo, hother hnext (by simp)⟩⟩
      exact hstate.elim Or.inr fun ⟨rest, hat', _⟩ => Or.inl ⟨rest, hat'⟩
  · obtain ⟨r', hnext, hend', hinfo⟩ := next_atEnd hend
    exact ⟨_, r', hnext, Or.inr hend', Or.inr ⟨by simp, hinfo, hother hnext (by simp)⟩⟩

end BinaryLogReader

/-! ## Sessions -/

/-- A reader with the events it has returned. -/
structure ReadSession where
  reader : BinaryLogReader
  returned : List Event := []

namespace ReadSession

/-- One call of `next`, by a caller that catches what it throws. -/
def next (s : ReadSession) : ReadSession :=
  match s.reader.next with
  | (.ok (some event), r) => { reader := r, returned := s.returned ++ [event] }
  | (_, r) => { s with reader := r }

/-- The session after some calls of `next`. -/
def after (s : ReadSession) (calls : ℕ) : ReadSession := ReadSession.next^[calls] s

/-- The events returned are those among the results of the calls. -/
theorem returned_after (r : BinaryLogReader) (returned : List Event) (calls : ℕ) :
    (after ⟨r, returned⟩ calls).returned =
      returned ++ (r.results calls).filterMap (fun result => result.toOption.join) := by
  induction calls generalizing r returned with
  | zero => simp [after, BinaryLogReader.results]
  | succ calls ih =>
    rw [after, Function.iterate_succ_apply, ← after]
    rcases hnext : r.next with ⟨e | _ | event, r'⟩
    · simp [next, hnext, ih, BinaryLogReader.results, Except.toOption]
    · simp [next, hnext, ih, BinaryLogReader.results, Except.toOption]
    · simp [next, hnext, ih, BinaryLogReader.results, Except.toOption]

/-- Events have been returned, all with timestamp zero, and the stream stands before a record with
another one. -/
def Overwrites (s : ReadSession) : Prop :=
  s.returned ≠ [] ∧ (∀ event ∈ s.returned, event.timestampNs = 0) ∧ s.reader.MeetsTimestamp

/-- What holds between any two calls. -/
private structure Tracks (s : ReadSession) (info : FileInfo) : Prop where
  inFile : s.reader.InFile
  version : s.reader.info.version = info.version
  created : s.reader.info.createdUnixNs = info.createdUnixNs
  last : s.reader.info.lastTimestampNs = (s.returned.getLast?.map Event.timestampNs).getD 0
  /-- The first timestamp counts as not set as long as all timestamps are zero. -/
  unset : s.reader.info.firstTimestampNs = 0 ↔ ∀ event ∈ s.returned, event.timestampNs = 0

/-- The first timestamp is that of the first event returned. -/
private def FirstRight (s : ReadSession) : Prop :=
  s.reader.info.firstTimestampNs = (s.returned.head?.map Event.timestampNs).getD 0

variable {s : ReadSession} {info : FileInfo}

/-- A call that returns no event changes neither the information nor the events. -/
private theorem Tracks.keep {r' : BinaryLogReader} (htracks : s.Tracks info) (hfile : r'.InFile)
    (hinfo : r'.info = s.reader.info) : ({ s with reader := r' } : ReadSession).Tracks info := by
  refine ⟨hfile, ?_, ?_, ?_, ?_⟩
  · rw [hinfo]
    exact htracks.version
  · rw [hinfo]
    exact htracks.created
  · rw [hinfo]
    exact htracks.last
  · rw [hinfo]
    exact htracks.unset

/-- A call that returns an event notes its timestamp as the last one, and as the first one if that
counts as not set. -/
private theorem Tracks.note {r' : BinaryLogReader} {event : Event} (htracks : s.Tracks info)
    (hfile : r'.InFile)
    (hinfo : r'.info = BinaryLogReader.noteTimestamp s.reader.info event.timestampNs) :
    (⟨r', s.returned ++ [event]⟩ : ReadSession).Tracks info := by
  refine ⟨hfile, ?_, ?_, ?_, ?_⟩
  · rw [hinfo]
    exact htracks.version
  · rw [hinfo]
    exact htracks.created
  · simp [hinfo, BinaryLogReader.noteTimestamp]
  · simp only [hinfo, BinaryLogReader.noteTimestamp, List.forall_mem_append,
      List.forall_mem_singleton, ← htracks.unset]
    by_cases hfirst : s.reader.info.firstTimestampNs = 0
    · simp [hfirst]
    · simp [hfirst]

/-- One call keeps track, and the first timestamp stays right exactly if the call does not overwrite
it. -/
private theorem Tracks.next (htracks : s.Tracks info) :
    s.next.Tracks info ∧ (s.next.FirstRight ↔ s.FirstRight ∧ ¬ s.Overwrites) := by
  obtain ⟨result, r', hnext, hfile, ⟨event, rfl, hinfo, hmeets⟩ | ⟨hnone, hinfo, hmeets⟩⟩ :=
    htracks.inFile.next
  · have hs : s.next = ⟨r', s.returned ++ [event]⟩ := by
      simp [ReadSession.next, hnext]
    rw [hs]
    refine ⟨htracks.note hfile hinfo, ?_⟩
    simp only [FirstRight, Overwrites, hmeets, hinfo, BinaryLogReader.noteTimestamp,
      ← htracks.unset]
    have hunset := htracks.unset
    cases hreturned : s.returned with
    | nil =>
      have hfirst : s.reader.info.firstTimestampNs = 0 := hunset.mpr (by simp [hreturned])
      simp [hfirst]
    | cons first others =>
      by_cases hfirst : s.reader.info.firstTimestampNs = 0
      · -- The first event has timestamp zero, and the new one is taken for it.
        have hzero : first.timestampNs = 0 := hunset.mp hfirst first (by simp [hreturned])
        simp [hfirst, hzero]
      · simp [hfirst]
  · have hs : s.next = { s with reader := r' } := by
      rcases result with e | _ | event
      · simp [ReadSession.next, hnext]
      · simp [ReadSession.next, hnext]
      · exact absurd rfl (hnone event)
    rw [hs]
    refine ⟨htracks.keep hfile hinfo, ?_⟩
    simp [FirstRight, Overwrites, hmeets, hinfo]

/-- **What `info()` says.** For every file that a reader opens, whatever its records and timestamps
are, and after any number of calls of `next`: the version and the creation time are those of the
header, and the timestamps are those of the first and of the last event returned, if and only if no
call has found a record with a timestamp other than zero behind events that were all returned with
timestamp zero. -/
theorem describes_iff {path : String} {file : List UInt8} {r : BinaryLogReader}
    (hnew : BinaryLogReader.new path (IFStream.ofBytes file) = .ok r) (calls : ℕ) :
    let s := after ⟨r, []⟩ calls
    (s.reader.info.Describes s.returned ∧ s.reader.info.version = r.info.version ∧
      s.reader.info.createdUnixNs = r.info.createdUnixNs) ↔
    ∀ i < calls, ¬ (after ⟨r, []⟩ i).Overwrites := by
  obtain ⟨flags, created, reserved, rest, rfl, hat⟩ := BinaryLogReader.at_of_new hnew
  have hinfo : r.info = { version := kFileFormatVersion, createdUnixNs := created } := by
    obtain ⟨r', hnew', _, hinfo⟩ := BinaryLogReader.new_fileHeader path flags created reserved rest
    rw [hnew'] at hnew
    exact Except.ok.inj hnew ▸ hinfo
  have hstart : (⟨r, []⟩ : ReadSession).Tracks r.info :=
    ⟨Or.inl ⟨rest, hat⟩, rfl, rfl, by simp [hinfo], by simp [hinfo]⟩
  have hrun : (after ⟨r, []⟩ calls).Tracks r.info ∧
      ((after ⟨r, []⟩ calls).FirstRight ↔ ∀ i < calls, ¬ (after ⟨r, []⟩ i).Overwrites) := by
    induction calls with
    | zero => exact ⟨hstart, by simp [after, FirstRight, hinfo]⟩
    | succ calls ih =>
      obtain ⟨htracks, hfirst⟩ := ih
      obtain ⟨htracks', hfirst'⟩ := htracks.next
      have hsucc : after ⟨r, []⟩ (calls + 1) = (after ⟨r, []⟩ calls).next :=
        Function.iterate_succ_apply' _ _ _
      rw [hsucc]
      refine ⟨htracks', ?_⟩
      rw [hfirst', hfirst, Nat.forall_lt_succ_right]
  obtain ⟨htracks, hfirst⟩ := hrun
  rw [← hfirst]
  exact ⟨fun h => h.1.first, fun h => ⟨⟨h, htracks.last⟩, htracks.version, htracks.created⟩⟩

/-- A log of two events with timestamps 0 and 5. -/
def zeroFirst : List UInt8 :=
  fileHeader 0 0 0 ++ (recordBytes 0 {} ++ recordBytes 0 { timestampNs := 5 })

/-- After two calls the first timestamp is that of the second event. -/
theorem first_overwritten : ∃ r,
    BinaryLogReader.new "log" (IFStream.ofBytes zeroFirst) = .ok r ∧
    (after ⟨r, []⟩ 2).returned = [{}, { timestampNs := 5 }] ∧
    (after ⟨r, []⟩ 2).reader.info.firstTimestampNs = 5 ∧
    ¬ (after ⟨r, []⟩ 2).reader.info.Describes (after ⟨r, []⟩ 2).returned := by
  obtain ⟨r, hnew, hat, hinfo⟩ := BinaryLogReader.new_fileHeader "log" 0 0 0
    (recordBytes 0 {} ++ recordBytes 0 { timestampNs := 5 })
  have hvalid (time : UInt64) : Event.Valid { timestampNs := time } :=
    ⟨show ({} : Event).severity.IsEnumerator by decide, Nat.zero_le _⟩
  obtain ⟨r₁, hnext₁, hat₁, hinfo₁⟩ := BinaryLogReader.next_record hat (hvalid 0)
  rw [← List.append_nil (recordBytes 0 _)] at hat₁
  obtain ⟨r₂, hnext₂, _, hinfo₂⟩ := BinaryLogReader.next_record hat₁ (hvalid 5)
  have hsession : after ⟨r, []⟩ 2 = ⟨r₂, [{}, { timestampNs := 5 }]⟩ := by
    simp [after, next, hnext₁, hnext₂]
  have hfirst : r₂.info.firstTimestampNs = 5 := by
    simp [hinfo₂, hinfo₁, hinfo, BinaryLogReader.noteTimestamp]
  refine ⟨r, hnew, ?_, ?_, ?_⟩
  · rw [hsession]
  · rw [hsession]
    exact hfirst
  · rw [hsession]
    intro hdescribes
    have hzero : (5 : UInt64) = 0 := hfirst.symm.trans hdescribes.first
    exact absurd hzero (by decide)

/-- After the first of the two calls the information is right. -/
theorem describes_iff_first : ∃ r,
    BinaryLogReader.new "log" (IFStream.ofBytes zeroFirst) = .ok r ∧
    (after ⟨r, []⟩ 1).reader.info.Describes (after ⟨r, []⟩ 1).returned := by
  obtain ⟨r, hnew, _⟩ := BinaryLogReader.new_fileHeader "log" 0 0 0
    (recordBytes 0 {} ++ recordBytes 0 { timestampNs := 5 })
  refine ⟨r, hnew, ((describes_iff hnew 1).mpr fun i hi hoverwrites => ?_).1⟩
  obtain rfl : i = 0 := by omega
  exact hoverwrites.1 rfl

end ReadSession

end Hpblr
