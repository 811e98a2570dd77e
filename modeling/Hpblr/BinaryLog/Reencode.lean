import Hpblr.BinaryLog.RoundTrip

/-!
# Encoding what was decoded

A log that is read to a clean end and whose events are then written again, with the same creation
time. The reader ignores the flags and the reserved field of the file header and the flags of each
record, and the writer writes zeros there. Up to these fields, and the checksums of the headers
they stand in, the format has one encoding of each list of events.
-/

namespace Hpblr

open LittleEndian

/-! ## The fields that the reader ignores -/

/-- Where a header of a log has fields that the reader ignores, as offsets and widths, and where it
has its checksum. -/
structure HeaderFields where
  ignored : List (ℕ × ℕ)
  crc : ℕ

/-- The flags and the reserved field of the file header. -/
def fileHeaderFields : HeaderFields where
  ignored := [(14, 2), (24, 8)]
  crc := kFileHeaderCrcOffset

/-- The flags of a record that begins at the offset. -/
def recordHeaderFields (offset : ℕ) : HeaderFields where
  ignored := [(offset + 44, 4)]
  crc := offset + kRecordHeaderCrcOffset

/-- The headers of the records that begin at the offset, one after the other. -/
def recordFields (offset : ℕ) : List Event → List HeaderFields
  | [] => []
  | event :: events =>
    recordHeaderFields offset :: recordFields (offset + 48 + event.payload.length) events

/-- The headers of a log of the events. -/
def headerFields (events : List Event) : List HeaderFields :=
  fileHeaderFields :: recordFields kFileHeaderSize.toNat events

namespace HeaderFields

/-- The ignored fields of the header are zero. -/
def Blank (h : HeaderFields) (file : List UInt8) : Prop :=
  ∀ field ∈ h.ignored, (file.drop field.1).take field.2 = List.replicate field.2 0

/-- The byte stands in an ignored field, or in the checksum of a header that is not blank. -/
def Leaves (h : HeaderFields) (file : List UInt8) (i : ℕ) : Prop :=
  (∃ field ∈ h.ignored, field.1 ≤ i ∧ i < field.1 + field.2) ∨
    (¬ h.Blank file ∧ h.crc ≤ i ∧ i < h.crc + 4)

end HeaderFields

/-! ## Byte strings field by field -/

/-- Where two byte strings differ whose front parts have the same length. -/
private theorem getElem?_append_ne {α : Type*} {front front' back back' : List α}
    (hlen : front.length = front'.length) {i : ℕ}
    (hne : (front ++ back)[i]? ≠ (front' ++ back')[i]?) :
    (i < front.length ∧ front[i]? ≠ front'[i]?) ∨
      (front.length ≤ i ∧ back[i - front.length]? ≠ back'[i - front.length]?) := by
  rcases Nat.lt_or_ge i front.length with hfront | hback
  · rw [List.getElem?_append_left hfront, List.getElem?_append_left (hlen ▸ hfront)] at hne
    exact Or.inl ⟨hfront, hne⟩
  · rw [List.getElem?_append_right hback, List.getElem?_append_right (hlen ▸ hback), ← hlen] at hne
    exact Or.inr ⟨hback, hne⟩

/-- Reading a field where it stands. -/
private theorem field_eq {α : Type*} {front field back : List α} {offset width : ℕ}
    (hoffset : front.length = offset) (hwidth : field.length = width) :
    ((front ++ (field ++ back)).drop offset).take width = field := by
  subst hoffset hwidth
  rw [List.drop_left, List.take_left]

/-! ## The file header -/

/-- The flags and the reserved field in a file header. -/
private theorem fileHeader_split (created : UInt64) :
    ∃ front back : List UInt8, front.length = 14 ∧ back.length = 8 ∧
      ∀ flags reserved, fileHeader flags created reserved = front ++ (bytes 2 flags.toNat ++
        (back ++ (bytes 8 reserved.toNat ++
          bytes 4 (crc32 (fileHeaderBody flags created reserved)).toNat))) := by
  refine ⟨kFileMagic ++ (bytes 2 kFileFormatVersion.toNat ++ (bytes 2 kFileHeaderSize.toNat ++
    bytes 2 kEndianMarker.toNat)), bytes 8 created.toNat, by simp, by simp, fun flags reserved => ?_⟩
  simp only [fileHeader, fileHeaderBody, List.append_assoc]

/-- The file header is blank exactly if its flags and its reserved field are zero. -/
private theorem fileHeader_blank (flags : UInt16) (created reserved : UInt64)
    (rest : List UInt8) :
    fileHeaderFields.Blank (fileHeader flags created reserved ++ rest) ↔
      flags = 0 ∧ reserved = 0 := by
  obtain ⟨front, back, hfront, hback, hsplit⟩ := fileHeader_split created
  have hflags : ((fileHeader flags created reserved ++ rest).drop 14).take 2 =
      bytes 2 flags.toNat := by
    rw [hsplit, List.append_assoc, List.append_assoc]
    exact field_eq hfront (by simp)
  have hreserved : ((fileHeader flags created reserved ++ rest).drop 24).take 8 =
      bytes 8 reserved.toNat := by
    have hassoc : fileHeader flags created reserved ++ rest =
        (front ++ (bytes 2 flags.toNat ++ back)) ++ (bytes 8 reserved.toNat ++
          (bytes 4 (crc32 (fileHeaderBody flags created reserved)).toNat ++ rest)) := by
      rw [hsplit]
      simp only [List.append_assoc]
    rw [hassoc]
    exact field_eq (by simp [hfront, hback]) (by simp)
  have hflagsZero : bytes 2 flags.toNat = List.replicate 2 0 ↔ flags = 0 := by
    rw [bytes_eq_replicate flags.toNat_lt, ← UInt16.toNat_inj]
    rfl
  have hreservedZero : bytes 8 reserved.toNat = List.replicate 8 0 ↔ reserved = 0 := by
    rw [bytes_eq_replicate reserved.toNat_lt, ← UInt64.toNat_inj]
    rfl
  simp only [HeaderFields.Blank, fileHeaderFields, List.forall_mem_cons, hflags, hreserved,
    hflagsZero, hreservedZero, List.not_mem_nil, false_implies, implies_true, and_true]

/-- A file header that is written again differs in what the layout leaves open only. -/
private theorem fileHeader_leaves (flags : UInt16) (created reserved : UInt64) (rest : List UInt8)
    {i : ℕ} (hne : (fileHeader 0 created 0)[i]? ≠ (fileHeader flags created reserved)[i]?) :
    fileHeaderFields.Leaves (fileHeader flags created reserved ++ rest) i := by
  have hnotBlank : ¬ fileHeaderFields.Blank (fileHeader flags created reserved ++ rest) := by
    rw [fileHeader_blank]
    rintro ⟨rfl, rfl⟩
    exact hne rfl
  obtain ⟨front, back, hfront, hback, hsplit⟩ := fileHeader_split created
  rw [hsplit, hsplit] at hne
  rcases getElem?_append_ne rfl hne with ⟨_, hdiffer⟩ | ⟨h₁, hne⟩
  · exact absurd rfl hdiffer
  rcases getElem?_append_ne (by simp) hne with ⟨h₂, _⟩ | ⟨h₂, hne⟩
  · rw [length_bytes] at h₂
    exact Or.inl ⟨(14, 2), by simp [fileHeaderFields], by omega, by omega⟩
  rcases getElem?_append_ne rfl hne with ⟨_, hdiffer⟩ | ⟨h₃, hne⟩
  · exact absurd rfl hdiffer
  rw [length_bytes] at h₂ h₃ hne
  rcases getElem?_append_ne (by simp) hne with ⟨h₄, _⟩ | ⟨h₄, hne⟩
  · rw [length_bytes] at h₄
    exact Or.inl ⟨(24, 8), by simp [fileHeaderFields], by omega, by omega⟩
  · have hlast : i - front.length - 2 - back.length - 8 < 4 := by
      by_contra hbeyond
      rw [length_bytes, List.getElem?_eq_none (by simpa using hbeyond),
        List.getElem?_eq_none (by simpa using hbeyond)] at hne
      exact hne rfl
    rw [length_bytes] at h₄
    refine Or.inr ⟨hnotBlank, ?_, ?_⟩ <;>
      · simp only [fileHeaderFields, kFileHeaderCrcOffset]
        omega

/-! ## The records -/

/-- The flags in a record. -/
private theorem recordBytes_split (event : Event) :
    ∃ front back : List UInt8, front.length = 36 ∧ back.length = 4 ∧
      ∀ flags, recordBytes flags event = front ++ (bytes 4 (recordHeader flags event).headerCrc.toNat ++
        (back ++ (bytes 4 flags.toNat ++ event.payload))) := by
  refine ⟨(blankHeader 0 event).front, bytes 4 (crc32 event.payload).toNat, by simp, by simp,
    fun flags => ?_⟩
  simp only [recordBytes, RecordHeader.toBytes, RecordHeader.back, List.append_assoc]
  rfl

/-- The header of a record is blank exactly if its flags are zero. -/
private theorem record_blank {before : List UInt8} {offset : ℕ} (hoffset : before.length = offset)
    (flags : UInt32) (event : Event) (rest : List UInt8) :
    (recordHeaderFields offset).Blank (before ++ (recordBytes flags event ++ rest)) ↔
      flags = 0 := by
  obtain ⟨front, back, hfront, hback, hsplit⟩ := recordBytes_split event
  have hflags : ((before ++ (recordBytes flags event ++ rest)).drop (offset + 44)).take 4 =
      bytes 4 flags.toNat := by
    have hassoc : before ++ (recordBytes flags event ++ rest) =
        (before ++ (front ++ (bytes 4 (recordHeader flags event).headerCrc.toNat ++ back))) ++
          (bytes 4 flags.toNat ++ (event.payload ++ rest)) := by
      rw [hsplit]
      simp only [List.append_assoc]
    rw [hassoc]
    exact field_eq (by simp [hfront, hback, hoffset]) (by simp)
  have hzero : bytes 4 flags.toNat = List.replicate 4 0 ↔ flags = 0 := by
    rw [bytes_eq_replicate flags.toNat_lt, ← UInt32.toNat_inj]
    rfl
  simp only [HeaderFields.Blank, recordHeaderFields, List.forall_mem_cons, hflags, hzero,
    List.not_mem_nil, false_implies, implies_true, and_true]

/-- A record that is written again differs in what the layout leaves open only. -/
private theorem record_leaves {before : List UInt8} {offset : ℕ} (hoffset : before.length = offset)
    (flags : UInt32) (event : Event) (rest : List UInt8) {i : ℕ}
    (hne : (recordBytes 0 event)[i]? ≠ (recordBytes flags event)[i]?) :
    (recordHeaderFields offset).Leaves (before ++ (recordBytes flags event ++ rest))
      (offset + i) := by
  have hnotBlank : ¬ (recordHeaderFields offset).Blank
      (before ++ (recordBytes flags event ++ rest)) := by
    rw [record_blank hoffset]
    rintro rfl
    exact hne rfl
  obtain ⟨front, back, hfront, hback, hsplit⟩ := recordBytes_split event
  rw [hsplit, hsplit] at hne
  rcases getElem?_append_ne rfl hne with ⟨_, hdiffer⟩ | ⟨h₁, hne⟩
  · exact absurd rfl hdiffer
  rcases getElem?_append_ne (by simp) hne with ⟨h₂, _⟩ | ⟨h₂, hne⟩
  · rw [length_bytes] at h₂
    refine Or.inr ⟨hnotBlank, ?_, ?_⟩ <;>
      · simp only [recordHeaderFields, kRecordHeaderCrcOffset]
        omega
  rcases getElem?_append_ne rfl hne with ⟨_, hdiffer⟩ | ⟨h₃, hne⟩
  · exact absurd rfl hdiffer
  rw [length_bytes] at h₂ h₃ hne
  rcases getElem?_append_ne (by simp) hne with ⟨h₄, _⟩ | ⟨_, hne⟩
  · rw [length_bytes] at h₄
    exact Or.inl ⟨(offset + 44, 4), by simp [recordHeaderFields], by omega, by omega⟩
  · exact absurd rfl hne

/-- What becomes of the records of a log when their events are written again. -/
private structure Reencodes (encoded before records : List UInt8) (layout : List HeaderFields) :
    Prop where
  length : encoded.length = records.length
  eq_iff : encoded = records ↔ ∀ h ∈ layout, h.Blank (before ++ records)
  leaves : ∀ i, encoded[i]? ≠ records[i]? →
    ∃ h ∈ layout, h.Leaves (before ++ records) (before.length + i)

private theorem records_reencode {records : List UInt8} {events : List Event}
    (hrecords : IsRecords records events) (before : List UInt8) :
    Reencodes (encodeRecords events) before records (recordFields before.length events) := by
  induction hrecords generalizing before with
  | nil => exact ⟨rfl, by simp [recordFields], fun i hne => absurd rfl hne⟩
  | @cons flags event rest events hvalid hrest ih =>
    have hsplit : encodeRecords (event :: events) =
        recordBytes 0 event ++ encodeRecords events := rfl
    have hlength : (recordBytes 0 event).length = (recordBytes flags event).length := by simp
    have hbehind := ih (before ++ recordBytes flags event)
    have hoffset : (before ++ recordBytes flags event).length =
        before.length + 48 + event.payload.length := by
      simp only [List.length_append, length_recordBytes]
      omega
    rw [hoffset] at hbehind
    have hhead := record_blank (rfl : before.length = _) flags event rest
    refine ⟨?_, ?_, fun i hne => ?_⟩
    · rw [hsplit, List.length_append, List.length_append, hlength, hbehind.length]
    · have hfirst : recordBytes 0 event = recordBytes flags event ↔ flags = 0 := by
        rw [← hhead]
        constructor
        · intro hsame
          rw [← hsame]
          exact (record_blank rfl 0 event rest).mpr rfl
        · intro hblank
          rw [hhead.mp hblank]
      rw [hsplit, List.append_eq_append_iff_of_size_eq_left hlength, hfirst, hbehind.eq_iff, recordFields,
        List.forall_mem_cons, hhead, List.append_assoc]
    · rw [hsplit] at hne
      rcases getElem?_append_ne hlength hne with ⟨_, hne'⟩ | ⟨hle, hne'⟩
      · exact ⟨_, List.mem_cons_self, record_leaves rfl flags event rest hne'⟩
      · obtain ⟨h, hmem, hleaves⟩ := hbehind.leaves _ hne'
        rw [List.append_assoc] at hleaves
        refine ⟨h, List.mem_cons_of_mem _ hmem, ?_⟩
        have hi : (before ++ recordBytes flags event).length + (i - (recordBytes 0 event).length) =
            before.length + i := by
          simp only [List.length_append, length_recordBytes] at hle ⊢
          omega
        rwa [hi] at hleaves

/-! ## The whole log -/

/-- The events of a run of appends that fit are all of them. -/
private theorem passedEvents_map_append {events : List Event}
    (hvalid : ∀ event ∈ events, event.Valid) :
    passedEvents (events.map WriterCall.append) = events := by
  induction events with
  | nil => rfl
  | cons event events ih =>
    have hsmall := (hvalid event List.mem_cons_self).payload
    rw [List.map_cons, passedEvents, if_neg hsmall.not_gt,
      ih fun event' hmem => hvalid event' (List.mem_cons_of_mem event hmem)]

/-- **Encoding undoes decoding.** Take any byte string that a reader reads to a clean end, and let
a writer with the creation time that the reader reports append the events that it returned, and
close. The file of the writer is that byte string if and only if the flags and the reserved field
of the file header and the flags of all records are zero in it. In any case the two have the same
length, and they differ in these fields and in the checksums of headers with such a field only. -/
theorem BinaryLogWriter.reencode {path path' : String} {file : List UInt8} {r : BinaryLogReader}
    {calls : ℕ} {events : List Event} {options : WriterOptions} {device : Device}
    {w w' : BinaryLogWriter}
    (hread : BinaryLogReader.new path (IFStream.ofBytes file) = .ok r)
    (hreplay : r.replay calls = (events, .endOfLog))
    (hnew : new path' options device r.info.createdUnixNs = .ok w)
    (hclose : (w.run (events.map WriterCall.append)).2.close = (.ok (), w')) :
    (w'.out.content = file ↔ ∀ h ∈ headerFields events, h.Blank file) ∧
    w'.out.content.length = file.length ∧
    ∀ i, w'.out.content[i]? ≠ file[i]? → ∃ h ∈ headerFields events, h.Leaves file i := by
  obtain ⟨flags, created, reserved, records, rfl, hat⟩ := BinaryLogReader.at_of_new hread
  have hrecords := BinaryLogReader.isRecords_of_replay hat hreplay
  have hcreated : r.info.createdUnixNs = created := by
    obtain ⟨r', hread', _, hinfo⟩ :=
      BinaryLogReader.new_fileHeader path flags created reserved records
    rw [hread'] at hread
    rw [← Except.ok.inj hread, hinfo]
  have hcontent := (content_of_close hnew hclose).1
  rw [hcreated, passedEvents_map_append hrecords.valid] at hcontent
  have hbehind := records_reencode hrecords (fileHeader flags created reserved)
  have hhead := fileHeader_blank flags created reserved records
  have hlength : (fileHeader 0 created 0).length = (fileHeader flags created reserved).length := by
    simp
  rw [hcontent]
  refine ⟨?_, ?_, fun i hne => ?_⟩
  · have hfirst : fileHeader 0 created 0 = fileHeader flags created reserved ↔
        flags = 0 ∧ reserved = 0 := by
      rw [← hhead]
      constructor
      · intro hsame
        rw [← hsame]
        exact (fileHeader_blank 0 created 0 records).mpr ⟨rfl, rfl⟩
      · intro hblank
        obtain ⟨rfl, rfl⟩ := hhead.mp hblank
        rfl
    rw [List.append_eq_append_iff_of_size_eq_left hlength, hfirst, hbehind.eq_iff, headerFields,
      List.forall_mem_cons, hhead, length_fileHeader, toNat_kFileHeaderSize]
  · rw [List.length_append, List.length_append, hlength, hbehind.length]
  · rcases getElem?_append_ne hlength hne with ⟨_, hne'⟩ | ⟨hle, hne'⟩
    · exact ⟨_, List.mem_cons_self, fileHeader_leaves flags created reserved records hne'⟩
    · obtain ⟨h, hmem, hleaves⟩ := hbehind.leaves _ hne'
      rw [length_fileHeader] at hmem hle hleaves
      rw [length_fileHeader, Nat.add_sub_of_le hle] at hleaves
      exact ⟨h, List.mem_cons_of_mem _ hmem, hleaves⟩

/-- A log of one event in which both flags fields are set. -/
def flaggedLog : List UInt8 := fileHeader 1 0 0 ++ recordBytes 2 {}

/-- It is read to a clean end, and writing its event again gives another file of the same length. -/
theorem BinaryLogWriter.reencode_flagged : ∃ r w w',
    BinaryLogReader.new "log" (IFStream.ofBytes flaggedLog) = .ok r ∧
    r.replay 2 = ([{}], .endOfLog) ∧
    new "copy" {} .reliable r.info.createdUnixNs = .ok w ∧
    (w.run [.append {}]).2.close = (.ok (), w') ∧
    w'.out.content ≠ flaggedLog ∧ w'.out.content.length = flaggedLog.length := by
  have hvalid : Event.Valid {} := ⟨by decide, Nat.zero_le _⟩
  obtain ⟨r, hread, hat, _⟩ := BinaryLogReader.new_fileHeader "log" 1 0 0 (recordBytes 2 {})
  have hreplay : r.replay 2 = ([{}], .endOfLog) := by
    rw [← List.append_nil (recordBytes 2 {})] at hat
    obtain ⟨r₁, hnext₁, hat₁, _⟩ := BinaryLogReader.next_record hat hvalid
    obtain ⟨r₂, hnext₂, _⟩ := BinaryLogReader.next_nil hat₁
    rw [BinaryLogReader.replay_some hnext₁, BinaryLogReader.replay_none hnext₂]
  have hdevice := Device.reliable_healthy
  obtain ⟨w, hnew, hhealthy⟩ := new_default "copy" r.info.createdUnixNs hdevice
  obtain ⟨w', hclose, _⟩ := close_healthy (run_healthy hhealthy [.append {}])
  obtain ⟨hsame, hlength, _⟩ := reencode hread hreplay hnew hclose
  refine ⟨r, w, w', hread, hreplay, hnew, hclose, fun heq => ?_, hlength⟩
  have hblank := (fileHeader_blank 1 0 0 (recordBytes 2 {})).mp
    (hsame.mp heq fileHeaderFields List.mem_cons_self)
  exact absurd hblank.1 (by decide)

end Hpblr
