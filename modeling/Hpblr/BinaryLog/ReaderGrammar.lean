import Hpblr.BinaryLog.Reader

/-!
# The reader accepts the documented grammar

The checks of the reader are compared with the grammar of `Format`, first for one file header and
one record, then for the whole file by induction on the replay loop. A single call of `next` on a
stream that has not failed has one of three outcomes, stated once in `next_at`; everything that
follows about replay is derived from it.
-/

namespace Hpblr

open LittleEndian

/-! ## The file header -/

private theorem fileHeaderBody_drop (flags : UInt16) (created reserved : UInt64)
    (tail : List UInt8) :
    let file := fileHeaderBody flags created reserved ++ tail
    file.take 8 = kFileMagic ∧ readU16 (file.drop 8) = kFileFormatVersion ∧
      readU16 (file.drop 10) = kFileHeaderSize ∧ readU16 (file.drop 12) = kEndianMarker ∧
      readU64 (file.drop 16) = created ∧ file.drop 32 = tail := by
  refine ⟨?_, ?_, ?_, ?_, ?_, ?_⟩
  · simp [fileHeaderBody]
  all_goals
    simp (disch := simp) only [fileHeaderBody, List.append_assoc, drop_append_ge, length_bytes,
      length_kFileMagic, List.drop_zero, readU16_bytes, readU64_bytes, Nat.reduceSub]

/-- The reader accepts the file headers of the format, and takes their creation time. -/
theorem checkFileHeader_fileHeader (flags : UInt16) (created reserved : UInt64) :
    checkFileHeader (fileHeader flags created reserved) =
      .ok { version := kFileFormatVersion, createdUnixNs := created } := by
  obtain ⟨hmagic, hversion, hsize, hendian, hcreated, htail⟩ :=
    fileHeaderBody_drop flags created reserved
      (bytes 4 (crc32 (fileHeaderBody flags created reserved)).toNat)
  have hbody : (fileHeader flags created reserved).take 32 =
      fileHeaderBody flags created reserved := by
    rw [fileHeader, List.take_append_of_le_length (by simp)]
    exact List.take_of_length_le (by simp)
  have hcrc : readU32 ((fileHeader flags created reserved).drop 32) =
      crc32 (fileHeaderBody flags created reserved) := by
    rw [fileHeader, htail]
    simpa using readU32_bytes (crc32 (fileHeaderBody flags created reserved)) []
  unfold checkFileHeader
  simp only [kFileHeaderCrcOffset, length_kFileMagic, hbody, hcrc]
  simp only [fileHeader, hmagic, hversion, hsize, hendian, hcreated, ne_eq, not_true_eq_false,
    if_false]

/-- Every header of the right length that the reader accepts is a file header of the format. -/
theorem exists_of_checkFileHeader {header : List UInt8} {info : FileInfo}
    (hlen : header.length = 36) (h : checkFileHeader header = .ok info) :
    ∃ flags created reserved, header = fileHeader flags created reserved := by
  obtain ⟨body, crc, rfl, hbody, hcrc⟩ := exists_append (m := 32) (n := 4) hlen
  have htake : (body ++ crc).take 32 = body := List.take_left' hbody
  obtain ⟨magic, h₁, rfl, hmagic, hbody⟩ := exists_append (m := 8) (n := 24) hbody
  obtain ⟨version, h₂, rfl, hversion, hbody⟩ := exists_append (m := 2) (n := 22) hbody
  obtain ⟨size, h₃, rfl, hsize, hbody⟩ := exists_append (m := 2) (n := 20) hbody
  obtain ⟨endian, h₄, rfl, hendian, hbody⟩ := exists_append (m := 2) (n := 18) hbody
  obtain ⟨flags, h₅, rfl, hflags, hbody⟩ := exists_append (m := 2) (n := 16) hbody
  obtain ⟨created, reserved, rfl, hcreated, hreserved⟩ := exists_append (m := 8) (n := 8) hbody
  have hmagic' : ((magic ++ (version ++ (size ++ (endian ++ (flags ++ (created ++ reserved)))))) ++
      crc).take 8 = magic := by
    rw [List.append_assoc]
    exact List.take_left' hmagic
  unfold checkFileHeader at h
  simp only [kFileHeaderCrcOffset, length_kFileMagic, htake, hmagic'] at h
  simp only [List.append_assoc, drop_append_ge, hmagic, hversion, hsize, hendian, hflags, hcreated,
    hreserved, List.drop_zero, Nat.reduceSub, Nat.reduceLeDiff] at h
  split_ifs at h with hm hv hs he hc
  simp only [ne_eq, not_not] at hm hv hs he hc
  have hcrc' : bytes 4 (readU32 crc).toNat = crc := by simpa using bytes_readU32 hcrc []
  have hreserved' : bytes 8 (readU64 reserved).toNat = reserved := by
    simpa using bytes_readU64 hreserved []
  refine ⟨readU16 (flags ++ (created ++ (reserved ++ crc))), readU64 (created ++ (reserved ++ crc)),
    readU64 reserved, ?_⟩
  simp only [fileHeader, fileHeaderBody]
  rw [hm, ← hv, ← hs, ← he, bytes_readU16 hversion, bytes_readU16 hsize, bytes_readU16 hendian,
    bytes_readU16 hflags, bytes_readU64 hcreated, hreserved', ← hc, hcrc']

theorem checkFileHeader_error {header : List UInt8} {e : Exception}
    (h : checkFileHeader header = .error e) : e.IsFormatOrCrc := by
  unfold checkFileHeader at h
  simp only at h
  split_ifs at h <;> cases h <;> trivial

/-! ## One record -/

/-- Clearing the checksum field byte by byte. -/
private theorem clear_crc (h : RecordHeader) :
    (List.range 4).foldl (fun bytes i => bytes.set (kRecordHeaderCrcOffset + i) 0) h.toBytes =
      h.zeroCrc.toBytes := by
  have hzero (i : ℕ) : (((0 : UInt32) >>> UInt32.ofNat (8 * i)) &&& 0xFF).toUInt8 = 0 := by
    apply UInt8.toNat.inj
    simp
  have hwrite := writeU32At_eq h.front (bytes 4 h.headerCrc.toNat) h.back 0 (length_bytes ..)
  simp only [writeU32At, hzero, RecordHeader.length_front] at hwrite
  exact hwrite

/-- What the reader asks of a record header. -/
structure RecordHeader.Accepted (h : RecordHeader) : Prop where
  magic : h.magic = kRecordMagic
  headerSize : h.headerSize = kRecordHeaderSize
  version : h.version = kFileFormatVersion
  payloadSize : h.payloadSize.toNat ≤ kMaxPayloadBytes
  headerCrc : h.headerCrc = h.computedCrc

theorem checkRecordHeader_eq_ok {h h' : RecordHeader} :
    checkRecordHeader h.toBytes = .ok h' ↔ h' = h ∧ h.Accepted := by
  unfold checkRecordHeader
  simp only [RecordHeader.ofBytes_toBytes, clear_crc]
  constructor
  · intro hok
    split_ifs at hok with hm hs hv hp hc
    simp only [ne_eq, not_not, gt_iff_lt, not_lt] at hm hs hv hp hc
    exact ⟨(Except.ok.inj hok).symm, hm, hs, hv, hp, hc⟩
  · rintro ⟨rfl, hm, hs, hv, hp, hc⟩
    have hp' : ¬ h'.payloadSize.toNat > kMaxPayloadBytes := by omega
    have hc' : ¬ h'.headerCrc ≠ crc32 h'.zeroCrc.toBytes := not_not.mpr hc
    rw [if_neg (not_not.mpr hm), if_neg (not_not.mpr hs), if_neg (not_not.mpr hv), if_neg hp',
      if_neg hc']

theorem checkRecordHeader_error {header : List UInt8} {e : Exception}
    (h : checkRecordHeader header = .error e) : e.IsFormatOrCrc := by
  unfold checkRecordHeader at h
  simp only at h
  split_ifs at h <;> cases h <;> trivial

/-- The event that an accepted header and payload describe. -/
theorem checkPayload_eq_ok {h : RecordHeader} {payload : List UInt8} {event : Event} :
    checkPayload h payload = .ok event ↔
      h.payloadCrc = crc32 payload ∧ severityFromU16 h.severityRaw = some event.severity ∧
        event.timestampNs = h.timestampNs ∧ event.sequence = h.sequence ∧
        event.producerId = h.producerId ∧ event.type = h.eventType ∧ event.payload = payload := by
  unfold checkPayload
  by_cases hcrc : h.payloadCrc = crc32 payload
  · rw [if_neg (not_not.mpr hcrc)]
    cases hseverity : severityFromU16 h.severityRaw with
    | none => simp
    | some severity =>
      obtain ⟨timestampNs, sequence, producerId, type, severity', payload'⟩ := event
      simp only [Except.ok.injEq, Event.mk.injEq, Option.some.injEq, hcrc, true_and]
      constructor
      · rintro ⟨rfl, rfl, rfl, rfl, rfl, rfl⟩
        simp
      · rintro ⟨rfl, rfl, rfl, rfl, rfl, rfl⟩
        simp
  · simp [hcrc]

theorem checkPayload_error {h : RecordHeader} {payload : List UInt8} {e : Exception}
    (herror : checkPayload h payload = .error e) : e.IsFormatOrCrc := by
  unfold checkPayload at herror
  split at herror
  · cases herror
    trivial
  · split at herror <;> cases herror
    trivial

theorem toNat_payloadSize {event : Event} (h : event.payload.length ≤ kMaxPayloadBytes)
    (flags : UInt32) : (recordHeader flags event).payloadSize.toNat = event.payload.length := by
  have hlt : event.payload.length < 2 ^ 32 := by
    unfold kMaxPayloadBytes at h
    omega
  exact UInt32.toNat_ofNat_of_lt' hlt

/-- The reader accepts the record headers of the format. -/
theorem recordHeader_accepted {event : Event} (h : event.payload.length ≤ kMaxPayloadBytes)
    (flags : UInt32) : (recordHeader flags event).Accepted where
  magic := rfl
  headerSize := rfl
  version := rfl
  payloadSize := by rwa [toNat_payloadSize h]
  headerCrc := recordHeader_crc flags event

/-- An accepted header with an accepted payload of the announced length is the header of the
event that the reader builds from them, and that event is valid. -/
theorem eq_recordHeader {h : RecordHeader} {payload : List UInt8} {event : Event}
    (hheader : h.Accepted) (hlen : payload.length = h.payloadSize.toNat)
    (hpayload : checkPayload h payload = .ok event) :
    h = recordHeader h.flags event ∧ event.payload = payload ∧ event.Valid := by
  obtain ⟨hcrc, hseverity, htime, hsequence, hproducer, htype, rfl⟩ := checkPayload_eq_ok.mp hpayload
  obtain ⟨henum, hraw⟩ := severityFromU16_eq_some.mp hseverity
  have hsize : UInt32.ofNat event.payload.length = h.payloadSize := by
    rw [hlen]
    exact UInt32.ofNat_toNat
  have hblank : h.zeroCrc = blankHeader h.flags event := by
    simp only [RecordHeader.zeroCrc, blankHeader, htime, hsequence, hproducer, htype, hraw, hsize,
      ← hcrc, ← hheader.magic, ← hheader.headerSize, ← hheader.version]
  refine ⟨?_, rfl, henum, hlen ▸ hheader.payloadSize⟩
  calc h = { h.zeroCrc with headerCrc := h.headerCrc } := rfl
    _ = { h.zeroCrc with headerCrc := crc32 h.zeroCrc.toBytes } := by
      rw [hheader.headerCrc, RecordHeader.computedCrc]
    _ = recordHeader h.flags event := by rw [hblank]; rfl

/-! ## One call of `next` -/

namespace BinaryLogReader

/-- A reader whose stream has run into the end of the file. -/
def AtEnd (r : BinaryLogReader) : Prop := r.input.eofbit = true ∧ r.input.good = false

/-- At the end of the file `next` returns `std::nullopt`. -/
theorem next_nil {r : BinaryLogReader} (h : r.input.At []) :
    ∃ r', r.next = (.ok none, r') ∧ r'.AtEnd ∧ r'.info = r.info := by
  obtain ⟨buffer, input, hread, hcount, heof, hgood⟩ := h.read_short (n := 48) (by simp)
  refine ⟨{ r with input := input }, ?_, ⟨heof, hgood⟩, rfl⟩
  simp [next, hread, hcount, heof]

/-- Once the stream has run into the end of the file, `next` returns `std::nullopt`. -/
theorem next_atEnd {r : BinaryLogReader} (h : r.AtEnd) :
    ∃ r', r.next = (.ok none, r') ∧ r'.AtEnd ∧ r'.info = r.info := by
  obtain ⟨buffer, input, hread, hcount, heof, hgood⟩ := IFStream.read_of_not_good h.2 48
  refine ⟨{ r with input := input }, ?_, ⟨heof.trans h.1, hgood⟩, rfl⟩
  simp [next, hread, hcount, heof, h.1]

/-- Reading the payload that a header announces, when the bytes ahead hold it. -/
theorem readPayload_before {r : BinaryLogReader} {h : RecordHeader} {payload rest : List UInt8}
    {fault : Bool} (hat : r.input.Before (payload ++ rest) fault)
    (hlen : payload.length = h.payloadSize.toNat) :
    ∃ r', r.readPayload h = (.ok payload, r') ∧ r'.input.Before rest fault ∧ r'.info = r.info := by
  unfold readPayload
  by_cases hpos : h.payloadSize > 0
  · obtain ⟨input, hread, hat', hcount⟩ := hat.read_append
    refine ⟨{ r with input := input }, ?_, hat', rfl⟩
    rw [hlen] at hread hcount
    simp [hpos, hread, hcount]
  · have hzero : h.payloadSize.toNat = 0 := by
      rw [gt_iff_lt, UInt32.lt_iff_toNat_lt] at hpos
      simpa using hpos
    have hnil : payload = [] := List.length_eq_zero_iff.mp (hlen.trans hzero)
    subst hnil
    exact ⟨r, by rw [if_neg hpos], hat, rfl⟩

/-- Reading the payload that a header announces, when the file holds it. -/
theorem readPayload_append {r : BinaryLogReader} {h : RecordHeader} {payload rest : List UInt8}
    (hat : r.input.At (payload ++ rest)) (hlen : payload.length = h.payloadSize.toNat) :
    ∃ r', r.readPayload h = (.ok payload, r') ∧ r'.input.At rest ∧ r'.info = r.info := by
  simpa only [IFStream.before_false] using
    readPayload_before (IFStream.before_false.mpr hat) hlen

/-- Reading a payload that the file does not hold completely throws. -/
theorem readPayload_short {r : BinaryLogReader} {h : RecordHeader} {bytes : List UInt8}
    (hat : r.input.At bytes) (hlen : bytes.length < h.payloadSize.toNat) :
    ∃ message r', r.readPayload h = (.error (.fileFormatError message), r') ∧ r'.AtEnd ∧
      r'.info = r.info := by
  have hpos : h.payloadSize > 0 := by
    rw [gt_iff_lt, UInt32.lt_iff_toNat_lt]
    exact Nat.lt_of_le_of_lt (Nat.zero_le _) hlen
  obtain ⟨buffer, input, hread, hcount, heof, hgood⟩ := hat.read_short hlen
  refine ⟨"truncated HPBLR record payload near sequence " ++ toString h.sequence,
    { r with input := input }, ?_, ⟨heof, hgood⟩, rfl⟩
  simp only [readPayload, if_pos hpos, hread, hcount, ne_eq, hlen.ne, not_false_eq_true, if_true]

/-- When the bytes ahead hold a whole record header, `next` goes on with the record. -/
theorem next_header_before {r : BinaryLogReader} {h : RecordHeader} {rest : List UInt8}
    {fault : Bool} (hat : r.input.Before (h.toBytes ++ rest) fault) :
    ∃ r₁ : BinaryLogReader, r₁.input.Before rest fault ∧ r₁.info = r.info ∧
      r.next = r₁.readRecord h.toBytes := by
  obtain ⟨input, hread, hat', hcount⟩ := hat.read_append
  rw [RecordHeader.length_toBytes] at hread hcount
  exact ⟨{ r with input := input }, hat', rfl, by simp [next, hread, hcount]⟩

/-- When the file holds a whole record header, `next` goes on with the record. -/
theorem next_header {r : BinaryLogReader} {h : RecordHeader} {rest : List UInt8}
    (hat : r.input.At (h.toBytes ++ rest)) :
    ∃ r₁ : BinaryLogReader, r₁.input.At rest ∧ r₁.info = r.info ∧
      r.next = r₁.readRecord h.toBytes := by
  simpa only [IFStream.before_false] using next_header_before (IFStream.before_false.mpr hat)

/-- The reader accepts the record header of an event that the format can represent. -/
theorem checkRecordHeader_recordHeader {event : Event} (hvalid : event.Valid) (flags : UInt32) :
    checkRecordHeader (recordHeader flags event).toBytes = .ok (recordHeader flags event) :=
  checkRecordHeader_eq_ok.mpr ⟨rfl, recordHeader_accepted hvalid.payload flags⟩

/-- `next` on a record of the format returns its event, whatever comes behind the record. -/
theorem next_record_before {r : BinaryLogReader} {flags : UInt32} {event : Event}
    {rest : List UInt8} {fault : Bool}
    (hat : r.input.Before (recordBytes flags event ++ rest) fault) (hvalid : event.Valid) :
    ∃ r', r.next = (.ok (some event), r') ∧ r'.input.Before rest fault ∧
      r'.info = noteTimestamp r.info event.timestampNs := by
  rw [recordBytes, List.append_assoc] at hat
  obtain ⟨r₁, hat₁, hinfo₁, hnext⟩ := next_header_before hat
  obtain ⟨r₂, hread, hat₂, hinfo₂⟩ :=
    readPayload_before hat₁ (toNat_payloadSize hvalid.payload flags).symm
  have hpayload : checkPayload (recordHeader flags event) event.payload = .ok event :=
    checkPayload_eq_ok.mpr ⟨rfl, severityFromU16_eq_some.mpr ⟨hvalid.severity, rfl⟩,
      rfl, rfl, rfl, rfl, rfl⟩
  simp only [readRecord, checkRecordHeader_recordHeader hvalid, hread, hpayload] at hnext
  exact ⟨_, hnext, hat₂, by rw [hinfo₂, hinfo₁]; rfl⟩

/-- `next` on a record of the format returns its event. -/
theorem next_record {r : BinaryLogReader} {flags : UInt32} {event : Event} {rest : List UInt8}
    (hat : r.input.At (recordBytes flags event ++ rest)) (hvalid : event.Valid) :
    ∃ r', r.next = (.ok (some event), r') ∧ r'.input.At rest ∧
      r'.info = noteTimestamp r.info event.timestampNs := by
  simpa only [IFStream.before_false] using
    next_record_before (IFStream.before_false.mpr hat) hvalid

/-- `next` throws when the file ends inside a record header. -/
theorem next_partial {r : BinaryLogReader} {bytes : List UInt8} (hat : r.input.At bytes)
    (hpos : bytes ≠ []) (hshort : bytes.length < 48) :
    ∃ r', r.next = (.error (.fileFormatError "truncated HPBLR record header"), r') ∧ r'.AtEnd ∧
      r'.info = r.info := by
  obtain ⟨buffer, input, hread, hcount, heof, hgood⟩ := hat.read_short hshort
  have hne : ¬ bytes.length = 0 := fun h => hpos (List.length_eq_zero_iff.mp h)
  exact ⟨{ r with input := input }, by simp [next, hread, hcount, hne, hshort.ne], ⟨heof, hgood⟩, rfl⟩

/-- The bytes at which `next` returns an event: those that begin with a record. -/
def BeginsWithRecord (bytes : List UInt8) : Prop :=
  ∃ flags event rest, bytes = recordBytes flags event ++ rest ∧ event.Valid

/-- Whatever follows a complete record header, either it completes a record, or `next` throws.
After the exception the stream stands further on in the file, or has run into its end. -/
theorem readRecord_cases {r : BinaryLogReader} {h : RecordHeader} {bytes : List UInt8}
    (hat : r.input.At bytes) :
    BeginsWithRecord (h.toBytes ++ bytes) ∨
      ∃ e r', r.readRecord h.toBytes = (.error e, r') ∧ e.IsFormatOrCrc ∧ r'.info = r.info ∧
        (r'.AtEnd ∨ ∃ rest, r'.input.At rest ∧ rest.length ≤ bytes.length) := by
  cases hheader : checkRecordHeader h.toBytes with
  | error e =>
    right
    refine ⟨e, r, by simp only [readRecord, hheader], checkRecordHeader_error hheader, rfl, ?_⟩
    exact Or.inr ⟨bytes, hat, le_rfl⟩
  | ok h' =>
    obtain ⟨rfl, haccepted⟩ := checkRecordHeader_eq_ok.mp hheader
    rcases Nat.lt_or_ge bytes.length h'.payloadSize.toNat with hshort | hlong
    · obtain ⟨message, r', hread, hend, hinfo⟩ := readPayload_short hat hshort
      right
      exact ⟨.fileFormatError message, r', by simp only [readRecord, hheader, hread], trivial,
        hinfo, Or.inl hend⟩
    · obtain ⟨payload, rest, rfl, hlen, _⟩ := exists_append (l := bytes)
        (Nat.add_sub_of_le hlong).symm
      obtain ⟨r', hread, hat', hinfo⟩ := readPayload_append hat hlen
      cases hpayload : checkPayload h' payload with
      | error e =>
        right
        refine ⟨e, r', by simp only [readRecord, hheader, hread, hpayload],
          checkPayload_error hpayload, hinfo, Or.inr ⟨rest, hat', by simp⟩⟩
      | ok event =>
        left
        obtain ⟨hh, hevent, hvalid⟩ := eq_recordHeader haccepted hlen hpayload
        refine ⟨h'.flags, event, rest, ?_, hvalid⟩
        rw [recordBytes, ← hh, hevent, List.append_assoc]

/-- **One call of `next`.** On a stream that has not failed there are three cases: the file ends
here, the bytes begin with a record, or `next` throws. After an exception the stream has moved on,
or it has run into the end of the file. -/
theorem next_at {r : BinaryLogReader} {bytes : List UInt8} (hat : r.input.At bytes) :
    bytes = [] ∨ BeginsWithRecord bytes ∨
      ∃ e r', r.next = (.error e, r') ∧ e.IsFormatOrCrc ∧ r'.info = r.info ∧
        (r'.AtEnd ∨ ∃ rest, r'.input.At rest ∧ rest.length < bytes.length) := by
  rcases Nat.lt_or_ge bytes.length 48 with hshort | hlong
  · by_cases hnil : bytes = []
    · exact Or.inl hnil
    · obtain ⟨r', hnext, hend, hinfo⟩ := next_partial hat hnil hshort
      exact Or.inr (Or.inr ⟨_, r', hnext, trivial, hinfo, Or.inl hend⟩)
  · right
    obtain ⟨header, rest, rfl, hlen, _⟩ := exists_append (l := bytes)
      (Nat.add_sub_of_le hlong).symm
    rw [← RecordHeader.toBytes_ofBytes hlen] at hat ⊢
    obtain ⟨r₁, hat₁, hinfo₁, hnext⟩ := next_header hat
    rcases readRecord_cases (h := RecordHeader.ofBytes header) hat₁ with hrecord | herror
    · exact Or.inl hrecord
    · obtain ⟨e, r', hread, he, hinfo, hstate⟩ := herror
      right
      refine ⟨e, r', hnext.trans hread, he, hinfo.trans hinfo₁, hstate.imp_right ?_⟩
      rintro ⟨rest', hat', hle⟩
      exact ⟨rest', hat', by simp; omega⟩

end BinaryLogReader

end Hpblr
