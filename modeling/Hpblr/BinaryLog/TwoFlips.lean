import Hpblr.Crc32Period
import Hpblr.BinaryLog.Burst

/-!
# Scattered flips

Two flipped bits in the same header or in the same payload are detected wherever they are, and any
number of headers and payloads may be hit. The checksum of a record header stands in the middle of
the bytes it covers. With that field moved to the end, the header is a message followed by its
checksum.
-/

namespace Hpblr

open LittleEndian ShiftRegister

namespace RecordHeader

variable {h h' : RecordHeader} {tail tail' : List UInt8}

/-- Where bit `i` of a header is when the checksum field is moved to the end and leaves zeros. -/
def moved (i : ℕ) : ℕ := if 288 ≤ i ∧ i < 320 then i + 96 else i

/-- A flip with the field moved to the end is a flip of the header. -/
theorem flips_moved {i : ℕ}
    (hflip : Flips (h.zeroCrc.toBytes ++ bytes 4 h.headerCrc.toNat)
      (h'.zeroCrc.toBytes ++ bytes 4 h'.headerCrc.toNat) i) :
    ∃ j < 384, Flips (h.toBytes ++ tail) (h'.toBytes ++ tail') j ∧ i = moved j := by
  rcases flips_append (by simp) hflip with hzero | ⟨j, rfl, hfield⟩
  · rcases flips_append (by simp [zeroCrc]) hzero with hfront | ⟨j, rfl, hbehind⟩
    · have hlt := hfront.lt (by simp [zeroCrc])
      rw [length_front] at hlt
      refine ⟨i, by omega, flips_front hfront, ?_⟩
      rw [moved, if_neg (by omega)]
    · rcases flips_append (by simp) hbehind with hsame | ⟨k, rfl, hback⟩
      · exact absurd rfl hsame
      · have hlt := hback.lt (by simp)
        rw [length_back] at hlt
        refine ⟨320 + k, by omega, flips_back hback, ?_⟩
        rw [moved, if_neg (by omega), length_front, length_bytes]
        omega
  · have hlt := hfield.lt (by simp)
    rw [length_bytes] at hlt
    refine ⟨288 + j, by omega, flips_headerCrc hfield, ?_⟩
    rw [moved, if_pos (by omega), length_toBytes]
    omega

/-- Accepted headers that differ in two bits at most are equal. -/
theorem eq_of_two (haccepted : h.Accepted) (haccepted' : h'.Accepted)
    (htwo : TwoFlips (h.toBytes ++ tail) (h'.toBytes ++ tail') 0 384) : h = h' := by
  obtain ⟨p, q, htwo⟩ := htwo
  have hcrc := haccepted.headerCrc
  have hcrc' := haccepted'.headerCrc
  have hzero : h.zeroCrc.toBytes = h'.zeroCrc.toBytes := by
    refine eq_of_sealed_of_two (p := moved p) (q := moved q) (by simp) (by simp) (fun i hi => ?_)
    rw [← computedCrc, ← computedCrc, ← hcrc, ← hcrc'] at hi
    have hmoved : ∃ j < 384, Flips (h.toBytes ++ tail) (h'.toBytes ++ tail') j ∧ i = moved j :=
      flips_moved hi
    obtain ⟨j, hj, hflip, rfl⟩ := hmoved
    rw [← Nat.zero_add j] at hflip
    rcases htwo j hj hflip with rfl | rfl
    · exact Or.inl rfl
    · exact Or.inr rfl
  have hfield : h.headerCrc = h'.headerCrc := by
    rw [hcrc, hcrc', computedCrc, computedCrc, hzero]
  calc h = { h.zeroCrc with headerCrc := h.headerCrc } := rfl
    _ = { h'.zeroCrc with headerCrc := h'.headerCrc } := by rw [eq_of_toBytes hzero, hfield]
    _ = h' := rfl

variable {payload payload' rest rest' : List UInt8}

/-- **Scattered flips in a record.** If the bytes with at most two flips in the header and at most
two in the payload begin with an acceptable record again, the record is untouched. -/
theorem record_eq_of_two (haccepted : h.Accepted) (haccepted' : h'.Accepted)
    (hlen : payload.length = h.payloadSize.toNat) (hlen' : payload'.length = h'.payloadSize.toNat)
    (hcrc : h.payloadCrc = crc32 payload) (hcrc' : h'.payloadCrc = crc32 payload')
    (hheader : TwoFlips (h.toBytes ++ (payload ++ rest)) (h'.toBytes ++ (payload' ++ rest')) 0 384)
    (hpayload : TwoFlips (h.toBytes ++ (payload ++ rest)) (h'.toBytes ++ (payload' ++ rest')) 384
      (8 * payload.length)) : h = h' ∧ payload = payload' := by
  have hsame : h = h' := eq_of_two haccepted haccepted' hheader
  subst hsame
  refine ⟨rfl, ?_⟩
  have hlens : payload.length = payload'.length := by rw [hlen, hlen']
  have hshort : 8 * payload.length < 2 ^ 32 := by
    have hsize := haccepted.payloadSize
    unfold kMaxPayloadBytes at hsize
    omega
  obtain ⟨p, q, htwo⟩ := hpayload
  refine eq_of_crc32_eq_of_two (p := p) (q := q) hlens hshort (fun i hi => ?_)
    (hcrc.symm.trans hcrc')
  exact htwo i (Flips.lt hlens hi) (flips_tail (Flips.append hlens hi rest rest'))

end RecordHeader

namespace BinaryLogReader

/-- Bytes with a flip in the record at their front, at most two in the header and at most two in
the payload, do not begin with a record. -/
theorem not_beginsWithRecord_of_two {flags : UInt32} {event : Event} {rest bytes' : List UInt8}
    {p : ℕ} (hvalid : event.Valid) (hflip : Flips (recordBytes flags event ++ rest) bytes' p)
    (hp : p < 8 * (48 + event.payload.length))
    (hheader : TwoFlips (recordBytes flags event ++ rest) bytes' 0 384)
    (hpayload : TwoFlips (recordBytes flags event ++ rest) bytes' 384 (8 * event.payload.length)) :
    ¬ BeginsWithRecord bytes' := by
  rintro ⟨flags', event', rest', rfl, hvalid'⟩
  rw [recordBytes, recordBytes, List.append_assoc, List.append_assoc] at hflip hheader hpayload
  obtain ⟨hsame, hpayloads⟩ := RecordHeader.record_eq_of_two
    (recordHeader_accepted hvalid.payload flags) (recordHeader_accepted hvalid'.payload flags')
    (toNat_payloadSize hvalid.payload flags).symm (toNat_payloadSize hvalid'.payload flags').symm
    rfl rfl hheader hpayload
  rw [hsame, hpayloads, ← List.append_assoc, ← List.append_assoc] at hflip
  have hbehind := le_of_flips_append hflip
  rw [List.length_append, RecordHeader.length_toBytes, ← hpayloads] at hbehind
  omega

/-- A file with a flip in its file header, and at most two of them there, does not begin with a
file header. -/
theorem not_beginsWithFileHeader_of_two {flags : UInt16} {created reserved : UInt64}
    {rest file' : List UInt8} {p : ℕ}
    (hflip : Flips (fileHeader flags created reserved ++ rest) file' p) (hp : p < 288)
    (htwo : TwoFlips (fileHeader flags created reserved ++ rest) file' 0 288) :
    ¬ BeginsWithFileHeader file' := by
  rintro ⟨flags', created', reserved', rest', rfl⟩
  obtain ⟨a, b, htwo⟩ := htwo
  have hbody : fileHeaderBody flags created reserved = fileHeaderBody flags' created' reserved' := by
    refine eq_of_sealed_of_two (p := a) (q := b) (by simp) (by simp) (fun i hi => ?_)
    have hlt : i < 8 * (fileHeader flags created reserved).length := Flips.lt (by simp) hi
    rw [length_fileHeader] at hlt
    have hwhole : Flips (fileHeader flags created reserved ++ rest)
        (fileHeader flags' created' reserved' ++ rest') (0 + i) := by
      rw [Nat.zero_add]
      exact Flips.append (by simp) hi rest rest'
    exact htwo i hlt hwhole
  rw [fileHeader, fileHeader, hbody] at hflip
  have hbehind := le_of_flips_append hflip
  simp at hbehind
  omega

/-- At most two bits are flipped in the header of each record, and at most two in its payload. -/
def ScatteredFlips (events : List Event) (records records' : List UInt8) : Prop :=
  ∀ n event, events[n]? = some event →
    TwoFlips records records' (8 * recordsLength events n) 384 ∧
    TwoFlips records records' (8 * recordsLength events n + 384) (8 * event.payload.length)

theorem ScatteredFlips.behind {event : Event} {events : List Event}
    {records records' : List UInt8}
    (h : ScatteredFlips (event :: events) (recordBytes 0 event ++ records)
      (recordBytes 0 event ++ records')) : ScatteredFlips events records records' := by
  intro n next hnext
  obtain ⟨hheader, hpayload⟩ := h (n + 1) next (by rwa [List.getElem?_cons_succ])
  have hstart (k : ℕ) : 8 * recordsLength (event :: events) (n + 1) + k =
      8 * (recordBytes 0 event).length + (8 * recordsLength events n + k) := by
    rw [recordsLength_cons, length_recordBytes]
    omega
  constructor
  · rw [← Nat.add_zero (8 * recordsLength (event :: events) (n + 1)), hstart,
      twoFlips_append_right rfl] at hheader
    exact hheader
  · rw [hstart, twoFlips_append_right rfl] at hpayload
    exact hpayload

/-- The records of valid events with scattered flips: the records before the one that holds the
first flip are returned, and then `next` throws. -/
theorem replay_scattered {events : List Event} (hvalid : ∀ event ∈ events, event.Valid)
    {records' : List UInt8} (hlen : records'.length = (encodeRecords events).length) {w p : ℕ}
    (hfirst : Burst w (encodeRecords events) records' p)
    (hscattered : ScatteredFlips events (encodeRecords events) records') {r : BinaryLogReader}
    (hat : r.input.At records') :
    ∃ n < events.length, 8 * recordsLength events n ≤ p ∧
      p < 8 * recordsLength events (n + 1) ∧
      ∃ e, e.IsFormatOrCrc ∧ ∀ further, r.replay (n + 1 + further) = (events.take n, .threw e) := by
  induction events generalizing records' p r with
  | nil =>
    have hlt := hfirst.flip.lt hlen.symm
    simp at hlt
  | cons event events ih =>
    have hhead := hvalid event List.mem_cons_self
    have htail : ∀ e ∈ events, e.Valid := fun e he => hvalid e (List.mem_cons_of_mem event he)
    have hsplit : encodeRecords (event :: events) =
        recordBytes 0 event ++ encodeRecords events := rfl
    rw [hsplit] at hfirst hlen hscattered
    rw [List.length_append, length_recordBytes] at hlen
    rcases Nat.lt_or_ge p (8 * (48 + event.payload.length)) with hinside | hbehind
    · obtain ⟨hheader, hpayload⟩ := hscattered 0 event rfl
      rw [recordsLength_zero, Nat.mul_zero] at hheader hpayload
      rw [Nat.zero_add] at hpayload
      refine ⟨0, by simp, by simp, by simpa using hinside, ?_⟩
      rcases next_at hat with rfl | hrecord | ⟨e, r', hnext, he, _⟩
      · rw [List.length_nil] at hlen
        omega
      · exact absurd hrecord
          (not_beginsWithRecord_of_two hhead hfirst.flip hinside hheader hpayload)
      · refine ⟨e, he, fun further => ?_⟩
        rw [Nat.zero_add, Nat.add_comm, replay_error hnext, List.take_zero]
    · obtain ⟨rest', q, rfl, rfl, hrest⟩ := hfirst.behind
        (by rw [length_recordBytes]; omega) (by rwa [length_recordBytes])
      obtain ⟨r₁, hnext, hat₁, _⟩ := next_record hat hhead
      rw [List.length_append, length_recordBytes] at hlen
      obtain ⟨n, hn, hlow, hhigh, e, he, hreplay⟩ :=
        ih htail (by omega) hrest hscattered.behind hat₁
      refine ⟨n + 1, Nat.succ_lt_succ hn, ?_, ?_, e, he, fun further => ?_⟩
      · rw [recordsLength_cons, length_recordBytes]
        omega
      · rw [recordsLength_cons, length_recordBytes]
        omega
      · have hcalls : n + 1 + 1 + further = n + 1 + further + 1 := by omega
        rw [hcalls, replay_some hnext, hreplay, List.take_succ_cons]

end BinaryLogReader

namespace BinaryLogWriter

/-- **Scattered flips are detected.** Take the file that the writer leaves for events the format can
represent, and flip bits anywhere in it, but at most two in the file header, at most two in each
record header and at most two in each payload. If the first flipped bit is in the file header, the
constructor throws. Otherwise the reader returns exactly the events of the records before the one
that holds the first flipped bit, and then throws a format or checksum error. -/
theorem scattered_flips_detected {path : String} {options : WriterOptions} {device : Device}
    {now : UInt64} {w w' : BinaryLogWriter} (hnew : new path options device now = .ok w)
    {calls : List WriterCall} (hcalls : OnlyValidAppends calls)
    (hclose : (w.run calls).2.close = (.ok (), w')) {file' : List UInt8}
    (hlen : file'.length = w'.out.content.length) (hne : file' ≠ w'.out.content)
    (hheader : TwoFlips w'.out.content file' 0 (8 * 36))
    (hrecords : ∀ n event, (appendedEvents calls)[n]? = some event →
      TwoFlips w'.out.content file' (8 * recordEnd (appendedEvents calls) n) (8 * 48) ∧
      TwoFlips w'.out.content file' (8 * (recordEnd (appendedEvents calls) n + 48))
        (8 * event.payload.length)) :
    let events := appendedEvents calls
    let opened := BinaryLogReader.new path (IFStream.ofBytes file')
    ∃ p, Flips w'.out.content file' p ∧ (∀ i < p, ¬ Flips w'.out.content file' i) ∧
      (p < 8 * 36 → ∃ e, opened = .error e ∧ e.IsFormatOrCrc) ∧
      (8 * 36 ≤ p → ∃ r, opened = .ok r ∧ ∃ n < events.length,
        8 * recordEnd events n ≤ p ∧ p < 8 * recordEnd events (n + 1) ∧
        ∃ e, e.IsFormatOrCrc ∧
          ∀ further, r.replay (n + 1 + further) = (events.take n, .threw e)) := by
  have hsomewhere (i : ℕ) (hi : Flips w'.out.content file' i) :
      0 ≤ i ∧ i < 0 + 8 * w'.out.content.length := by
    have hlt := hi.lt hlen.symm
    omega
  obtain ⟨p, hfirst⟩ := exists_burst hne.symm hsomewhere
  have hcontent := (content_of_close hnew hclose).1
  rw [hcalls.passedEvents_eq] at hcontent
  refine ⟨p, hfirst.flip, fun i hi hflip => ?_, fun hinside => ?_, fun hbehind => ?_⟩
  · have hle := (hfirst.window i hflip).1
    omega
  · have hflip := hfirst.flip
    rw [hcontent] at hflip hheader
    rcases BinaryLogReader.new_cases path file' with hbegins | herror
    · exact absurd hbegins
        (BinaryLogReader.not_beginsWithFileHeader_of_two hflip hinside hheader)
    · exact herror
  · rw [hcontent] at hfirst hlen hrecords
    rw [List.length_append, length_fileHeader] at hlen
    obtain ⟨records', q, rfl, rfl, hrest⟩ := hfirst.behind
      (by rw [length_fileHeader]; omega) (by rwa [length_fileHeader])
    obtain ⟨r, hread, hat, _⟩ := BinaryLogReader.new_fileHeader path 0 now 0 records'
    rw [List.length_append, length_fileHeader] at hlen
    have hscattered : BinaryLogReader.ScatteredFlips (appendedEvents calls)
        (encodeRecords (appendedEvents calls)) records' := by
      intro n event hevent
      obtain ⟨hhead, hpayload⟩ := hrecords n event hevent
      have hstart (k : ℕ) : 8 * recordEnd (appendedEvents calls) n + k =
          8 * (fileHeader 0 now 0).length + (8 * recordsLength (appendedEvents calls) n + k) := by
        rw [recordEnd, length_fileHeader]
        omega
      constructor
      · rw [← Nat.add_zero (8 * recordEnd (appendedEvents calls) n), hstart,
          twoFlips_append_right rfl] at hhead
        exact hhead
      · rw [Nat.mul_add, hstart, twoFlips_append_right rfl] at hpayload
        exact hpayload
    obtain ⟨n, hn, hlow, hhigh, e, he, hreplay⟩ :=
      BinaryLogReader.replay_scattered hcalls.valid (by omega) hrest hscattered hat
    refine ⟨r, hread, n, hn, ?_, ?_, e, he, hreplay⟩
    · rw [recordEnd, length_fileHeader]
      omega
    · rw [recordEnd, length_fileHeader]
      omega

/-- The file of one empty event with the first and the last bit of its record inverted. -/
theorem scattered_flips_detected_ends : ∃ w w' r e,
    new "log" {} .reliable 0 = .ok w ∧
    (w.run [.append {}]).2.close = (.ok (), w') ∧
    BinaryLogReader.new "log" (IFStream.ofBytes ((w'.out.content.set 36 0x49).set 83 0x80)) =
      .ok r ∧
    r.replay 1 = ([], .threw e) ∧ e.IsFormatOrCrc := by
  have hdevice := Device.reliable_healthy
  obtain ⟨w, hnew, hhealthy⟩ := new_default "log" 0 hdevice
  obtain ⟨w', hclose, _⟩ := close_healthy (run_healthy hhealthy [.append {}])
  have hcalls : OnlyValidAppends [.append {}] := by
    intro c hmem
    rw [List.mem_singleton] at hmem
    exact Or.inr ⟨_, hmem, by decide, by simp⟩
  have hcontent : w'.out.content = fileHeader 0 0 0 ++ encodeRecords [{}] :=
    (content_of_close hnew hclose).1
  have hbits : bits ((w'.out.content.set 36 0x49).set 83 0x80) =
      ((bits w'.out.content).set 288 true).set 671 true := by
    rw [hcontent]
    decide +kernel
  have hne : (w'.out.content.set 36 0x49).set 83 0x80 ≠ w'.out.content := by
    rw [hcontent]
    decide +kernel
  have hlen : w'.out.content.length = 84 := by
    rw [hcontent]
    simp [encodeRecords]
  have hflips (i : ℕ) (h : Flips w'.out.content ((w'.out.content.set 36 0x49).set 83 0x80) i) :
      i = 288 ∨ i = 671 := by
    by_contra hneither
    rw [not_or] at hneither
    apply h
    rw [hbits, List.getElem?_set_ne (by omega), List.getElem?_set_ne (by omega)]
  have htwo (start n : ℕ) :
      TwoFlips w'.out.content ((w'.out.content.set 36 0x49).set 83 0x80) start n := by
    refine ⟨288 - start, 671 - start, fun i hi hflip => ?_⟩
    have hplace := hflips (start + i) hflip
    omega
  obtain ⟨p, hflip, hmin, _, hrecord⟩ := scattered_flips_detected hnew hcalls hclose (by simp) hne
    (htwo 0 288) (by
      intro n event hevent
      cases n with
      | zero =>
        have hempty : event = {} := (Option.some.inj hevent).symm
        subst hempty
        exact ⟨htwo 288 384, htwo 672 0⟩
      | succ n => cases hevent)
  have hp := hflips p hflip
  obtain ⟨r, hread, n, hn, _, _, e, he, hreplay⟩ := hrecord (by omega)
  have hzero : n = 0 := Nat.lt_one_iff.mp hn
  subst hzero
  exact ⟨w, w', r, e, hnew, hclose, hread, hreplay 0, he⟩

end BinaryLogWriter

end Hpblr
