import Hpblr.Lib.BitFlips
import Hpblr.BinaryLog.Truncation

/-!
# Bursts of corruption

Flipped bits that lie within 32 consecutive bits of a file are always detected. In the file header
and in a payload this is the burst property of the checksum. The checksum of a record header stands
before the payload checksum instead of at the end, so windows over its borders need more: behind
it the payload checksum helps, and before it the size limit, which leaves 25 bits of the payload
size to a certificate of linear algebra.
-/

namespace Hpblr

open LittleEndian ShiftRegister

/-! ## A certificate for the payload size -/

/-- What 128 clocks of the register make of the bits of the payload size. -/
def sizeColumns : List (BitVec 32) :=
  (List.range 25).map (fun i => shiftN polynomialWord 128 (BitVec.twoPow 32 i))

/-- Linear tests: the one at `t` has no bit below `t`, and of the columns from `t` on it sees only
the first. -/
def sizeMasks : List (BitVec 32) :=
  [0xa51140, 0x451be7c, 0x153a9fc, 0x3486038, 0x27de430, 0x16ec20, 0x167fac0, 0x2cff580,
    0x15f1700, 0x64ee00, 0x17aec00, 0x2f1800, 0x5e3000, 0xbc6000, 0x178c000, 0x1538000,
    0x1050000, 0x1a80000, 0x2f80000, 0x4580000, 0x1c00000, 0x2400000, 0x4800000, 0x1800000,
    0x1000000]

/-- The check of the tests against the columns. -/
def checkSizeMasks (columns masks : List (BitVec 32)) : Bool :=
  (List.range 25).all (fun t =>
    (List.range t).all (fun i => !(masks.getD t 0).getLsbD i) &&
    (List.range 25).all (fun i =>
      decide (i < t) || parity (masks.getD t 0) (columns.getD i 0) == decide (i = t)))

theorem checkSizeMasks_sizeMasks : checkSizeMasks sizeColumns sizeMasks = true := by
  decide +kernel

theorem sizeMask_low {t i : ℕ} (ht : t < 25) (hi : i < t) :
    (sizeMasks.getD t 0).getLsbD i = false := by
  have hcheck := checkSizeMasks_sizeMasks
  simp only [checkSizeMasks, List.all_eq_true, List.mem_range, Bool.and_eq_true] at hcheck
  simpa using (hcheck t ht).1 i hi

theorem sizeMask_column {t i : ℕ} (ht : t < 25) (hi : i < 25) (hle : t ≤ i) :
    parity (sizeMasks.getD t 0) (shiftN polynomialWord 128 (BitVec.twoPow 32 i)) =
      decide (i = t) := by
  have hcheck := checkSizeMasks_sizeMasks
  simp only [checkSizeMasks, List.all_eq_true, List.mem_range, Bool.and_eq_true] at hcheck
  have hcolumn : sizeColumns.getD i 0 = shiftN polynomialWord 128 (BitVec.twoPow 32 i) := by
    simp [sizeColumns, hi]
  have htest := (hcheck t ht).2 i hi
  rw [hcolumn, Bool.or_eq_true, decide_eq_true_iff, beq_iff_eq] at htest
  exact htest.resolve_left (by omega)

/-- A change of the payload size that starts at bit `t` changes the header checksum at bit `t` or
above: the checksum cannot be repaired below the bit where the size starts to change. -/
theorem size_change_reaches_up {d : BitVec 32} {t : ℕ} (ht : d.getLsbD t = true)
    (hlow : ∀ i < t, d.getLsbD i = false) (hhigh : ∀ i, 25 ≤ i → d.getLsbD i = false) :
    ∃ i, t ≤ i ∧ (shiftN polynomialWord 128 d).getLsbD i = true := by
  by_contra hnone
  have hbelow (i : ℕ) (hi : t ≤ i) : (shiftN polynomialWord 128 d).getLsbD i = false := by
    cases hbit : (shiftN polynomialWord 128 d).getLsbD i with
    | false => rfl
    | true => exact absurd ⟨i, hi, hbit⟩ hnone
  have ht25 : t < 25 := by
    by_contra hge
    rw [hhigh t (by omega)] at ht
    cases ht
  let test (c : BitVec 32) : Bool := parity (sizeMasks.getD t 0) (shiftN polynomialWord 128 c)
  have hlinear (a b : BitVec 32) : test (a ^^^ b) = (test a ^^ test b) := by
    simp only [test]
    rw [shiftN_xor, parity_xor]
  -- All bits of `d` but the lowest are columns that the test does not see.
  have hrest : test (d ^^^ BitVec.twoPow 32 t) = false := by
    refine linear_eq_false_of_units (n := 25) hlinear (fun i hi hbit => ?_) (fun i hi => ?_)
    · have hlt : t < i := by
        by_contra hle
        rcases Nat.lt_or_ge i t with hit | hti
        · rw [BitVec.getLsbD_xor, hlow i hit, BitVec.getLsbD_twoPow] at hbit
          have hne : t ≠ i := by omega
          simp [hne] at hbit
        · have heq : i = t := by omega
          subst heq
          rw [BitVec.getLsbD_xor, ht, BitVec.getLsbD_twoPow] at hbit
          simp [show i < 32 by omega] at hbit
      simp only [test]
      rw [sizeMask_column ht25 hi hlt.le]
      simpa using hlt.ne'
    · have hne : t ≠ i := by omega
      rw [BitVec.getLsbD_xor, hhigh i hi, BitVec.getLsbD_twoPow]
      simp [hne]
  have hlowest : test (BitVec.twoPow 32 t) = true := by
    simp only [test]
    rw [sizeMask_column ht25 ht25 le_rfl]
    simp
  have hzero : test d = false := by
    refine parity_eq_false (fun i _ hmask => hbelow i ?_)
    by_contra hlt
    rw [sizeMask_low ht25 (by omega)] at hmask
    cases hmask
  rw [hlinear, hlowest, hzero] at hrest
  cases hrest

/-! ## Where the fields of a record are -/

namespace RecordHeader

/-- The fields before the payload size: bytes 0 to 32. -/
def head (h : RecordHeader) : List UInt8 :=
  bytes 4 h.magic.toNat ++ (bytes 2 h.headerSize.toNat ++ (bytes 2 h.version.toNat ++
    (bytes 8 h.timestampNs.toNat ++ (bytes 8 h.sequence.toNat ++ (bytes 4 h.producerId.toNat ++
      (bytes 2 h.eventType.toNat ++ bytes 2 h.severityRaw.toNat))))))

@[simp] theorem length_head (h : RecordHeader) : h.head.length = 32 := by simp [head]

theorem front_eq (h : RecordHeader) : h.front = h.head ++ bytes 4 h.payloadSize.toNat := by
  simp only [front, head, List.append_assoc]

variable {h h' : RecordHeader} {tail tail' : List UInt8} {i : ℕ}

theorem flips_front (hflip : Flips h.front h'.front i) :
    Flips (h.toBytes ++ tail) (h'.toBytes ++ tail') i := by
  simp only [toBytes, List.append_assoc]
  exact hflip.append (by simp) _ _

theorem flips_head (hflip : Flips h.head h'.head i) :
    Flips (h.toBytes ++ tail) (h'.toBytes ++ tail') i := by
  apply flips_front
  rw [front_eq, front_eq]
  exact hflip.append (by simp) _ _

theorem flips_payloadSize
    (hflip : Flips (bytes 4 h.payloadSize.toNat) (bytes 4 h'.payloadSize.toNat) i) :
    Flips (h.toBytes ++ tail) (h'.toBytes ++ tail') (256 + i) := by
  apply flips_front
  rw [front_eq, front_eq]
  simpa using (flips_append_right (i := i) (show h.head.length = h'.head.length by simp)).mpr hflip

/-- Behind the front part, positions count from bit 288. -/
private theorem flips_behind_front {as bs : List UInt8} (hflip : Flips as bs i) :
    Flips (h.front ++ as) (h'.front ++ bs) (288 + i) := by
  simpa using
    (flips_append_right (i := i) (show h.front.length = h'.front.length by simp)).mpr hflip

theorem flips_headerCrc
    (hflip : Flips (bytes 4 h.headerCrc.toNat) (bytes 4 h'.headerCrc.toNat) i) :
    Flips (h.toBytes ++ tail) (h'.toBytes ++ tail') (288 + i) := by
  simp only [toBytes, List.append_assoc]
  exact flips_behind_front (hflip.append (by simp) _ _)

/-- Behind the header checksum, positions count from bit 320. -/
private theorem flips_behind_crc {as bs : List UInt8} (hflip : Flips as bs i) :
    Flips (h.front ++ (bytes 4 h.headerCrc.toNat ++ as))
      (h'.front ++ (bytes 4 h'.headerCrc.toNat ++ bs)) (320 + i) := by
  have hinner := (flips_append_right (i := i) (show (bytes 4 h.headerCrc.toNat).length =
    (bytes 4 h'.headerCrc.toNat).length by simp)).mpr hflip
  have houter : Flips (h.front ++ (bytes 4 h.headerCrc.toNat ++ as))
      (h'.front ++ (bytes 4 h'.headerCrc.toNat ++ bs))
        (288 + (8 * (bytes 4 h.headerCrc.toNat).length + i)) := flips_behind_front hinner
  rwa [length_bytes, ← Nat.add_assoc] at houter

theorem flips_back (hflip : Flips h.back h'.back i) :
    Flips (h.toBytes ++ tail) (h'.toBytes ++ tail') (320 + i) := by
  simp only [toBytes, List.append_assoc]
  exact flips_behind_crc (hflip.append (by simp) _ _)

theorem flips_tail (hflip : Flips tail tail' i) :
    Flips (h.toBytes ++ tail) (h'.toBytes ++ tail') (384 + i) := by
  simpa using
    (flips_append_right (i := i) (show h.toBytes.length = h'.toBytes.length by simp)).mpr hflip

/-! ## A burst in a record -/

theorem eq_of_toBytes (heq : h.toBytes = h'.toBytes) : h = h' := by
  rw [← ofBytes_toBytes h, heq, ofBytes_toBytes]

theorem payloadSize_of_front (hfront : h.front = h'.front) : h.payloadSize = h'.payloadSize := by
  let mixed : RecordHeader :=
    { h' with headerCrc := h.headerCrc, payloadCrc := h.payloadCrc, flags := h.flags }
  have hbytes : h.toBytes = mixed.toBytes := by
    change h.front ++ (bytes 4 h.headerCrc.toNat ++ h.back) = h'.front ++ _
    rw [← hfront]
    rfl
  have hmixed : h = mixed := eq_of_toBytes hbytes
  exact (congrArg payloadSize hmixed).trans rfl

theorem computedCrc_congr (hfront : h.front = h'.front) (hback : h.back = h'.back) :
    h.computedCrc = h'.computedCrc := by
  have hbytes (h : RecordHeader) : h.zeroCrc.toBytes = h.front ++ (bytes 4 0 ++ h.back) := rfl
  rw [computedCrc, computedCrc, hbytes, hbytes, hfront, hback]

/-- Different checksum fields have a flip there. -/
theorem exists_flips_headerCrc (hne : h.headerCrc ≠ h'.headerCrc) :
    ∃ q < 32, Flips (h.toBytes ++ tail) (h'.toBytes ++ tail') (288 + q) := by
  have hbytes : bytes 4 h.headerCrc.toNat ≠ bytes 4 h'.headerCrc.toNat := by
    intro heq
    apply hne
    have hvalue := congrArg value heq
    rw [value_bytes_of_lt h.headerCrc.toNat_lt, value_bytes_of_lt h'.headerCrc.toNat_lt] at hvalue
    exact UInt32.toNat.inj hvalue
  obtain ⟨q, hq⟩ := exists_flips hbytes
  exact ⟨q, by simpa using hq.lt (by simp), flips_headerCrc hq⟩

variable {p : ℕ}

/-- Accepted headers whose checksum fields agree are equal: outside the field the burst property
of the checksum applies. -/
theorem eq_of_headerCrc (haccepted : h.Accepted) (haccepted' : h'.Accepted)
    (hburst : Burst 32 (h.toBytes ++ tail) (h'.toBytes ++ tail') p)
    (hcrc : h.headerCrc = h'.headerCrc) : h = h' := by
  have hlen : h.zeroCrc.toBytes.length = h'.zeroCrc.toBytes.length := by simp
  have hsame : crc32 h.zeroCrc.toBytes = crc32 h'.zeroCrc.toBytes := by
    rw [← computedCrc, ← computedCrc, ← haccepted.headerCrc, ← haccepted'.headerCrc, hcrc]
  have hzero : h.zeroCrc.toBytes = h'.zeroCrc.toBytes := by
    refine eq_of_crc32_eq hlen (fun i hi => hburst.window i ?_) hsame
    rcases flips_append (by simp [zeroCrc]) hi with hfront | ⟨j, rfl, hj⟩
    · exact flips_front hfront
    · rcases flips_append (by simp) hj with hfield | ⟨k, rfl, hback⟩
      · exact absurd rfl hfield
      · have hwhole : Flips (h.toBytes ++ tail) (h'.toBytes ++ tail') (320 + k) := flips_back hback
        simpa [← Nat.add_assoc] using hwhole
  calc h = { h.zeroCrc with headerCrc := h.headerCrc } := rfl
    _ = { h'.zeroCrc with headerCrc := h'.headerCrc } := by rw [eq_of_toBytes hzero, hcrc]
    _ = h' := rfl

/-- A burst that starts before the checksum field and reaches into it changes the payload size
only, and the certificate excludes that. -/
theorem not_burst_before_crc (haccepted : h.Accepted) (haccepted' : h'.Accepted)
    (hburst : Burst 32 (h.toBytes ++ tail) (h'.toBytes ++ tail') p)
    (hne : h.headerCrc ≠ h'.headerCrc) : 288 ≤ p := by
  by_contra hlt
  obtain ⟨q, hq, hflip⟩ :
      ∃ q < 32, Flips (h.toBytes ++ tail) (h'.toBytes ++ tail') (288 + q) :=
    exists_flips_headerCrc hne
  have hstart := (hburst.window _ hflip).2
  obtain ⟨t, rfl⟩ := Nat.exists_eq_add_of_le (show 256 ≤ p by omega)
  have hhead : h.head = h'.head := by
    refine eq_of_no_flips (fun i hi => ?_)
    have hbefore := hi.lt (by simp)
    have hwindow := (hburst.window i (flips_head hi)).1
    rw [length_head] at hbefore
    omega
  have hback : h.back = h'.back := by
    refine eq_of_no_flips (fun i hi => ?_)
    have hwindow := (hburst.window _ (flips_back hi)).2
    omega
  let d := h.payloadSize.toBitVec ^^^ h'.payloadSize.toBitVec
  have hdiff : h.headerCrc.toBitVec ^^^ h'.headerCrc.toBitVec = shiftN polynomialWord 128 d := by
    have hbytes (h : RecordHeader) : h.zeroCrc.toBytes =
        h.head ++ bytes 4 h.payloadSize.toNat ++ (bytes 4 0 ++ h.back) := by
      rw [← front_eq]
      rfl
    have hxor := crc32_xor_crc32 h.head (bytes 4 0 ++ h.back) h.payloadSize h'.payloadSize
    rw [haccepted.headerCrc, haccepted'.headerCrc, computedCrc, computedCrc, hbytes, hbytes,
      ← hhead, ← hback, hxor]
    simp [d]
  have hsmall (x : RecordHeader) (hx : x.Accepted) (i : ℕ) (hi : 25 ≤ i) :
      x.payloadSize.toBitVec.getLsbD i = false := by
    have hle := hx.payloadSize
    apply Nat.testBit_lt_two_pow
    calc x.payloadSize.toNat < 2 ^ 25 := by unfold kMaxPayloadBytes at hle; omega
      _ ≤ 2 ^ i := Nat.pow_le_pow_right (by omega) hi
  have hbit : d.getLsbD t = true := by
    have hsize : Flips (h.toBytes ++ tail) (h'.toBytes ++ tail') (256 + t) := hburst.flip
    rw [toBytes, toBytes, List.append_assoc, List.append_assoc, front_eq, front_eq,
      List.append_assoc, List.append_assoc] at hsize
    have hfield := (flips_append_right (i := t) (show h.head.length = h'.head.length by simp)).mp
      (by simpa using hsize)
    rcases flips_append (by simp) hfield with hsize | ⟨j, rfl, _⟩
    · exact flips_bytes.mp hsize
    · rw [length_bytes] at hlt
      omega
  have hlow (i : ℕ) (hi : i < t) : d.getLsbD i = false := by
    by_contra hset
    have hflip := flips_bytes.mpr (Bool.eq_true_of_not_eq_false hset)
    have hwindow := (hburst.window _ (flips_payloadSize hflip)).1
    omega
  have hhigh (i : ℕ) (hi : 25 ≤ i) : d.getLsbD i = false := by
    rw [BitVec.getLsbD_xor, hsmall h haccepted i hi, hsmall h' haccepted' i hi, Bool.xor_self]
  obtain ⟨i, hi, hset⟩ := size_change_reaches_up hbit hlow hhigh
  rw [← hdiff] at hset
  have hwindow := (hburst.window _ (flips_headerCrc (flips_bytes.mpr hset))).2
  omega

variable {payload payload' rest rest' : List UInt8}

/-- A burst that starts in the checksum field changes at most the payload checksum besides it, and
the payload, which it cannot reach, excludes that. -/
theorem not_burst_in_crc (haccepted : h.Accepted) (haccepted' : h'.Accepted)
    (hlen : payload.length = h.payloadSize.toNat) (hlen' : payload'.length = h'.payloadSize.toNat)
    (hcrc : h.payloadCrc = crc32 payload) (hcrc' : h'.payloadCrc = crc32 payload')
    (hburst : Burst 32 (h.toBytes ++ (payload ++ rest)) (h'.toBytes ++ (payload' ++ rest')) p)
    (hne : h.headerCrc ≠ h'.headerCrc) : 320 ≤ p := by
  by_contra hlt
  have hge := not_burst_before_crc haccepted haccepted' hburst hne
  have hfront : h.front = h'.front := by
    refine eq_of_no_flips (fun i hi => ?_)
    have hbefore := hi.lt (by simp)
    have hwindow := (hburst.window i (flips_front hi)).1
    rw [length_front] at hbefore
    omega
  have hlens : payload.length = payload'.length := by
    rw [hlen, hlen', payloadSize_of_front hfront]
  have hpayload : payload = payload' := by
    refine eq_of_no_flips (fun i hi => ?_)
    have hwindow := (hburst.window _ (flips_tail (hi.append hlens rest rest'))).2
    omega
  have hpayloadCrc : h.payloadCrc = h'.payloadCrc := by rw [hcrc, hcrc', hpayload]
  have hback : h.back = h'.back := by
    refine eq_of_no_flips (fun i hi => ?_)
    have hwindow := (hburst.window _ (flips_back hi)).2
    unfold back at hi
    rw [hpayloadCrc] at hi
    rcases flips_append rfl hi with hfield | ⟨j, rfl, _⟩
    · exact hfield rfl
    · rw [length_bytes] at hwindow
      omega
  exact hne (by rw [haccepted.headerCrc, haccepted'.headerCrc, computedCrc_congr hfront hback])

/-- **A burst in a record.** If the bytes with a burst begin with an acceptable record again, the
burst starts behind the record. -/
theorem burst_behind_record (haccepted : h.Accepted) (haccepted' : h'.Accepted)
    (hlen : payload.length = h.payloadSize.toNat) (hlen' : payload'.length = h'.payloadSize.toNat)
    (hcrc : h.payloadCrc = crc32 payload) (hcrc' : h'.payloadCrc = crc32 payload')
    (hburst : Burst 32 (h.toBytes ++ (payload ++ rest)) (h'.toBytes ++ (payload' ++ rest')) p) :
    8 * (48 + payload.length) ≤ p := by
  have hheader : h = h' := by
    by_cases hsame : h.headerCrc = h'.headerCrc
    · exact eq_of_headerCrc haccepted haccepted' hburst hsame
    · have hge := not_burst_in_crc haccepted haccepted' hlen hlen' hcrc hcrc' hburst hsame
      obtain ⟨q, hq, hflip⟩ := exists_flips_headerCrc hsame
      have hwindow := (hburst.window _ hflip).1
      omega
  subst hheader
  have hlens : payload.length = payload'.length := by rw [hlen, hlen']
  have hpayload : payload = payload' := by
    refine eq_of_crc32_eq hlens (s := p - 384) (fun i hi => ?_) (hcrc.symm.trans hcrc')
    have hwindow := hburst.window _ (flips_tail (Flips.append hlens hi rest rest'))
    omega
  subst hpayload
  have hflip := hburst.flip
  rw [← List.append_assoc, ← List.append_assoc] at hflip
  simpa using le_of_flips_append hflip

end RecordHeader

namespace BinaryLogReader

/-- Bytes with a burst in the record at their front do not begin with a record. -/
theorem not_beginsWithRecord {flags : UInt32} {event : Event} {rest bytes' : List UInt8} {p : ℕ}
    (hvalid : event.Valid) (hburst : Burst 32 (recordBytes flags event ++ rest) bytes' p)
    (hp : p < 8 * (48 + event.payload.length)) : ¬ BeginsWithRecord bytes' := by
  rintro ⟨flags', event', rest', rfl, hvalid'⟩
  rw [recordBytes, recordBytes, List.append_assoc, List.append_assoc] at hburst
  have hbehind := RecordHeader.burst_behind_record (recordHeader_accepted hvalid.payload flags)
    (recordHeader_accepted hvalid'.payload flags') (toNat_payloadSize hvalid.payload flags).symm
    (toNat_payloadSize hvalid'.payload flags').symm rfl rfl hburst
  omega

/-- A file with a burst in its file header does not begin with a file header. -/
theorem not_beginsWithFileHeader {flags : UInt16} {created reserved : UInt64}
    {rest file' : List UInt8} {p : ℕ}
    (hburst : Burst 32 (fileHeader flags created reserved ++ rest) file' p) (hp : p < 288) :
    ¬ BeginsWithFileHeader file' := by
  rintro ⟨flags', created', reserved', rest', rfl⟩
  have hbody : fileHeaderBody flags created reserved = fileHeaderBody flags' created' reserved' := by
    refine eq_of_sealed (s := p) (by simp) (fun i hi => hburst.window i ?_)
    exact Flips.append (by simp) hi rest rest'
  have hflip := hburst.flip
  rw [fileHeader, fileHeader, hbody] at hflip
  have hbehind := le_of_flips_append hflip
  simp at hbehind
  omega

/-- The records of valid events with a burst: the records before the one that holds the first flip
are returned, and then `next` throws. -/
theorem replay_burst {events : List Event} (hvalid : ∀ event ∈ events, event.Valid)
    {records' : List UInt8} (hlen : records'.length = (encodeRecords events).length) {p : ℕ}
    (hburst : Burst 32 (encodeRecords events) records' p) {r : BinaryLogReader}
    (hat : r.input.At records') :
    ∃ n < events.length, 8 * recordsLength events n ≤ p ∧
      p < 8 * recordsLength events (n + 1) ∧
      ∃ e, e.IsFormatOrCrc ∧ ∀ further, r.replay (n + 1 + further) = (events.take n, .threw e) := by
  induction events generalizing records' p r with
  | nil =>
    have hlt := hburst.flip.lt hlen.symm
    simp at hlt
  | cons event events ih =>
    have hhead := hvalid event List.mem_cons_self
    have htail : ∀ e ∈ events, e.Valid := fun e he => hvalid e (List.mem_cons_of_mem event he)
    have hsplit : encodeRecords (event :: events) =
        recordBytes 0 event ++ encodeRecords events := rfl
    rw [hsplit] at hburst hlen
    rw [List.length_append, length_recordBytes] at hlen
    rcases Nat.lt_or_ge p (8 * (48 + event.payload.length)) with hinside | hbehind
    · refine ⟨0, by simp, by simp, by simpa using hinside, ?_⟩
      rcases next_at hat with rfl | hrecord | ⟨e, r', hnext, he, _⟩
      · rw [List.length_nil] at hlen
        omega
      · exact absurd hrecord (not_beginsWithRecord hhead hburst hinside)
      · refine ⟨e, he, fun further => ?_⟩
        rw [Nat.zero_add, Nat.add_comm, replay_error hnext, List.take_zero]
    · obtain ⟨rest', q, rfl, rfl, hrest⟩ := hburst.behind
        (by rw [length_recordBytes]; omega) (by rwa [length_recordBytes])
      obtain ⟨r₁, hnext, hat₁, _⟩ := next_record hat hhead
      rw [List.length_append, length_recordBytes] at hlen
      obtain ⟨n, hn, hlow, hhigh, e, he, hreplay⟩ := ih htail (by omega) hrest hat₁
      refine ⟨n + 1, Nat.succ_lt_succ hn, ?_, ?_, e, he, fun further => ?_⟩
      · rw [recordsLength_cons, length_recordBytes]
        omega
      · rw [recordsLength_cons, length_recordBytes]
        omega
      · have hcalls : n + 1 + 1 + further = n + 1 + further + 1 := by omega
        rw [hcalls, replay_some hnext, hreplay, List.take_succ_cons]

end BinaryLogReader

namespace BinaryLogWriter

/-- **Every burst of at most 32 bits is detected.** Take the file that the writer leaves for events
the format can represent, and change it in bits that all lie in a window of 32 consecutive bits. If
the first flipped bit is in the file header, the constructor throws. Otherwise the reader returns
exactly the events of the records before the one that holds the first flipped bit, and then throws
a format or checksum error. -/
theorem burst_detected {path : String} {options : WriterOptions} {device : Device} {now : UInt64}
    {w w' : BinaryLogWriter} (hnew : new path options device now = .ok w)
    {calls : List WriterCall} (hcalls : OnlyValidAppends calls)
    (hclose : (w.run calls).2.close = (.ok (), w')) {file' : List UInt8} {s : ℕ}
    (hlen : file'.length = w'.out.content.length) (hne : file' ≠ w'.out.content)
    (hwindow : ∀ i, Flips w'.out.content file' i → s ≤ i ∧ i < s + 32) :
    let events := appendedEvents calls
    let opened := BinaryLogReader.new path (IFStream.ofBytes file')
    ∃ p, Flips w'.out.content file' p ∧ (∀ i < p, ¬ Flips w'.out.content file' i) ∧
      (p < 8 * 36 → ∃ e, opened = .error e ∧ e.IsFormatOrCrc) ∧
      (8 * 36 ≤ p → ∃ r, opened = .ok r ∧ ∃ n < events.length,
        8 * recordEnd events n ≤ p ∧ p < 8 * recordEnd events (n + 1) ∧
        ∃ e, e.IsFormatOrCrc ∧
          ∀ further, r.replay (n + 1 + further) = (events.take n, .threw e)) := by
  obtain ⟨p, hburst⟩ := exists_burst hne.symm hwindow
  have hcontent := (content_of_close hnew hclose).1
  rw [hcalls.passedEvents_eq] at hcontent
  refine ⟨p, hburst.flip, fun i hi hflip => ?_, fun hheader => ?_, fun hrecords => ?_⟩
  · have hfirst := (hburst.window i hflip).1
    omega
  · rw [hcontent] at hburst
    rcases BinaryLogReader.new_cases path file' with hbegins | herror
    · exact absurd hbegins (BinaryLogReader.not_beginsWithFileHeader hburst hheader)
    · exact herror
  · rw [hcontent] at hburst hlen
    rw [List.length_append, length_fileHeader] at hlen
    obtain ⟨records', q, rfl, rfl, hrest⟩ := hburst.behind
      (by rw [length_fileHeader]; omega) (by rwa [length_fileHeader])
    obtain ⟨r, hread, hat, _⟩ := BinaryLogReader.new_fileHeader path 0 now 0 records'
    rw [List.length_append, length_fileHeader] at hlen
    obtain ⟨n, hn, hlow, hhigh, e, he, hreplay⟩ :=
      BinaryLogReader.replay_burst hcalls.valid (by omega) hrest hat
    refine ⟨r, hread, n, hn, ?_, ?_, e, he, hreplay⟩
    · rw [recordEnd, length_fileHeader]
      omega
    · rw [recordEnd, length_fileHeader]
      omega

/-- The file of two events, with the last byte of the second record header and the first byte of its
payload inverted. -/
theorem burst_detected_across : ∃ w w' front x y back r e,
    new "log" {} .reliable 0 = .ok w ∧
    (w.run [.append {}, .append { payload := [1, 2] }]).2.close = (.ok (), w') ∧
    w'.out.content = front ++ ([x, y] ++ back) ∧ front.length = 36 + 48 + 48 - 1 ∧
    BinaryLogReader.new "log" (IFStream.ofBytes (front ++ ([~~~x, ~~~y] ++ back))) = .ok r ∧
    r.replay 3 = ([{}], .threw e) ∧ e.IsFormatOrCrc := by
  have hdevice := Device.reliable_healthy
  obtain ⟨w, hnew, hhealthy⟩ := new_default "log" 0 hdevice
  obtain ⟨w', hclose, _⟩ :=
    close_healthy (run_healthy hhealthy [.append {}, .append { payload := [1, 2] }])
  have hcalls : OnlyValidAppends [.append {}, .append { payload := [1, 2] }] := by
    intro c hmem
    simp only [List.mem_cons, List.not_mem_nil, or_false] at hmem
    rcases hmem with rfl | rfl
    · exact Or.inr ⟨_, rfl, by decide, by decide⟩
    · exact Or.inr ⟨_, rfl, by decide, by decide⟩
  have hcontent := (content_of_close hnew hclose).1
  have hlength : w'.out.content.length = 134 := by
    rw [hcontent, hcalls.passedEvents_eq]
    simp [appendedEvents, encodeRecords]
  obtain ⟨front, x, y, back, hsplit, hfront⟩ : ∃ front x y back,
      w'.out.content = front ++ ([x, y] ++ back) ∧ front.length = 131 := by
    have hrest : (w'.out.content.drop 131).length = 3 := by rw [List.length_drop, hlength]
    obtain ⟨x, y, z, hdrop⟩ := List.length_eq_three.mp hrest
    refine ⟨w'.out.content.take 131, x, y, [z], ?_, by simp [hlength]⟩
    exact (List.take_append_drop 131 _).symm.trans (by rw [hdrop]; rfl)
  have hne : front ++ ([~~~x, ~~~y] ++ back) ≠ w'.out.content := by
    rw [hsplit]
    simp
  have hwindow (i : ℕ) (hi : Flips w'.out.content (front ++ ([~~~x, ~~~y] ++ back)) i) :
      8 * 131 ≤ i ∧ i < 8 * 131 + 32 := by
    rw [hsplit] at hi
    rcases flips_append rfl hi with hsame | ⟨j, rfl, hpair⟩
    · exact absurd rfl hsame
    · have hlen : [x, y].length = [~~~x, ~~~y].length := rfl
      rw [hfront]
      rcases flips_append hlen hpair with hinside | ⟨k, rfl, hsame⟩
      · have hlt : j < 8 * 2 := hinside.lt hlen
        omega
      · exact absurd rfl hsame
  obtain ⟨p, hflip, _, _, hrecords⟩ := burst_detected hnew hcalls hclose
    (by rw [hsplit]; simp) hne hwindow
  have hp := (hwindow p hflip).1
  obtain ⟨r, hopened, n, hn, _, hhigh, e, he, hreplay⟩ := hrecords (by omega)
  have hsecond : n = 1 := by
    have hlt : n < 2 := hn
    have hfirst : recordEnd (appendedEvents [.append {}, .append { payload := [1, 2] }]) 1 = 84 := by
      simp [recordEnd, recordsLength, appendedEvents, encodeRecords]
    by_contra hother
    obtain rfl : n = 0 := by omega
    rw [Nat.zero_add, hfirst] at hhigh
    omega
  subst hsecond
  exact ⟨w, w', front, x, y, back, r, e, hnew, hclose, hsplit, hfront, hopened, hreplay 1, he⟩

end BinaryLogWriter

end Hpblr
