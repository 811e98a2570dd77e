import Hpblr.BinaryLog.WriterSpec

/-!
# The reserved buffer

The constructor of the writer reserves room for the flush threshold and one record of the largest
size, in the arithmetic of `std::size_t`. Between the calls the buffer is shorter than the threshold,
and `append` puts one record more into it before it writes the buffer out. So the reserved room is
enough exactly if the sum of the constructor does not wrap.
-/

namespace Hpblr

/-- The exception that `write_all` throws. -/
def Exception.IsWriteFailure (e : Exception) : Prop :=
  ∃ path, e = .ioError (ioContext path "failed to write binary log")

namespace BinaryLogWriter

/-! ## The buffer during a call -/

/-- What the buffer holds during a call: `append` inserts the record header and then the payload,
and every call may clear the buffer in the end. -/
def buffersDuring (w : BinaryLogWriter) (c : WriterCall) : List (List UInt8) :=
  match c with
  | .append event =>
    if w.closed ∨ event.payload.length > kMaxPayloadBytes then [w.buffer]
    else [w.buffer, w.buffer ++ encodeRecordHeader event,
      w.buffer ++ encodeRecordHeader event ++ event.payload, (w.call c).2.buffer]
  | _ => [w.buffer, (w.call c).2.buffer]

/-- What the buffer holds during a run, inside and between the calls. -/
def buffersAlong (w : BinaryLogWriter) : List WriterCall → List (List UInt8)
  | [] => [w.buffer]
  | c :: calls => w.buffersDuring c ++ (w.call c).2.buffersAlong calls

/-- The reserved room suffices for a writer with these options: in every run of `append` and `flush`
in which no write fails, the buffer is never longer than what the constructor has reserved. -/
def ReserveSuffices (options : WriterOptions) : Prop :=
  ∀ path device now w, new path options device now = .ok w →
    ∀ calls : List WriterCall, .close ∉ calls →
      (∀ e, .error e ∈ (w.run calls).1 → ¬ e.IsWriteFailure) →
      ∀ buffer ∈ w.buffersAlong calls, buffer.length ≤ w.reserved.toNat

/-! ## The flush policy -/

/-- What holds between the calls: the options are those of the constructor, and the buffer is
shorter than the threshold. -/
structure BelowThreshold (options : WriterOptions) (w : BinaryLogWriter) : Prop where
  stored : w.options = effectiveOptions options
  reserved : w.reserved = reserveRequest options
  below : w.buffer.length < (effectiveOptions options).flushThresholdBytes.toNat

/-- The threshold is never zero. -/
theorem effectiveOptions_pos (options : WriterOptions) :
    0 < (effectiveOptions options).flushThresholdBytes.toNat := by
  unfold effectiveOptions
  split_ifs with hzero
  · exact Nat.two_pow_pos 20
  · have hne : options.flushThresholdBytes.toNat ≠ 0 :=
      fun h => hzero (UInt64.toNat_inj.mp h)
    omega

/-- The constructor leaves an open writer with an empty buffer. -/
theorem belowThreshold_new {path : String} {options : WriterOptions} {device : Device}
    {now : UInt64} {w : BinaryLogWriter} (h : new path options device now = .ok w) :
    BelowThreshold options w ∧ w.closed = false ∧ w.buffer = [] := by
  unfold new at h
  simp only at h
  split_ifs at h with hopen hreserve
  simp only [writeFileHeader, encodeFileHeader_eq, length_fileHeader] at h
  rw [if_neg (by simp)] at h
  rcases hwrite : writeAll (OFStream.open device) (fileHeader 0 now 0) path with ⟨e | ⟨⟩, out⟩
  · rw [hwrite] at h
    cases h
  · rw [hwrite] at h
    cases h
    exact ⟨⟨rfl, rfl, effectiveOptions_pos options⟩, rfl, rfl⟩

theorem writeAll_failure {out out' : OFStream} {data : List UInt8} {path : String} {e : Exception}
    (h : writeAll out data path = (.error e, out')) : e.IsWriteFailure := by
  unfold writeAll at h
  simp only at h
  split_ifs at h
  · cases h
  · cases h
    exact ⟨path, rfl⟩
  · cases h

/-- `write_buffer_if_needed` throws only what `write_all` throws. -/
theorem writeBufferIfNeeded_failure {w w' : BinaryLogWriter} {force : Bool} {e : Exception}
    (h : w.writeBufferIfNeeded force = (.error e, w')) : e.IsWriteFailure := by
  unfold writeBufferIfNeeded at h
  split_ifs at h
  · cases h
  · rcases hwrite : writeAll w.out w.buffer w.path with ⟨e' | ⟨⟩, out⟩
    · rw [hwrite] at h
      cases h
      exact writeAll_failure hwrite
    · rw [hwrite] at h
      cases h

/-! ## What one call preserves -/

variable {options : WriterOptions} {w : BinaryLogWriter}

/-- The largest number of bytes that a call can find or put in the buffer. -/
def bufferBound (options : WriterOptions) : ℕ :=
  (effectiveOptions options).flushThresholdBytes.toNat + kMaxPayloadBytes + 48

/-- An `append` that does not report a failed write leaves less than the threshold. -/
theorem append_below (h : BelowThreshold options w) {event : Event}
    (hwrite : ∀ e, (w.append event).1 = .error e → ¬ e.IsWriteFailure) :
    BelowThreshold options (w.append event).2 := by
  rcases append_cases w event with ⟨_, heq⟩ | ⟨_, _, heq⟩ | ⟨hopen, hsmall, _⟩
  · rwa [heq]
  · rwa [heq]
  · rw [append_eq hopen hsmall] at hwrite ⊢
    rcases (w.buffered event).writeBufferIfNeeded_cases (w.writesOut event) with
      ⟨hempty, heq⟩ | ⟨_, _, heq⟩ | ⟨_, _, e, heq⟩
    · rw [heq]
      refine ⟨h.stored, h.reserved, ?_⟩
      by_contra hlong
      -- A buffer that has reached the threshold is written out, and it is not empty.
      have hforce : w.writesOut event = true := by
        rw [writesOut, h.stored]
        simp [Nat.not_lt.mp hlong]
      rw [hempty hforce] at hlong
      exact hlong (effectiveOptions_pos options)
    · rw [heq]
      exact ⟨h.stored, h.reserved, effectiveOptions_pos options⟩
    · rw [heq] at hwrite
      exact absurd (writeBufferIfNeeded_failure heq) (hwrite e rfl)

/-- A `flush` that does not report a failed write leaves less than the threshold. -/
theorem flush_below (h : BelowThreshold options w)
    (hwrite : ∀ e, w.flush.1 = .error e → ¬ e.IsWriteFailure) :
    BelowThreshold options w.flush.2 := by
  rcases w.flush_cases with ⟨_, heq⟩ | ⟨_, e, w₁, hbuffer, heq⟩ | ⟨_, w₁, result, hbuffer, heq, _⟩
  · rwa [heq]
  · rw [heq] at hwrite
    exact absurd (writeBufferIfNeeded_failure hbuffer) (hwrite e rfl)
  · rw [heq]
    rcases w.writeBufferIfNeeded_cases true with ⟨_, hok⟩ | ⟨_, _, hok⟩ | ⟨_, _, e, herror⟩
    · cases hbuffer.symm.trans hok
      exact ⟨h.stored, h.reserved, h.below⟩
    · cases hbuffer.symm.trans hok
      exact ⟨h.stored, h.reserved, effectiveOptions_pos options⟩
    · cases hbuffer.symm.trans herror

theorem call_below (h : BelowThreshold options w) {c : WriterCall} (hclose : c ≠ .close)
    (hwrite : ∀ e, (w.call c).1 = .error e → ¬ e.IsWriteFailure) :
    BelowThreshold options (w.call c).2 := by
  cases c with
  | append event => exact append_below h hwrite
  | flush => exact flush_below h hwrite
  | close => exact absurd rfl hclose

/-- During a call the buffer holds at most one record more. -/
theorem length_buffersDuring (h : BelowThreshold options w) {c : WriterCall}
    (hafter : BelowThreshold options (w.call c).2) :
    ∀ buffer ∈ w.buffersDuring c, buffer.length < bufferBound options := by
  have hbelow := h.below
  have hbelow' := hafter.below
  unfold bufferBound
  intro buffer hbuffer
  cases c with
  | append event =>
    simp only [buffersDuring] at hbuffer
    split_ifs at hbuffer with hchecks
    · obtain rfl : buffer = w.buffer := List.mem_singleton.mp hbuffer
      omega
    · have hsmall : event.payload.length ≤ kMaxPayloadBytes := by
        by_contra hlarge
        exact hchecks (Or.inr (Nat.not_le.mp hlarge))
      simp only [List.mem_cons, List.not_mem_nil, or_false] at hbuffer
      rcases hbuffer with rfl | rfl | rfl | rfl
      · omega
      · simp only [List.length_append, encodeRecordHeader_eq, RecordHeader.length_toBytes]
        omega
      · simp only [List.length_append, encodeRecordHeader_eq, RecordHeader.length_toBytes]
        omega
      · omega
  | flush | close =>
    simp only [buffersDuring, List.mem_cons, List.not_mem_nil, or_false] at hbuffer
    rcases hbuffer with rfl | rfl <;> omega

/-! ## Whole runs -/

/-- Along a run in which no write fails the buffer keeps its bound. -/
theorem length_buffersAlong (h : BelowThreshold options w) {calls : List WriterCall}
    (hclose : .close ∉ calls)
    (hwrite : ∀ e, .error e ∈ (w.run calls).1 → ¬ e.IsWriteFailure) :
    ∀ buffer ∈ w.buffersAlong calls, buffer.length < bufferBound options := by
  induction calls generalizing w with
  | nil =>
    intro buffer hbuffer
    obtain rfl : buffer = w.buffer := List.mem_singleton.mp hbuffer
    have := h.below
    unfold bufferBound
    omega
  | cons c calls ih =>
    simp only [List.mem_cons, not_or] at hclose
    have hafter : BelowThreshold options (w.call c).2 :=
      call_below h (Ne.symm hclose.1) (fun e he => hwrite e (by simp [run, he]))
    intro buffer hbuffer
    rcases List.mem_append.mp hbuffer with hduring | hrest
    · exact length_buffersDuring h hafter buffer hduring
    · exact ih hafter hclose.2 (fun e he => hwrite e (by simp [run, he])) buffer hrest

/-- Unless the sum of the constructor wraps, it is the bound. -/
theorem reserveRequest_eq (h : bufferBound options < 2 ^ 64) :
    (reserveRequest options).toNat = bufferBound options := by
  unfold reserveRequest bufferBound at *
  have hpayload : (UInt64.ofNat kMaxPayloadBytes).toNat = kMaxPayloadBytes := by decide
  have hheader : kRecordHeaderSize.toUInt64.toNat = 48 := rfl
  rw [UInt64.toNat_add, UInt64.toNat_add, hpayload, hheader]
  omega

/-- If the sum of the constructor wraps, less than one record of the largest size is reserved. -/
theorem reserveRequest_lt (h : 2 ^ 64 ≤ bufferBound options) :
    (reserveRequest options).toNat < kMaxPayloadBytes + 48 := by
  have hthreshold := (effectiveOptions options).flushThresholdBytes.toNat_lt
  unfold reserveRequest bufferBound at *
  have hpayload : (UInt64.ofNat kMaxPayloadBytes).toNat = kMaxPayloadBytes := by decide
  have hheader : kRecordHeaderSize.toUInt64.toNat = 48 := rfl
  rw [UInt64.toNat_add, UInt64.toNat_add, hpayload, hheader]
  omega

/-- An `append` on a device that does not fail returns normally, and puts its record into the
buffer. -/
theorem append_moments (hopen : w.closed = false) (hhealthy : w.out.Healthy) {event : Event}
    (hsmall : event.payload.length ≤ kMaxPayloadBytes) :
    (w.run [.append event]).1 = [.ok ()] ∧
    ∃ buffer ∈ w.buffersAlong [.append event],
      buffer.length = w.buffer.length + 48 + event.payload.length := by
  obtain ⟨w', hwrite, _⟩ :=
    writeBufferIfNeeded_healthy (w := w.buffered event) hhealthy (w.writesOut event)
  have happend : w.append event = (.ok (), w') := by rw [append_eq hopen hsmall, hwrite]
  constructor
  · simp only [run, call, happend]
  · refine ⟨w.buffer ++ encodeRecordHeader event ++ event.payload, ?_, ?_⟩
    · have hchecks : ¬ (w.closed = true ∨ event.payload.length > kMaxPayloadBytes) := by
        rintro (hclosed | hlarge)
        · exact absurd (hopen.symm.trans hclosed) Bool.false_ne_true
        · omega
      simp only [buffersAlong, buffersDuring, if_neg hchecks]
      simp
    · simp only [List.length_append, encodeRecordHeader_eq, RecordHeader.length_toBytes]

/-- **When the reserved room suffices.** If the constructor can reserve what it asks for, the buffer
never grows beyond it, in every run in which no write fails, exactly if the sum of the threshold, the
largest payload and the record header does not wrap. -/
theorem reserveSuffices_iff (hreserve : ¬ reserveRequest options > vectorMaxSize) :
    ReserveSuffices options ↔
      (effectiveOptions options).flushThresholdBytes.toNat + kMaxPayloadBytes + 48 < 2 ^ 64 := by
  change _ ↔ bufferBound options < 2 ^ 64
  constructor
  · intro hsuffices
    by_contra hwraps
    have hdevice := Device.reliable_healthy
    obtain ⟨w, hnew, hhealthy⟩ := new_healthy "log" 0 hdevice hreserve
    obtain ⟨hbelow, hopen, _⟩ := belowThreshold_new hnew
    -- One record of the largest size is enough.
    obtain ⟨payload, hlength⟩ : ∃ payload : List UInt8, payload.length = kMaxPayloadBytes :=
      ⟨_, List.length_replicate (a := 0)⟩
    have hsmall : ({ payload } : Event).payload.length ≤ kMaxPayloadBytes := hlength.le
    obtain ⟨hresults, buffer, hbuffer, hsize⟩ := append_moments hopen hhealthy hsmall
    have hfits := hsuffices "log" _ 0 w hnew [.append { payload }] (by simp)
      (by simp [hresults]) buffer hbuffer
    have hshort := reserveRequest_lt (Nat.not_lt.mp hwraps)
    rw [hbelow.reserved] at hfits
    simp only [hlength] at hsize
    omega
  · intro hbound path device now w hnew calls hclose hwrite buffer hbuffer
    obtain ⟨hbelow, _⟩ := belowThreshold_new hnew
    have hshort := length_buffersAlong hbelow hclose hwrite buffer hbuffer
    rw [hbelow.reserved, reserveRequest_eq hbound]
    exact hshort.le

/-- The default options. -/
theorem reserveSuffices_default : ReserveSuffices {} :=
  (reserveSuffices_iff (by decide +kernel)).mpr (by decide +kernel)

/-- The smallest threshold for which the sum of the constructor wraps. -/
def wrappingOptions : WriterOptions := { flushThresholdBytes := 0xFFFFFFFFFEFFFFD0 }

/-- With this threshold nothing is reserved, and the first event is already too long. -/
theorem reserves_nothing :
    (∃ device w, new "log" wrappingOptions device 0 = .ok w ∧ w.reserved = 0 ∧
      (w.run [.append {}]).1 = [.ok ()] ∧
      ∃ buffer ∈ w.buffersAlong [.append {}], buffer.length = 48) ∧
    ¬ ReserveSuffices wrappingOptions := by
  have hdevice := Device.reliable_healthy
  obtain ⟨w, hnew, hhealthy⟩ : ∃ w, new "log" wrappingOptions .reliable 0 = .ok w ∧
      w.out.Healthy := new_healthy "log" 0 hdevice (by decide +kernel)
  obtain ⟨hbelow, hopen, hempty⟩ := belowThreshold_new hnew
  have hreserved : w.reserved = 0 := by
    rw [hbelow.reserved]
    decide +kernel
  have hsmall : ({} : Event).payload.length ≤ kMaxPayloadBytes := Nat.zero_le _
  obtain ⟨hresults, buffer, hbuffer, hsize⟩ := append_moments hopen hhealthy hsmall
  rw [hempty] at hsize
  refine ⟨⟨_, w, hnew, hreserved, hresults, buffer, hbuffer, hsize⟩, ?_⟩
  intro hsuffices
  have hfits := hsuffices "log" _ 0 w hnew [.append {}] (by simp) (by simp [hresults]) buffer hbuffer
  rw [hreserved, hsize] at hfits
  exact absurd hfits (by decide)

end BinaryLogWriter

end Hpblr
