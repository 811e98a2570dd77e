import Hpblr.BinaryLog.Reserve
import Hpblr.BinaryLog.WriterRefinement

/-!
# How often the writer uses the stream

Every use of the stream by a call, as a list of operations. Between two writes of the buffer the
records of at least a threshold of bytes have come in, unless the caller asks for a flush. So the
number of operations is settled by the size of the records, and a device that carries out that many
cannot make the writer fail.
-/

namespace Hpblr

/-! ## Operations of a stream -/

/-- An operation of an output stream. The `close` of the stream synchronizes once more. -/
inductive StreamOperation where
  | write (data : List UInt8)
  | sync
  deriving DecidableEq

def StreamOperation.isWrite : StreamOperation → Bool
  | .write _ => true
  | .sync => false

namespace OFStream

/-- One operation. -/
def perform (out : OFStream) : StreamOperation → OFStream
  | .write data => out.write data
  | .sync => out.sync

/-- Operations one after the other. -/
def carryOut (out : OFStream) (operations : List StreamOperation) : OFStream :=
  operations.foldl perform out

theorem carryOut_append (out : OFStream) (operations more : List StreamOperation) :
    out.carryOut (operations ++ more) = (out.carryOut operations).carryOut more :=
  List.foldl_append

/-- A stream that has failed ignores what is asked of it. -/
theorem sync_failed {out : OFStream} (hfailed : out.failed = true) : out.sync = out :=
  if_pos hfailed

/-- An operation of a good stream needs the device at most once, and then the device settles its
fate. -/
theorem perform_good {out : OFStream} (hgood : out.failed = false) (operation : StreamOperation) :
    ((out.perform operation).failed = false ∧ (out.perform operation).device = out.device) ∨
      ((out.perform operation).failed = (out.device 0).isSome ∧
        (out.perform operation).device = out.device.next) := by
  have htransfer (data : List UInt8) : (out.transfer data).failed = (out.device 0).isSome ∧
      (out.transfer data).device = out.device.next := by
    refine ⟨?_, out.transfer_device data⟩
    cases hdevice : out.device 0 with
    | none => exact (transfer_none hdevice data).1.trans hgood
    | some k => exact (transfer_some hdevice data).1
  cases operation with
  | write data =>
    rw [perform, write, hgood, if_neg Bool.false_ne_true]
    by_cases hkeeps : out.Keeps data
    · rw [if_pos hkeeps]
      exact Or.inl ⟨rfl, rfl⟩
    · rw [if_neg hkeeps]
      exact Or.inr (htransfer data)
  | sync =>
    rw [perform, sync, hgood, if_neg Bool.false_ne_true]
    exact Or.inr (htransfer [])

/-- If the device carries out that many operations, the stream stays good. -/
theorem carryOut_good {out : OFStream} (hgood : out.failed = false)
    {operations : List StreamOperation}
    (hdevice : ∀ n < operations.length, out.device n = none) :
    (out.carryOut operations).failed = false := by
  induction operations generalizing out with
  | nil => exact hgood
  | cons operation operations ih =>
    rcases perform_good hgood operation with ⟨hstays, hsame⟩ | ⟨hstays, hnext⟩
    · refine ih hstays fun n hn => ?_
      rw [hsame]
      exact hdevice n (hn.trans (Nat.lt_succ_self _))
    · rw [hdevice 0 (Nat.succ_pos _)] at hstays
      refine ih hstays fun n hn => ?_
      rw [hnext]
      exact hdevice (n + 1) (Nat.succ_lt_succ hn)

/-- No operation changes the size of the buffer. -/
theorem bufferSize_carryOut (out : OFStream) (operations : List StreamOperation) :
    (out.carryOut operations).device.bufferSize = out.device.bufferSize := by
  induction operations generalizing out with
  | nil => rfl
  | cons operation operations ih =>
    refine (ih (out.perform operation)).trans ?_
    by_cases hfailed : out.failed = true
    · cases operation with
      | write data => rw [perform, write, if_pos hfailed]
      | sync => rw [perform, sync_failed hfailed]
    · rcases perform_good (by simpa using hfailed) operation with ⟨_, hsame⟩ | ⟨_, hnext⟩
      · rw [hsame]
      · rw [hnext]
        rfl

end OFStream

namespace BinaryLogWriter

/-! ## The operations of a call -/

/-- The operations of `write_buffer_if_needed`. -/
def bufferOperations (w : BinaryLogWriter) (force : Bool) : List StreamOperation :=
  if !force || w.buffer.isEmpty then [] else [.write w.buffer]

/-- The operations of a call, as long as the stream does not fail. -/
def operations (w : BinaryLogWriter) : WriterCall → List StreamOperation
  | .append event =>
    if w.closed ∨ event.payload.length > kMaxPayloadBytes then []
    else (w.buffered event).bufferOperations (w.writesOut event)
  | .flush => if w.closed then [] else w.bufferOperations true ++ [.sync]
  | .close => if w.closed then [] else w.bufferOperations true ++ [.sync, .sync]

/-- The operations of consecutive calls. -/
def operationsAlong (w : BinaryLogWriter) : List WriterCall → List StreamOperation
  | [] => []
  | c :: calls => w.operations c ++ (w.call c).2.operationsAlong calls

variable {w w' : BinaryLogWriter} {options : WriterOptions} {calls : List WriterCall}

theorem writeBufferIfNeeded_out (w : BinaryLogWriter) (force : Bool) :
    (w.writeBufferIfNeeded force).2.out = w.out.carryOut (w.bufferOperations force) := by
  unfold bufferOperations writeBufferIfNeeded
  split
  · rfl
  · next hwrite =>
    have hbuffer : w.buffer.isEmpty = false := by
      simp only [Bool.or_eq_true, not_or, Bool.not_eq_true] at hwrite
      exact hwrite.2
    unfold writeAll
    rw [hbuffer, if_neg Bool.false_ne_true]
    by_cases hfailed : (w.out.write w.buffer).failed = true
    · rw [if_pos hfailed]
      rfl
    · rw [if_neg hfailed]
      rfl

theorem operations_closed (hclosed : w.closed = true) (c : WriterCall) : w.operations c = [] := by
  cases c with
  | append event => exact if_pos (Or.inl hclosed)
  | flush => exact if_pos hclosed
  | close => exact if_pos hclosed

theorem operations_append (hopen : w.closed = false) {event : Event}
    (hsmall : event.payload.length ≤ kMaxPayloadBytes) :
    w.operations (.append event) = (w.buffered event).bufferOperations (w.writesOut event) :=
  if_neg (by simp [hopen, hsmall])

theorem operations_flush (hopen : w.closed = false) :
    w.operations .flush = w.bufferOperations true ++ [.sync] :=
  if_neg (by simp [hopen])

theorem operations_close (hopen : w.closed = false) :
    w.operations .close = w.operations .flush ++ [.sync] := by
  rw [operations_flush hopen, List.append_assoc]
  exact if_neg (by simp [hopen])

/-- An exception of `flush` comes from a stream that has failed. -/
theorem flush_failed {e : Exception} (h : w.flush = (.error e, w')) : w'.out.failed = true := by
  by_contra hgood
  obtain ⟨_, hok, _⟩ := flush_good h (by simpa using hgood)
  cases hok

theorem flush_out (hopen : w.closed = false) :
    w.flush.2.out = w.out.carryOut (w.operations .flush) := by
  have hwrite := w.writeBufferIfNeeded_out true
  rw [operations_flush hopen, OFStream.carryOut_append, ← hwrite]
  rcases w.flush_cases with ⟨hclosed, _⟩ | ⟨_, e, w₁, hbuffer, heq⟩ | ⟨_, w₁, _, hbuffer, heq, _⟩
  · rw [hopen] at hclosed
    cases hclosed
  · have hfailed := flush_failed heq
    rw [heq, hbuffer]
    exact (OFStream.sync_failed hfailed).symm
  · rw [heq, hbuffer]
    rfl

theorem call_closed (hclosed : w.closed = true) (c : WriterCall) : (w.call c).2 = w := by
  cases c with
  | append event =>
    rcases append_cases w event with ⟨_, heq⟩ | ⟨hopen, _⟩ | ⟨hopen, _⟩
    · rw [call, heq]
    · rw [hopen] at hclosed
      cases hclosed
    · rw [hopen] at hclosed
      cases hclosed
  | flush => rw [call, flush, if_pos hclosed]
  | close => rw [call, close, if_pos hclosed]

/-- The stream after a call has seen its operations. Those that the code skips after a failure would
have no effect. -/
theorem call_out (w : BinaryLogWriter) (c : WriterCall) :
    (w.call c).2.out = w.out.carryOut (w.operations c) := by
  by_cases hclosed : w.closed = true
  · rw [operations_closed hclosed, call_closed hclosed]
    rfl
  · have hopen : w.closed = false := by simpa using hclosed
    cases c with
    | append event =>
      rcases append_cases w event with ⟨h, _⟩ | ⟨_, hlarge, heq⟩ | ⟨_, hsmall, _⟩
      · exact absurd h hclosed
      · rw [call, heq]
        have hnone : w.operations (.append event) = [] := if_pos (Or.inr hlarge)
        rw [hnone]
        rfl
      · rw [operations_append hopen hsmall, call, append_eq hopen hsmall, writeBufferIfNeeded_out]
        rfl
    | flush => exact flush_out hopen
    | close =>
      have hflush := flush_out hopen
      rw [operations_close hopen, OFStream.carryOut_append, ← hflush, call]
      rcases w.close_cases with ⟨h, _⟩ | ⟨_, e, w₁, h, heq⟩ | ⟨_, e, w₁, h, _, heq⟩ | ⟨_, w₁, h, _, heq⟩
      · exact absurd h hclosed
      · rw [heq, h]
        exact (OFStream.sync_failed (flush_failed h)).symm
      · rw [heq, h]
        rfl
      · rw [heq, h]
        rfl

theorem bufferSize_call (w : BinaryLogWriter) (c : WriterCall) :
    (w.call c).2.out.device.bufferSize = w.out.device.bufferSize := by
  rw [call_out, OFStream.bufferSize_carryOut]

/-- The stream after a run has seen the operations of its calls. -/
theorem run_out (w : BinaryLogWriter) (calls : List WriterCall) :
    (w.run calls).2.out = w.out.carryOut (w.operationsAlong calls) := by
  induction calls generalizing w with
  | nil => rfl
  | cons c calls ih =>
    rw [operationsAlong, OFStream.carryOut_append, ← call_out]
    exact ih (w.call c).2

/-! ## Counting writes -/

/-- The number of writes among some operations. -/
def writeCount (operations : List StreamOperation) : ℕ :=
  operations.countP StreamOperation.isWrite

/-- The number of calls that write the buffer out whatever its length. -/
def forcedWrites (calls : List WriterCall) : ℕ :=
  calls.countP (fun c => c = .flush ∨ c = .close)

/-- How often calls synchronize the stream at most. -/
def syncCount (calls : List WriterCall) : ℕ := calls.countP (· = .flush) + 2 * calls.countP (· = .close)

/-- How many writes these events cause on their own at most: with a flush on each event one for each
of them, and otherwise one for each threshold of bytes in their records. -/
def eventWrites (options : WriterOptions) (events : List Event) : ℕ :=
  if options.flushOnEachEvent then events.length
  else min events.length
    ((encodeRecords events).length / (effectiveOptions options).flushThresholdBytes.toNat)

theorem writeCount_append (operations more : List StreamOperation) :
    writeCount (operations ++ more) = writeCount operations + writeCount more :=
  List.countP_append

/-- The buffer is written out at most once, and only if it is asked for. -/
theorem writeCount_bufferOperations (w : BinaryLogWriter) (force : Bool) :
    writeCount (w.bufferOperations force) ≤ if force then 1 else 0 := by
  unfold bufferOperations
  cases force with
  | false => exact Nat.le_refl 0
  | true =>
    split
    · exact Nat.zero_le 1
    · exact Nat.le_refl 1

theorem call_options (w : BinaryLogWriter) (c : WriterCall) : (w.call c).2.options = w.options := by
  have hwrite (v : BinaryLogWriter) (force : Bool) :
      (v.writeBufferIfNeeded force).2.options = v.options := by
    rcases v.writeBufferIfNeeded_cases force with ⟨_, h⟩ | ⟨_, _, h⟩ | ⟨_, _, e, h⟩ <;> rw [h]
  have hflush : w.flush.2.options = w.options := by
    have hbuffer := hwrite w true
    rcases w.flush_cases with ⟨_, h⟩ | ⟨_, e, w₁, h₁, h⟩ | ⟨_, w₁, result, h₁, h, _⟩
    · rw [h]
    · rw [h₁] at hbuffer
      rw [h]
      exact hbuffer
    · rw [h₁] at hbuffer
      rw [h]
      exact hbuffer
  cases c with
  | append event =>
    rcases append_cases w event with ⟨_, h⟩ | ⟨_, _, h⟩ | ⟨_, _, force, h⟩
    · rw [call, h]
    · rw [call, h]
    · rw [call, h, hwrite]
      rfl
  | flush => exact hflush
  | close =>
    rcases w.close_cases with ⟨_, h⟩ | ⟨_, e, w₁, h₁, h⟩ | ⟨_, e, w₁, h₁, _, h⟩ | ⟨_, w₁, h₁, _, h⟩
    · rw [call, h]
    all_goals
      rw [h₁] at hflush
      rw [call, h]
      exact hflush

/-- A closed writer uses the stream no more. -/
theorem run_closed (hclosed : w.closed = true) (calls : List WriterCall) :
    w.operationsAlong calls = [] ∧ (w.run calls).2 = w := by
  induction calls with
  | nil => exact ⟨rfl, rfl⟩
  | cons c calls ih =>
    have hrun : (w.run (c :: calls)).2 = ((w.call c).2.run calls).2 := rfl
    rw [operationsAlong, operations_closed hclosed, hrun, call_closed hclosed]
    exact ih

theorem length_buffered (w : BinaryLogWriter) (event : Event) :
    (w.buffered event).buffer.length = w.buffer.length + (encodeRecords [event]).length := by
  rw [encodeRecords_singleton, List.length_append]
  simp only [buffered, List.length_append]
  omega

/-- `flush` leaves the buffer as it is, or empty. -/
theorem length_buffer_flush (w : BinaryLogWriter) :
    w.flush.2.buffer.length ≤ w.buffer.length := by
  have hbuffer : (w.writeBufferIfNeeded true).2.buffer.length ≤ w.buffer.length := by
    rcases w.writeBufferIfNeeded_cases true with ⟨_, h⟩ | ⟨_, _, h⟩ | ⟨_, _, e, h⟩ <;> simp [h]
  rcases w.flush_cases with ⟨_, h⟩ | ⟨_, e, w₁, h₁, h⟩ | ⟨_, w₁, result, h₁, h, _⟩
  · rw [h]
  · rw [h₁] at hbuffer
    rwa [h]
  · rw [h₁] at hbuffer
    rwa [h]

/-- The bytes that wait in the buffer, unless the stream has failed. -/
def waiting (w : BinaryLogWriter) : ℕ := if w.out.failed then 0 else w.buffer.length

theorem waiting_le (w : BinaryLogWriter) : w.waiting ≤ w.buffer.length := by
  unfold waiting
  split <;> omega

/-- A write that `append` decides on takes at least a threshold of bytes. -/
theorem append_writes (heach : w.options.flushOnEachEvent = false) (hopen : w.closed = false)
    {event : Event} (hsmall : event.payload.length ≤ kMaxPayloadBytes) :
    w.options.flushThresholdBytes.toNat * writeCount (w.operations (.append event)) +
        (w.append event).2.waiting ≤
      w.buffer.length + (encodeRecords [event]).length := by
  have hlength := w.length_buffered event
  have hrecord : 0 < (encodeRecords [event]).length :=
    List.length_pos_iff.mpr (fun h => List.cons_ne_nil _ _ (encodeRecords_eq_nil h))
  have hcount := (w.buffered event).writeCount_bufferOperations (w.writesOut event)
  rw [operations_append hopen hsmall, append_eq hopen hsmall]
  cases hforce : w.writesOut event with
  | false =>
    -- The record stays in the buffer.
    rw [hforce, if_neg Bool.false_ne_true] at hcount
    have hkept : (w.buffered event).writeBufferIfNeeded false = (.ok (), w.buffered event) := rfl
    have hwaiting := (w.buffered event).waiting_le
    rw [Nat.le_zero.mp hcount, hkept, Nat.mul_zero]
    change 0 + (w.buffered event).waiting ≤ _
    omega
  | true =>
    have hfull : w.options.flushThresholdBytes.toNat ≤ (w.buffered event).buffer.length := by
      rw [writesOut, heach, Bool.false_or] at hforce
      exact of_decide_eq_true hforce
    have hempty : ((w.buffered event).writeBufferIfNeeded true).2.waiting = 0 := by
      unfold waiting
      rcases (w.buffered event).writeBufferIfNeeded_cases true with ⟨hnil, _⟩ | ⟨_, _, h⟩ |
        ⟨_, hfailed, e, h⟩
      · rw [hnil rfl] at hlength
        simp only [List.length_nil] at hlength
        omega
      · rw [h]
        simp
      · rw [h]
        simp [hfailed]
    rw [hforce, if_pos rfl] at hcount
    have hone := Nat.mul_le_mul_left w.options.flushThresholdBytes.toNat hcount
    rw [hempty]
    omega

/-- A call that is no `append` writes at most once, and puts nothing into the buffer. -/
theorem forced_writes {c : WriterCall} (hc : c = .flush ∨ c = .close) :
    writeCount (w.operations c) ≤ 1 ∧ (w.call c).2.buffer.length ≤ w.buffer.length := by
  by_cases hclosed : w.closed = true
  · rw [operations_closed hclosed, call_closed hclosed]
    exact ⟨Nat.zero_le 1, Nat.le_refl _⟩
  · have hopen : w.closed = false := by simpa using hclosed
    have hflush : writeCount (w.operations .flush) ≤ 1 := by
      rw [operations_flush hopen, writeCount_append]
      exact w.writeCount_bufferOperations true
    have hbuffer := w.length_buffer_flush
    rcases hc with rfl | rfl
    · exact ⟨hflush, hbuffer⟩
    · constructor
      · rw [operations_close hopen, writeCount_append]
        exact hflush
      · rw [call]
        rcases w.close_cases with ⟨_, h⟩ | ⟨_, e, w₁, h₁, h⟩ | ⟨_, e, w₁, h₁, _, h⟩ | ⟨_, w₁, h₁, _, h⟩
        · rw [h]
        all_goals
          rw [h₁] at hbuffer
          rwa [h]

/-- What has to come in between two writes, with the waiting bytes as the potential. -/
theorem call_writes (heach : w.options.flushOnEachEvent = false) (c : WriterCall) :
    w.options.flushThresholdBytes.toNat * writeCount (w.operations c) + (w.call c).2.waiting ≤
      w.options.flushThresholdBytes.toNat * forcedWrites [c] + w.buffer.length +
        (encodeRecords (passedEvents [c])).length := by
  by_cases hforced : c = .flush ∨ c = .close
  · obtain ⟨hcount, hbuffer⟩ := forced_writes (w := w) hforced
    have hone : forcedWrites [c] = 1 := by rcases hforced with rfl | rfl <;> rfl
    have hwrites := Nat.mul_le_mul_left w.options.flushThresholdBytes.toNat hcount
    have hwaiting := (w.call c).2.waiting_le
    rw [hone]
    omega
  · obtain ⟨event, rfl⟩ : ∃ event, c = .append event := by
      cases c with
      | append event => exact ⟨event, rfl⟩
      | _ => exact absurd (by simp) hforced
    have hsame := w.waiting_le
    rcases append_cases w event with ⟨hclosed, heq⟩ | ⟨_, hlarge, heq⟩ | ⟨hopen, hsmall, _⟩
    · rw [operations_closed hclosed, call, heq]
      simp only [writeCount, List.countP_nil]
      omega
    · have hnone : w.operations (.append event) = [] := if_pos (Or.inr hlarge)
      rw [hnone, call, heq]
      simp only [writeCount, List.countP_nil]
      omega
    · have hpassed : passedEvents [.append event] = [event] := if_neg hsmall.not_gt
      have hwrites := append_writes heach hopen hsmall
      rw [hpassed]
      simp only [call]
      omega

/-- Every event causes at most one write. -/
theorem call_writes_le (w : BinaryLogWriter) (c : WriterCall) :
    writeCount (w.operations c) ≤ (passedEvents [c]).length + forcedWrites [c] := by
  by_cases hforced : c = .flush ∨ c = .close
  · have hone : forcedWrites [c] = 1 := by rcases hforced with rfl | rfl <;> rfl
    have hcount := (forced_writes (w := w) hforced).1
    omega
  · obtain ⟨event, rfl⟩ : ∃ event, c = .append event := by
      cases c with
      | append event => exact ⟨event, rfl⟩
      | _ => exact absurd (by simp) hforced
    rcases append_cases w event with ⟨hclosed, _⟩ | ⟨_, hlarge, _⟩ | ⟨hopen, hsmall, _⟩
    · rw [operations_closed hclosed]
      exact Nat.zero_le _
    · have hnone : w.operations (.append event) = [] := if_pos (Or.inr hlarge)
      rw [hnone]
      exact Nat.zero_le _
    · have hpassed : passedEvents [.append event] = [event] := if_neg hsmall.not_gt
      have hcount := (w.buffered event).writeCount_bufferOperations (w.writesOut event)
      rw [operations_append hopen hsmall, hpassed]
      refine hcount.trans ?_
      split
      · exact Nat.le_add_right 1 _
      · exact Nat.zero_le _

/-- A call synchronizes as often as it may. -/
theorem length_operations (w : BinaryLogWriter) (c : WriterCall) :
    (w.operations c).length ≤ writeCount (w.operations c) + syncCount [c] := by
  have hbuffer (v : BinaryLogWriter) (force : Bool) :
      (v.bufferOperations force).length = writeCount (v.bufferOperations force) := by
    unfold bufferOperations
    split <;> rfl
  by_cases hclosed : w.closed = true
  · rw [operations_closed hclosed]
    exact Nat.zero_le _
  · have hopen : w.closed = false := by simpa using hclosed
    have hflush : (w.operations .flush).length = writeCount (w.operations .flush) + 1 := by
      rw [operations_flush hopen, List.length_append, writeCount_append, hbuffer]
      rfl
    cases c with
    | append event =>
      by_cases hlarge : event.payload.length > kMaxPayloadBytes
      · have hnone : w.operations (.append event) = [] := if_pos (Or.inr hlarge)
        rw [hnone]
        exact Nat.zero_le _
      · rw [operations_append hopen (Nat.not_lt.mp hlarge), hbuffer]
        exact Nat.le_add_right _ _
    | flush => exact hflush.le
    | close =>
      rw [operations_close hopen, List.length_append, writeCount_append, hflush]
      exact Nat.le_refl _

/-! ## Whole runs -/

theorem passedEvents_cons (c : WriterCall) (calls : List WriterCall) :
    passedEvents (c :: calls) =
      passedEvents [c] ++ if c = .close then [] else passedEvents calls := by
  cases c with
  | append event =>
    simp only [passedEvents, reduceCtorEq, if_false]
    split <;> rfl
  | _ => rfl

theorem forcedWrites_append (calls more : List WriterCall) :
    forcedWrites (calls ++ more) = forcedWrites calls + forcedWrites more := List.countP_append

theorem syncCount_append (calls more : List WriterCall) :
    syncCount (calls ++ more) = syncCount calls + syncCount more := by
  simp only [syncCount, List.countP_append]
  omega

/-- The stream is good before each call. -/
def GoodBefore (w : BinaryLogWriter) (calls : List WriterCall) : Prop :=
  ∀ front c, front ++ [c] <+: calls → (w.run front).2.out.failed = false

theorem run_append (w : BinaryLogWriter) (calls more : List WriterCall) :
    (w.run (calls ++ more)).2 = ((w.run calls).2.run more).2 := by
  induction calls generalizing w with
  | nil => rfl
  | cons c calls ih => exact ih (w.call c).2

theorem goodBefore_of_good (hgood : (w.run calls).2.out.failed = false) : w.GoodBefore calls := by
  rintro front c ⟨rest, rfl⟩
  rw [List.append_assoc, run_append] at hgood
  exact good_of_run_good hgood

theorem GoodBefore.tail {c : WriterCall} (h : w.GoodBefore (c :: calls)) :
    (w.call c).2.GoodBefore calls := by
  intro front c' hfront
  exact h (c :: front) c' (List.cons_prefix_cons.mpr ⟨rfl, hfront⟩)

/-- Where the stream is good after `close`, the writer is closed. -/
theorem closed_of_close (hgood : w.close.2.out.failed = false) : w.close.2.closed = true := by
  have hclose : w.close = (w.close.1, w.close.2) := rfl
  rcases (close_good hclose hgood).2.2 with ⟨hclosed, heq⟩ | ⟨_, w₁, _, _, heq⟩
  · rw [heq]
    exact hclosed
  · rw [heq]

/-- The bounds on the writes of one call add up along a run. -/
theorem run_writes (hgood : w.GoodBefore calls) :
    writeCount (w.operationsAlong calls) ≤ (passedEvents calls).length + forcedWrites calls ∧
    (w.options.flushOnEachEvent = false →
      w.options.flushThresholdBytes.toNat * writeCount (w.operationsAlong calls) +
          (w.run calls).2.waiting ≤
        w.options.flushThresholdBytes.toNat * forcedWrites calls + w.buffer.length +
          (encodeRecords (passedEvents calls)).length) := by
  induction calls generalizing w with
  | nil =>
    have hsame := w.waiting_le
    refine ⟨Nat.zero_le _, fun _ => ?_⟩
    change _ * 0 + w.waiting ≤ _
    omega
  | cons c calls ih =>
    have hle := w.call_writes_le c
    have hforced := forcedWrites_append [c] calls
    rw [List.singleton_append] at hforced
    rw [operationsAlong, writeCount_append, hforced, passedEvents_cons]
    by_cases hnext : calls = []
    · subst hnext
      have hpassed : passedEvents [c] ++ (if c = .close then [] else passedEvents []) =
          passedEvents [c] := by
        split
        · exact List.append_nil _
        · exact List.append_nil _
      rw [hpassed]
      refine ⟨hle, fun heach => ?_⟩
      exact call_writes heach c
    · obtain ⟨c', rest, hcalls⟩ := List.exists_cons_of_ne_nil hnext
      have hbetween : (w.call c).2.out.failed = false :=
        hgood [c] c' (by rw [hcalls]; exact List.prefix_append [c, c'] rest)
      have hwaiting : (w.call c).2.waiting = (w.call c).2.buffer.length := by
        rw [waiting, hbetween, if_neg Bool.false_ne_true]
      have hrun : (w.run (c :: calls)).2 = ((w.call c).2.run calls).2 := rfl
      rw [hrun]
      by_cases hclose : c = .close
      · -- Behind a `close` there is nothing to write.
        have hclosed : (w.call c).2.closed = true := by
          subst hclose
          exact closed_of_close hbetween
        obtain ⟨hnone, hsame⟩ := run_closed hclosed calls
        rw [hnone, hsame, if_pos hclose, List.append_nil]
        refine ⟨hle.trans (by omega), fun heach => ?_⟩
        have hcall := call_writes heach c
        rw [Nat.mul_add, Nat.mul_add]
        simp only [writeCount, List.countP_nil] at hcall ⊢
        omega
      · obtain ⟨hrest, hbytes⟩ := ih hgood.tail
        rw [call_options] at hbytes
        rw [if_neg hclose]
        constructor
        · rw [List.length_append]
          omega
        · intro heach
          have hcall := call_writes heach c
          have htail := hbytes heach
          rw [encodeRecords_append, List.length_append, Nat.mul_add, Nat.mul_add]
          omega

theorem run_length_operations (w : BinaryLogWriter) (calls : List WriterCall) :
    (w.operationsAlong calls).length ≤ writeCount (w.operationsAlong calls) + syncCount calls := by
  induction calls generalizing w with
  | nil => exact Nat.le_refl 0
  | cons c calls ih =>
    have hcall := w.length_operations c
    have hrest := ih (w.call c).2
    have hsync := syncCount_append [c] calls
    rw [List.singleton_append] at hsync
    rw [operationsAlong, List.length_append, writeCount_append, hsync]
    omega

/-- What the constructor leaves: an empty buffer, a good stream, and a device that has carried out
at most two operations. -/
theorem new_stream {path : String} {device : Device} {now : UInt64}
    (h : new path options device now = .ok w) :
    w.options = effectiveOptions options ∧ w.buffer = [] ∧ w.closed = false ∧
      w.out.failed = false ∧ ∃ m ≤ 2, w.out.device = device.after m := by
  obtain ⟨hbelow, hopen, hempty⟩ := belowThreshold_new h
  refine ⟨hbelow.stored, hempty, hopen, (refines_new h).2, ?_⟩
  unfold new at h
  simp only at h
  split_ifs at h with hopened hreserve
  simp only [writeFileHeader, encodeFileHeader_eq, length_fileHeader] at h
  rw [if_neg (by simp)] at h
  have hheader : (fileHeader 0 now 0).isEmpty = false := by
    simp [fileHeader, fileHeaderBody, kFileMagic]
  have hgood : (OFStream.open device).failed = false := by simpa using hopened
  rcases hwrite : writeAll (OFStream.open device) (fileHeader 0 now 0) path with ⟨e | u, out⟩
  · rw [hwrite] at h
    cases h
  · rw [hwrite] at h
    obtain ⟨rfl, _⟩ := writeAll_ok hheader hwrite
    cases h
    rcases OFStream.perform_good hgood (.write (fileHeader 0 now 0)) with ⟨_, hsame⟩ | ⟨_, hnext⟩
    · exact ⟨1, by omega, hsame⟩
    · exact ⟨2, le_rfl, hnext⟩

/-- The bytes of records grow with the events. -/
theorem eventWrites_mono {events more : List Event} (h : events <+: more) :
    eventWrites options events ≤ eventWrites options more := by
  obtain ⟨rest, rfl⟩ := h
  unfold eventWrites
  rw [encodeRecords_append, List.length_append, List.length_append]
  split
  · omega
  · have hbytes := Nat.div_le_div_right (c := (effectiveOptions options).flushThresholdBytes.toNat)
      (Nat.le_add_right (encodeRecords events).length (encodeRecords rest).length)
    omega

/-- The writes along a run of a new writer that are not asked for. -/
theorem writes_le (hnew : w.options = effectiveOptions options) (hempty : w.buffer = [])
    (hgood : w.GoodBefore calls) :
    writeCount (w.operationsAlong calls) ≤
      eventWrites options (passedEvents calls) + forcedWrites calls := by
  obtain ⟨hle, hbytes⟩ := run_writes hgood
  have heach : w.options.flushOnEachEvent = options.flushOnEachEvent := by
    rw [hnew]
    unfold effectiveOptions
    split <;> rfl
  unfold eventWrites
  by_cases hflush : options.flushOnEachEvent = true
  · rw [if_pos hflush]
    exact hle
  · have hthreshold := hbytes (by rw [heach]; simpa using hflush)
    rw [hnew, hempty] at hthreshold
    rw [if_neg hflush]
    have hpos := effectiveOptions_pos options
    have hdiv : writeCount (w.operationsAlong calls) - forcedWrites calls ≤
        (encodeRecords (passedEvents calls)).length /
          (effectiveOptions options).flushThresholdBytes.toNat := by
      rw [Nat.le_div_iff_mul_le hpos, Nat.sub_mul, Nat.mul_comm, Nat.mul_comm (forcedWrites calls)]
      simp only [List.length_nil] at hthreshold
      omega
    omega

/-- An event with ten bytes of payload. -/
def shortEvent : Event := { payload := List.replicate 10 0 }

/-- **Batching.** In every run on a stream that does not fail, the stream sees exactly the listed
operations. The writes among them are at most those that the caller asks for by `flush` and `close`,
and behind them one for each threshold of bytes in the records, or for each event with a flush on
each event. -/
theorem writes_batched {path : String} {device : Device} {now : UInt64}
    (hnew : new path options device now = .ok w) (hgood : (w.run calls).2.out.failed = false) :
    (w.run calls).2.out = w.out.carryOut (w.operationsAlong calls) ∧
    writeCount (w.operationsAlong calls) ≤
      eventWrites options (passedEvents calls) + forcedWrites calls ∧
    (w.operationsAlong calls).length ≤
      eventWrites options (passedEvents calls) + forcedWrites calls + syncCount calls := by
  obtain ⟨hoptions, hempty, _⟩ := new_stream hnew
  have hwrites := writes_le hoptions hempty (goodBefore_of_good hgood)
  have hlength := w.run_length_operations calls
  exact ⟨w.run_out calls, hwrites, by omega⟩

/-- Three records of 58 bytes with a threshold of 100: the second one is written with the first one,
and `close` writes the third one. -/
theorem writes_batched_three : ∃ w, new "log" { flushThresholdBytes := 100 } .reliable 0 = .ok w ∧
    writeCount (w.operationsAlong (List.replicate 3 (.append shortEvent) ++ [.close])) = 2 ∧
    writeCount (w.operationsAlong (List.replicate 3 (.append shortEvent) ++ [.close])) ≤ 1 + 1 := by
  obtain ⟨w, hnew, hgood, hevents, hforced, hcount⟩ : ∃ w,
      new "log" { flushThresholdBytes := 100 } .reliable 0 = .ok w ∧
      (w.run (List.replicate 3 (.append shortEvent) ++ [.close])).2.out.failed = false ∧
      eventWrites { flushThresholdBytes := 100 }
        (passedEvents (List.replicate 3 (.append shortEvent) ++ [.close])) = 1 ∧
      forcedWrites (List.replicate 3 (.append shortEvent) ++ [.close]) = 1 ∧
      writeCount (w.operationsAlong (List.replicate 3 (.append shortEvent) ++ [.close])) = 2 :=
    ⟨_, rfl, by decide +kernel, by decide +kernel, by decide +kernel, by decide +kernel⟩
  have hwrites := (writes_batched hnew hgood).2.1
  rw [hevents, hforced] at hwrites
  exact ⟨w, hnew, hcount, hwrites⟩

/-! ## A device that carries out enough operations -/

theorem passedEvents_mono {more : List WriterCall} (h : calls <+: more) :
    passedEvents calls <+: passedEvents more := by
  induction calls generalizing more with
  | nil => exact List.nil_prefix
  | cons c calls ih =>
    obtain ⟨rest, rfl⟩ := h
    rw [List.cons_append, passedEvents_cons c calls, passedEvents_cons c (calls ++ rest),
      List.prefix_append_right_inj]
    split
    · exact List.prefix_rfl
    · exact ih (List.prefix_append calls rest)

/-- A stream that is good after some calls is good before each of these and one more. -/
theorem goodBefore_concat (hgood : (w.run calls).2.out.failed = false) (c : WriterCall) :
    w.GoodBefore (calls ++ [c]) := by
  intro front c' hfront
  rcases List.prefix_concat_iff.mp hfront with heq | hprefix
  · obtain ⟨rfl, _⟩ := List.append_inj' heq rfl
    exact hgood
  · exact goodBefore_of_good hgood front c' hprefix

/-- A device that carries out the operations that a run can need at most does not let it fail. -/
theorem good_of_device {path : String} {device : Device} {now : UInt64}
    (hnew : new path options device now = .ok w)
    (hdevice : ∀ n < 2 + (eventWrites options (passedEvents calls) + forcedWrites calls +
      syncCount calls), device n = none) : (w.run calls).2.out.failed = false := by
  obtain ⟨hoptions, hempty, _, hgood, m, hm, hafter⟩ := new_stream hnew
  induction calls using List.reverseRecOn with
  | nil => exact hgood
  | append_singleton calls c ih =>
    have hevents : eventWrites options (passedEvents calls) ≤
        eventWrites options (passedEvents (calls ++ [c])) :=
      eventWrites_mono (passedEvents_mono (List.prefix_append calls [c]))
    rw [forcedWrites_append, syncCount_append] at hdevice
    have hbefore := ih (fun n hn => hdevice n (by omega))
    have hwrites := writes_le hoptions hempty (goodBefore_concat hbefore c)
    have hlength := w.run_length_operations (calls ++ [c])
    rw [forcedWrites_append] at hwrites
    rw [syncCount_append] at hlength
    rw [run_out]
    refine OFStream.carryOut_good hgood fun n hn => ?_
    rw [hafter]
    exact hdevice (n + m) (by omega)

end BinaryLogWriter

end Hpblr
