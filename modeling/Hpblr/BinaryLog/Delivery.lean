import Hpblr.BinaryLog.Replay

/-!
# The events a reader delivers

The loops of the tools call `next` until it returns no event. Each event takes at least its header
from the file, so these loops end, whatever the stream does. `deliver` is the loop that keeps
everything: the events up to the end or the first exception, and that exception.
-/

namespace Hpblr

/-! ## Reading moves forward -/

theorem IFStream.rest_read_le (s : IFStream) (n : ℕ) :
    (s.read n).2.rest.length ≤ s.rest.length := by
  unfold IFStream.read
  split
  · split
    · simp
    · split <;> simp
  · simp

/-- A read that got all the bytes it asked for took them from the file. -/
theorem IFStream.rest_read_of_gcount {s : IFStream} {n : ℕ} (hn : 0 < n)
    (hcount : (s.read n).2.gcount = n) : (s.read n).2.rest.length + n = s.rest.length := by
  unfold IFStream.read at hcount ⊢
  by_cases hgood : s.good = true
  · by_cases hlong : n ≤ s.rest.length
    · rw [if_pos hgood, if_pos hlong]
      simp only [List.length_drop]
      omega
    · rw [if_pos hgood, if_neg hlong] at hcount
      cases hfault : s.fault <;> simp only [hfault, if_true, Bool.false_eq_true, if_false] at hcount
        <;> omega
  · rw [if_neg hgood] at hcount
    exact absurd hcount (by simp only; omega)

namespace BinaryLogReader

theorem rest_readPayload_le (r : BinaryLogReader) (h : RecordHeader) :
    (r.readPayload h).2.input.rest.length ≤ r.input.rest.length := by
  unfold readPayload
  split
  · simp only
    split <;> exact IFStream.rest_read_le _ _
  · exact le_rfl

theorem rest_readRecord_le (r : BinaryLogReader) (header : List UInt8) :
    (r.readRecord header).2.input.rest.length ≤ r.input.rest.length := by
  unfold readRecord
  cases checkRecordHeader header with
  | error e => exact le_rfl
  | ok h =>
    have hpayload := r.rest_readPayload_le h
    simp only
    rcases hread : r.readPayload h with ⟨e | payload, r'⟩
    · rw [hread] at hpayload
      exact hpayload
    · rw [hread] at hpayload
      simp only
      cases checkPayload h payload <;> exact hpayload

/-- An event that `next` returns has been taken from the file. -/
theorem rest_next_lt {r r' : BinaryLogReader} {event : Event}
    (h : r.next = (.ok (some event), r')) : r'.input.rest.length < r.input.rest.length := by
  unfold next at h
  rw [toNat_kRecordHeaderSize] at h
  simp only at h
  by_cases hcount : (r.input.read 48).2.gcount = 48
  · have hread := IFStream.rest_read_of_gcount (by omega) hcount
    have hrecord := rest_readRecord_le { r with input := (r.input.read 48).2 } (r.input.read 48).1
    simp only [hcount, ne_eq, not_true_eq_false, if_false, false_and, Nat.succ_ne_zero] at h
    rw [h] at hrecord
    simp only at hrecord
    omega
  · simp only [ne_eq, hcount, not_false_eq_true, if_true] at h
    split at h <;> cases h

/-! ## Delivery -/

/-- The events that `next` returns until the end of the file or the first exception, and that
exception. -/
def deliver (r : BinaryLogReader) : List Event × Option Exception :=
  match hnext : r.next with
  | (.error e, _) => ([], some e)
  | (.ok none, _) => ([], none)
  | (.ok (some event), r') =>
    have := rest_next_lt hnext
    (event :: (deliver r').1, (deliver r').2)
termination_by r.input.rest.length

theorem deliver_some {r r' : BinaryLogReader} {event : Event}
    (h : r.next = (.ok (some event), r')) :
    r.deliver = (event :: r'.deliver.1, r'.deliver.2) := by
  rw [deliver]
  split
  · next h' => cases h.symm.trans h'
  · next h' => cases h.symm.trans h'
  · next h' =>
    cases h.symm.trans h'
    rfl

theorem deliver_none {r r' : BinaryLogReader} (h : r.next = (.ok none, r')) :
    r.deliver = ([], none) := by
  rw [deliver]
  split
  · next h' => cases h.symm.trans h'
  · rfl
  · next h' => cases h.symm.trans h'

theorem deliver_error {r r' : BinaryLogReader} {e : Exception} (h : r.next = (.error e, r')) :
    r.deliver = ([], some e) := by
  rw [deliver]
  split
  · next h' =>
    cases h.symm.trans h'
    rfl
  · next h' => cases h.symm.trans h'
  · next h' => cases h.symm.trans h'

/-- Induction along the loop: what holds at the end and at an exception, and before an event if it
holds behind it, holds of every reader. -/
theorem deliver_induction {P : BinaryLogReader → Prop}
    (hend : ∀ r r', r.next = (.ok none, r') → P r)
    (herror : ∀ r r' e, r.next = (.error e, r') → P r)
    (hsome : ∀ r r' event, r.next = (.ok (some event), r') → P r' → P r) (r : BinaryLogReader) :
    P r := by
  induction hlen : r.input.rest.length using Nat.strong_induction_on generalizing r with
  | _ length ih =>
    rcases hnext : r.next with ⟨e | _ | event, r'⟩
    · exact herror r r' e hnext
    · exact hend r r' hnext
    · exact hsome r r' event hnext (ih _ (hlen ▸ rest_next_lt hnext) r' rfl)

/-- The replay loop with enough calls sees what is delivered. -/
theorem exists_replay_eq (r : BinaryLogReader) : ∃ calls, r.replay calls =
    (r.deliver.1, match r.deliver.2 with | none => .endOfLog | some e => .threw e) := by
  induction r using deliver_induction with
  | hend r r' hnext => exact ⟨1, by rw [replay_none hnext, deliver_none hnext]⟩
  | herror r r' e hnext => exact ⟨1, by rw [replay_error hnext, deliver_error hnext]⟩
  | hsome r r' event hnext ih =>
    obtain ⟨calls, hreplay⟩ := ih
    exact ⟨calls + 1, by rw [replay_some hnext, deliver_some hnext, hreplay]⟩

/-- On a sequence of records everything is delivered, without an exception. -/
theorem deliver_records {records : List UInt8} {events : List Event}
    (hrecords : IsRecords records events) {r : BinaryLogReader} (hat : r.input.At records) :
    r.deliver = (events, none) := by
  induction hrecords generalizing r with
  | nil =>
    obtain ⟨r', hnext, _⟩ := next_nil hat
    exact deliver_none hnext
  | cons flags hvalid _ ih =>
    obtain ⟨r', hnext, hat', _⟩ := next_record hat hvalid
    rw [deliver_some hnext, ih hat']

/-- What is delivered without an exception is the whole file. -/
theorem isRecords_of_deliver {r : BinaryLogReader} {bytes : List UInt8} {events : List Event}
    (hat : r.input.At bytes) (h : r.deliver = (events, none)) : IsRecords bytes events := by
  obtain ⟨calls, hreplay⟩ := r.exists_replay_eq
  rw [h] at hreplay
  exact isRecords_of_replay hat hreplay

/-- An event that `next` returns is the first one of the bytes ahead. -/
theorem next_some_at {r r' : BinaryLogReader} {bytes : List UInt8} {event : Event}
    (hat : r.input.At bytes) (h : r.next = (.ok (some event), r')) :
    ∃ flags rest, bytes = recordBytes flags event ++ rest ∧ event.Valid ∧ r'.input.At rest := by
  rcases next_at hat with rfl | ⟨flags, event', rest, rfl, hvalid⟩ | ⟨e, r'', hnext, _⟩
  · obtain ⟨r'', hnext, _⟩ := next_nil hat
    cases h.symm.trans hnext
  · obtain ⟨r'', hnext, hat', _⟩ := next_record hat hvalid
    cases h.symm.trans hnext
    exact ⟨flags, rest, rfl, hvalid, hat'⟩
  · cases h.symm.trans hnext

/-- Whatever the file holds, only events that the format can represent are delivered. -/
theorem deliver_valid {r : BinaryLogReader} {bytes : List UInt8} (hat : r.input.At bytes) :
    ∀ event ∈ r.deliver.1, event.Valid := by
  induction r using deliver_induction generalizing bytes with
  | hend r r' hnext => simp [deliver_none hnext]
  | herror r r' e hnext => simp [deliver_error hnext]
  | hsome r r' event hnext ih =>
    obtain ⟨flags, rest, _, hvalid, hat'⟩ := next_some_at hat hnext
    rw [deliver_some hnext]
    intro event' hevent'
    rcases List.mem_cons.mp hevent' with rfl | hrest
    · exact hvalid
    · exact ih hat' event' hrest

/-- Whatever the file holds, the exception is a format error or a checksum error. -/
theorem deliver_isFormatOrCrc {r : BinaryLogReader} {bytes : List UInt8} (hat : r.input.At bytes)
    {e : Exception} (h : r.deliver.2 = some e) : e.IsFormatOrCrc := by
  induction r using deliver_induction generalizing bytes with
  | hend r r' hnext => simp [deliver_none hnext] at h
  | herror r r' e' hnext =>
    rw [deliver_error hnext] at h
    obtain rfl : e' = e := Option.some.inj h
    rcases next_at hat with rfl | ⟨flags, event, rest, rfl, hvalid⟩ | ⟨e', r'', hnext', he, _⟩
    · obtain ⟨r'', hnext', _⟩ := next_nil hat
      cases hnext.symm.trans hnext'
    · obtain ⟨r'', hnext', _⟩ := next_record hat hvalid
      cases hnext.symm.trans hnext'
    · cases hnext.symm.trans hnext'
      exact he
  | hsome r r' event hnext ih =>
    obtain ⟨flags, rest, _, _, hat'⟩ := next_some_at hat hnext
    rw [deliver_some hnext] at h
    exact ih hat' h

end BinaryLogReader

end Hpblr
