import Hpblr.Apps.Tool

/-!
# What the commands select

The loop of `dump`, `write_csv` and `write_json` hands the selected events to its body, in file order:
the first ones that satisfy the filter, up to the limit, among those the reader delivers. It ends
with the exception of the reader unless the limit comes first. Each command is then a list of
insertions that depends on the selected events only.
-/

namespace Hpblr

/-- Whether an event satisfies the filter can be computed. -/
instance (filter : EventFilter) (event : Event) : Decidable (filter.Satisfies event) :=
  decidable_of_iff _ EventFilter.matches_iff

/-- The events that a reader of the file delivers before its end or its first exception, and that
exception. The first exception may be that of the constructor. -/
def BinaryLogReader.delivered (path : String) (input : IFStream) : List Event × Option Exception :=
  match new path input with
  | .error e => ([], some e)
  | .ok r => r.deliver

/-- Whatever the file holds, only events that the format can represent are delivered, and the
exception is a format error or a checksum error. -/
theorem BinaryLogReader.delivered_file (path : String) (file : List UInt8) :
    (∀ event ∈ (delivered path (IFStream.ofBytes file)).1, event.Valid) ∧
    (∀ e, (delivered path (IFStream.ofBytes file)).2 = some e → e.IsFormatOrCrc) := by
  unfold delivered
  rcases new_cases path file with hfile | ⟨e, hnew, he⟩
  · obtain ⟨flags, created, reserved, rest, rfl⟩ := hfile
    obtain ⟨r, hnew, hat, _⟩ := new_fileHeader path flags created reserved rest
    rw [hnew]
    exact ⟨deliver_valid hat, fun e => deliver_isFormatOrCrc hat⟩
  · rw [hnew]
    refine ⟨by simp, ?_⟩
    intro e' h
    obtain rfl : e = e' := Option.some.inj h
    exact he

/-- The reader of a log delivers its events, without an exception. -/
theorem BinaryLogReader.delivered_log (path : String) {file : List UInt8} {events : List Event}
    (hlog : IsLog file events) : delivered path (IFStream.ofBytes file) = (events, none) := by
  obtain ⟨flags, created, reserved, records, rfl, hrecords⟩ := hlog
  obtain ⟨r, hnew, hat, _⟩ := new_fileHeader path flags created reserved records
  rw [delivered, hnew]
  exact deliver_records hrecords hat

namespace CommonOptions

/-- The events that satisfy the filter. -/
def satisfying (opts : CommonOptions) (events : List Event) : List Event :=
  events.filter (fun event => opts.filter.Satisfies event)

/-- The first events that satisfy the filter, up to the limit, or all of them without one. -/
def selected (opts : CommonOptions) (events : List Event) : List Event :=
  if opts.limit = 0 then opts.satisfying events
  else (opts.satisfying events).take opts.limit.toNat

/-- There is a limit, and enough events satisfy the filter to reach it. -/
def LimitReached (opts : CommonOptions) (events : List Event) : Prop :=
  opts.limit ≠ 0 ∧ opts.limit.toNat ≤ (opts.satisfying events).length

instance (opts : CommonOptions) (events : List Event) : Decidable (opts.LimitReached events) :=
  inferInstanceAs (Decidable (_ ∧ _))

/-- How a command ends: with the exception of the reader, if there is one and the limit is not
reached before it. -/
def ending (opts : CommonOptions) (delivered : List Event × Option Exception) :
    Except Exception Unit :=
  if opts.LimitReached delivered.1 then .ok ()
  else
    match delivered.2 with
    | none => .ok ()
    | some e => .error e

theorem satisfying_cons (opts : CommonOptions) (event : Event) (events : List Event) :
    opts.satisfying (event :: events) =
      if opts.filter.matches event then event :: opts.satisfying events
      else opts.satisfying events := by
  by_cases h : opts.filter.Satisfies event
  · simp [satisfying, h, EventFilter.matches_iff.mpr h]
  · have hno : opts.filter.matches event ≠ true := fun hmatches => h (EventFilter.matches_iff.mp hmatches)
    simp [satisfying, h, hno]

/-- Selected events are among the delivered ones. -/
theorem mem_of_mem_selected {opts : CommonOptions} {events : List Event} {event : Event}
    (h : event ∈ opts.selected events) : event ∈ events := by
  unfold selected at h
  split at h
  · exact (List.mem_filter.mp h).1
  · exact (List.mem_filter.mp (List.mem_of_mem_take h)).1

end CommonOptions

namespace Tool

open BinaryLogReader

/-! ## The common loop -/

section EmitLoop

variable {S : Type} {opts : CommonOptions} {emit : S → Event → S} {r r' : BinaryLogReader}
  {emitted : UInt64} {s : S}

theorem emitLoop_none (h : r.next = (.ok none, r')) :
    emitLoop opts emit r emitted s = (.ok (), s) := by
  rw [emitLoop]
  split
  · next h' => cases h.symm.trans h'
  · rfl
  · next h' => cases h.symm.trans h'

theorem emitLoop_error {e : Exception} (h : r.next = (.error e, r')) :
    emitLoop opts emit r emitted s = (.error e, s) := by
  rw [emitLoop]
  split
  · next h' =>
    cases h.symm.trans h'
    rfl
  · next h' => cases h.symm.trans h'
  · next h' => cases h.symm.trans h'

theorem emitLoop_some {event : Event} (h : r.next = (.ok (some event), r')) :
    emitLoop opts emit r emitted s =
      if opts.filter.matches event then
        if opts.limit ≠ 0 ∧ emitted + 1 ≥ opts.limit then (.ok (), emit s event)
        else emitLoop opts emit r' (emitted + 1) (emit s event)
      else emitLoop opts emit r' emitted s := by
  rw [emitLoop]
  split
  · next h' => cases h.symm.trans h'
  · next h' => cases h.symm.trans h'
  · next h' =>
    cases h.symm.trans h'
    cases opts.filter.matches event <;> rfl

/-- Without a limit the loop hands over every event that satisfies the filter. -/
theorem emitLoop_unlimited (hlimit : opts.limit = 0) (r : BinaryLogReader) :
    emitLoop opts emit r emitted s =
      (match r.deliver.2 with | none => .ok () | some e => .error e,
        (opts.satisfying r.deliver.1).foldl emit s) := by
  induction r using deliver_induction generalizing emitted s with
  | hend r r' hnext =>
    rw [emitLoop_none hnext, deliver_none hnext]
    rfl
  | herror r r' e hnext =>
    rw [emitLoop_error hnext, deliver_error hnext]
    rfl
  | hsome r r' event hnext ih =>
    have hgoes : ¬ (opts.limit ≠ 0 ∧ emitted + 1 ≥ opts.limit) := fun h => h.1 hlimit
    rw [emitLoop_some hnext, deliver_some hnext, CommonOptions.satisfying_cons, if_neg hgoes, ih, ih]
    by_cases hmatches : opts.filter.matches event = true
    · rw [if_pos hmatches, if_pos hmatches, List.foldl_cons]
    · rw [if_neg hmatches, if_neg hmatches]

/-- Below the limit, where `emitted` events are out already, the loop breaks at the limit or hands
over every event that satisfies the filter. -/
theorem emitLoop_limited (r : BinaryLogReader) (hemitted : emitted < opts.limit) :
    emitLoop opts emit r emitted s =
      if opts.limit.toNat ≤ emitted.toNat + (opts.satisfying r.deliver.1).length then
        (.ok (), ((opts.satisfying r.deliver.1).take
          (opts.limit.toNat - emitted.toNat)).foldl emit s)
      else
        (match r.deliver.2 with | none => .ok () | some e => .error e,
          (opts.satisfying r.deliver.1).foldl emit s) := by
  have hlimit : opts.limit ≠ 0 := by
    rintro hzero
    rw [hzero] at hemitted
    exact UInt64.not_lt_zero hemitted
  induction r using deliver_induction generalizing emitted s with
  | hend r r' hnext =>
    have hstop : ¬ opts.limit.toNat ≤ emitted.toNat + (opts.satisfying []).length :=
      Nat.not_le.mpr (UInt64.lt_iff_toNat_lt.mp hemitted)
    rw [emitLoop_none hnext, deliver_none hnext]
    exact (if_neg hstop).symm
  | herror r r' e hnext =>
    have hstop : ¬ opts.limit.toNat ≤ emitted.toNat + (opts.satisfying []).length :=
      Nat.not_le.mpr (UInt64.lt_iff_toNat_lt.mp hemitted)
    rw [emitLoop_error hnext, deliver_error hnext]
    exact (if_neg hstop).symm
  | hsome r r' event hnext ih =>
    rw [emitLoop_some hnext, deliver_some hnext, CommonOptions.satisfying_cons]
    by_cases hmatches : opts.filter.matches event = true
    · have hbelow := UInt64.lt_iff_toNat_lt.mp hemitted
      have hsucc : (emitted + 1).toNat = emitted.toNat + 1 := by
        have := opts.limit.toNat_lt
        rw [UInt64.toNat_add, UInt64.toNat_one]
        omega
      rw [if_pos hmatches, if_pos hmatches, List.length_cons]
      by_cases hlast : emitted + 1 ≥ opts.limit
      · have hreached := UInt64.le_iff_toNat_le.mp hlast
        have hleft : opts.limit.toNat - emitted.toNat = 1 := by omega
        rw [if_pos ⟨hlimit, hlast⟩, if_pos (by omega), hleft]
        rfl
      · have hgoes : emitted + 1 < opts.limit := UInt64.not_le.mp hlast
        have hbelow' := UInt64.lt_iff_toNat_lt.mp hgoes
        have hleft : opts.limit.toNat - emitted.toNat =
            opts.limit.toNat - (emitted + 1).toNat + 1 := by omega
        rw [if_neg (fun h => hlast h.2), ih hgoes, hleft, hsucc, List.take_succ_cons,
          List.foldl_cons, List.foldl_cons, Nat.add_assoc, Nat.add_comm 1]
    · rw [if_neg hmatches, if_neg hmatches, ih hemitted]

/-- **The loop of the three commands.** It hands the selected events to its body, one after the
other, and ends as the reader does unless the limit is reached first. -/
theorem emitLoop_eq (r : BinaryLogReader) :
    emitLoop opts emit r 0 s =
      (opts.ending r.deliver, (opts.selected r.deliver.1).foldl emit s) := by
  unfold CommonOptions.ending CommonOptions.selected
  by_cases hlimit : opts.limit = 0
  · have hno : ¬ opts.LimitReached r.deliver.1 := fun h => h.1 hlimit
    rw [emitLoop_unlimited hlimit, if_neg hno, if_pos hlimit]
  · rw [emitLoop_limited r (UInt64.pos_iff_ne_zero.mpr hlimit), UInt64.toNat_zero, Nat.zero_add,
      Nat.sub_zero, if_neg hlimit]
    by_cases hreached : opts.limit.toNat ≤ (opts.satisfying r.deliver.1).length
    · have hyes : opts.LimitReached r.deliver.1 := ⟨hlimit, hreached⟩
      rw [if_pos hreached, if_pos hyes]
    · have hno : ¬ opts.LimitReached r.deliver.1 := fun h => hreached h.2
      rw [if_neg hreached, if_neg hno, List.take_of_length_le (Nat.le_of_not_le hreached)]

end EmitLoop

/-! ## The insertions of each command -/

variable {σ : Type} [OStream σ]

/-- A body that only inserts makes the loop a list of insertions. -/
theorem foldl_insertAll (pieces : Event → List Text) (events : List Event) (out : σ) :
    events.foldl (fun out event => insertAll out (pieces event)) out =
      insertAll out (events.flatMap pieces) := by
  induction events generalizing out with
  | nil => rfl
  | cons event events ih =>
    rw [List.foldl_cons, ih, List.flatMap_cons, insertAll_append]

/-- The objects of an array, with the separators. -/
def jsonItems : List Event → List Text
  | [] => []
  | event :: events => jsonObject event ++ events.flatMap (fun e => ",\n".toList :: jsonObject e)

theorem foldl_jsonEmit (events : List Event) (out : σ) :
    (events.foldl jsonEmit (out, true)).1 = insertAll out (jsonItems events) := by
  have hrest (events : List Event) (out : σ) : events.foldl jsonEmit (out, false) =
      (insertAll out (events.flatMap (fun e => ",\n".toList :: jsonObject e)), false) := by
    induction events generalizing out with
    | nil => rfl
    | cons event events ih =>
      rw [List.foldl_cons, jsonEmit, ih, List.flatMap_cons, insertAll_append]
      rfl
  cases events with
  | nil => rfl
  | cons event events =>
    rw [List.foldl_cons, jsonEmit, hrest, jsonItems, insertAll_append]
    rfl

/-- The insertions of `write_csv`. -/
def csvPieces (events : List Event) : List Text := csvHeader :: events.flatMap csvRow

/-- The insertions of `write_json`, up to the closing bracket. -/
def jsonPieces (events : List Event) : List Text := "[\n".toList :: jsonItems events

variable {opts : CommonOptions} {input : IFStream} {r : BinaryLogReader}

theorem dump_eq (hnew : new opts.input input = .ok r) (out : σ) :
    dump opts input out = (opts.ending r.deliver,
      insertAll out ((opts.selected r.deliver.1).flatMap dumpLine)) := by
  rw [dump, hnew]
  simp only
  rw [emitLoop_eq, foldl_insertAll]

theorem writeCsv_eq (hnew : new opts.input input = .ok r) (out : σ) :
    writeCsv opts input out = (opts.ending r.deliver,
      insertAll out (csvPieces (opts.selected r.deliver.1))) := by
  rw [writeCsv, hnew]
  simp only
  rw [emitLoop_eq, foldl_insertAll]
  rfl

/-- The array is closed only if the loop ends normally. -/
theorem writeJson_eq (hnew : new opts.input input = .ok r) (out : σ) :
    writeJson opts input out = (opts.ending r.deliver,
      insertAll out (jsonPieces (opts.selected r.deliver.1) ++
        match opts.ending r.deliver with | .ok () => ["\n]\n".toList] | .error _ => [])) := by
  rw [writeJson, hnew]
  simp only
  rw [emitLoop_eq, insertAll_append]
  have hitems := foldl_jsonEmit (opts.selected r.deliver.1) (OStream.insert out "[\n".toList)
  rcases opts.ending r.deliver with e | ⟨⟩
  · exact Prod.ext rfl hitems
  · exact Prod.ext rfl (congrArg (fun out => OStream.insert out "\n]\n".toList) hitems)

end Tool

end Hpblr
