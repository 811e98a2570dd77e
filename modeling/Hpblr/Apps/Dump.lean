import Hpblr.Apps.ExportFormats

/-!
# Reading the lines of `dump` back

`dump` prints a line of named fields for each event. The line shows at most 32 bytes of the payload,
and three dots if there are more. A reader of these lines gets every other field back, and the size
of the whole payload. With it the outputs of `dump` and of the two exports can be compared.
-/

namespace Hpblr

namespace Tool

/-! ## The reader -/

/-- What `dump` shows of an event: at most 32 bytes of its payload, and the size of all of it. -/
def shown (event : Event) : Event × ℕ :=
  ({ event with payload := event.payload.take 32 }, event.payload.length)

/-- The value of a field with this name. -/
def fieldValue (name : String) (field : Text) : Option Text :=
  let start := name.toList ++ ['=']
  if start.isPrefixOf field then some (field.drop start.length) else none

/-- An event from a line, split at blanks, without the dots behind a payload that is cut off. -/
def readDumpLine (line : Text) : Option (Event × ℕ) :=
  match line.splitOn ' ' with
  | [sequence, timestampNs, _, producerId, type, severity, payloadSize, payloadHex] => do
    let sequence ← fieldValue "seq" sequence
    let timestampNs ← fieldValue "ts_ns" timestampNs
    let producerId ← fieldValue "producer" producerId
    let type ← fieldValue "type" type
    let severity ← fieldValue "severity" severity
    let payloadSize ← fieldValue "payload_size" payloadSize
    let payloadHex ← fieldValue "payload_hex" payloadHex
    let event ← readEvent sequence timestampNs producerId type severity
      (payloadHex.takeWhile (fun c => c ≠ '.'))
    let size ← parseU64 (String.ofList payloadSize)
    return (event, size.toNat)
  | _ => none

/-- The events of a text of `dump`. -/
def readDump (text : Text) : Option (List (Event × ℕ)) :=
  (text.splitOn '\n').dropLast.mapM readDumpLine

/-! ## Fields -/

/-- A field with its name. -/
def namedField (name : String) (value : Text) : Text := name.toList ++ '=' :: value

theorem fieldValue_namedField (name : String) (value : Text) :
    fieldValue name (namedField name value) = some value := by
  have hsplit : namedField name value = name.toList ++ ['='] ++ value := by
    simp [namedField]
  rw [fieldValue, hsplit]
  simp only [List.isPrefixOf_iff_prefix, List.prefix_append, if_true, List.drop_left]

/-- The fields of a line. -/
def dumpFields (event : Event) : List Text :=
  [namedField "seq" (decimal event.sequence.toNat),
    namedField "ts_ns" (decimal event.timestampNs.toNat),
    namedField "utc" (formatUnixNsUtc event.timestampNs),
    namedField "producer" (decimal event.producerId.toNat),
    namedField "type" (decimal event.type.toNat),
    namedField "severity" (severityToString event.severity),
    namedField "payload_size" (decimal event.payload.length),
    namedField "payload_hex" (bytesToHex event.payload 32)]

private theorem dumpLiterals :
    "seq=".toList = "seq".toList ++ ['='] ∧ " ts_ns=".toList = [' '] ++ ("ts_ns".toList ++ ['=']) ∧
    " utc=".toList = [' '] ++ ("utc".toList ++ ['=']) ∧
    " producer=".toList = [' '] ++ ("producer".toList ++ ['=']) ∧
    " type=".toList = [' '] ++ ("type".toList ++ ['=']) ∧
    " severity=".toList = [' '] ++ ("severity".toList ++ ['=']) ∧
    " payload_size=".toList = [' '] ++ ("payload_size".toList ++ ['=']) ∧
    " payload_hex=".toList = [' '] ++ ("payload_hex".toList ++ ['=']) := by
  decide

/-- The parts of a line, whatever its names and values are. -/
private theorem flatten_line (A a B b C c D d E e F f G g H h : Text) :
    ([A ++ ['='], a, [' '] ++ (B ++ ['=']), b, [' '] ++ (C ++ ['=']), c, [' '] ++ (D ++ ['=']), d,
        [' '] ++ (E ++ ['=']), e, [' '] ++ (F ++ ['=']), f, [' '] ++ (G ++ ['=']), g,
        [' '] ++ (H ++ ['=']), h, ['\n']]).flatten =
      [' '].intercalate [A ++ '=' :: a, B ++ '=' :: b, C ++ '=' :: c, D ++ '=' :: d,
        E ++ '=' :: e, F ++ '=' :: f, G ++ '=' :: g, H ++ '=' :: h] ++ ['\n'] := by
  simp only [List.intercalate_cons_cons, List.intercalate_singleton, List.flatten_cons,
    List.flatten_nil, List.append_assoc, List.cons_append, List.nil_append, List.append_nil]

theorem flatten_dumpLine (event : Event) :
    (dumpLine event).flatten = [' '].intercalate (dumpFields event) ++ ['\n'] := by
  obtain ⟨h₁, h₂, h₃, h₄, h₅, h₆, h₇, h₈⟩ := dumpLiterals
  rw [dumpLine, h₁, h₂, h₃, h₄, h₅, h₆, h₇, h₈, flatten_line]
  rfl

/-- The hexadecimal form of a payload, with the dots if it is cut off. -/
theorem bytesToHex_cut (payload : List UInt8) : bytesToHex payload 32 =
    (payload.take 32).flatMap hexByte ++ if 32 < payload.length then "...".toList else [] := by
  have hbound : (32 : UInt64).toNat = 32 := rfl
  simp only [bytesToHex, hbound]
  by_cases hlong : 32 < payload.length
  · rw [if_neg (Nat.lt_asymm hlong), if_pos hlong, if_pos hlong]
  · rw [if_neg hlong, List.append_nil]
    by_cases hshort : payload.length < 32
    · rw [if_pos hshort, if_neg (Nat.lt_irrefl _), List.take_length, List.take_of_length_le hshort.le]
    · rw [if_neg hshort, if_neg hlong]

/-- The whole form of the bytes shown. -/
theorem bytesToHex_shown (payload : List UInt8) :
    (payload.take 32).length < sizeMax.toNat ∧
      bytesToHex (payload.take 32) sizeMax = (payload.take 32).flatMap hexByte := by
  have hsize : (payload.take 32).length < sizeMax.toNat := by
    have hshort := List.length_take_le 32 payload
    have hmax : 32 < sizeMax.toNat := by decide
    omega
  refine ⟨hsize, ?_⟩
  simp only [bytesToHex, if_pos hsize, Nat.lt_irrefl, if_false, List.take_length]

/-- Without the dots it is the form of the bytes shown. -/
theorem takeWhile_bytesToHex (payload : List UInt8) :
    (bytesToHex payload 32).takeWhile (fun c => c ≠ '.') =
      bytesToHex (payload.take 32) sizeMax := by
  obtain ⟨hsize, hwhole⟩ := bytesToHex_shown payload
  have hdigits : ∀ c ∈ (payload.take 32).flatMap hexByte, decide (c ≠ '.') = true := by
    intro c hc
    rw [← hwhole] at hc
    obtain ⟨d, hd, rfl⟩ := mem_bytesToHex hsize hc
    have hall : ∀ d < 16, decide (d.digitChar ≠ '.') = true := by decide
    exact hall d hd
  rw [hwhole, bytesToHex_cut, List.takeWhile_append_of_pos hdigits]
  split
  · exact List.append_nil _
  · exact List.append_nil _

/-! ## Lines -/

theorem IsFieldChar.ne_blank {c : Char} (hc : IsFieldChar c) : c ≠ ' ' := by
  rintro rfl
  revert hc
  unfold IsFieldChar
  decide

theorem isFieldChar_shownHex {payload : List UInt8} {c : Char} (hc : c ∈ bytesToHex payload 32) :
    IsFieldChar c := by
  have hvalid : Event.Valid { payload := payload.take 32 } := by
    refine ⟨show ({} : Event).severity.IsEnumerator by decide, ?_⟩
    have hshort := List.length_take_le 32 payload
    have hmax : 32 ≤ kMaxPayloadBytes := by decide
    exact hshort.trans hmax
  rw [bytesToHex_cut] at hc
  rcases List.mem_append.mp hc with hdigit | hdots
  · rw [← (bytesToHex_shown payload).2] at hdigit
    exact isFieldChar_hex hvalid hdigit
  · split at hdots
    · obtain rfl : c = '.' := by simpa using hdots
      exact Or.inr (Or.inr (by decide))
    · cases hdots

/-- A field has no blank and no end of line. -/
theorem namedField_plain {name : String} {value : Text}
    (hname : name.toList.all (fun c => c ≠ ' ' ∧ c ≠ '\n') = true)
    (hvalue : ∀ c ∈ value, IsFieldChar c) {c : Char} (hc : c ∈ namedField name value) :
    c ≠ ' ' ∧ c ≠ '\n' := by
  rcases List.mem_append.mp hc with hin | hin
  · simpa using List.all_eq_true.mp hname c hin
  · rcases List.mem_cons.mp hin with rfl | hin
    · decide
    · exact ⟨(hvalue c hin).ne_blank, (hvalue c hin).plain.2.1⟩

theorem mem_dumpFields {event : Event} {field : Text} (hfield : field ∈ dumpFields event) {c : Char}
    (hc : c ∈ field) : c ≠ ' ' ∧ c ≠ '\n' := by
  simp only [dumpFields, List.mem_cons, List.not_mem_nil, or_false] at hfield
  rcases hfield with rfl | rfl | rfl | rfl | rfl | rfl | rfl | rfl
  · exact namedField_plain (by decide) (fun _ => isFieldChar_decimal) hc
  · exact namedField_plain (by decide) (fun _ => isFieldChar_decimal) hc
  · exact namedField_plain (by decide) (fun _ => isFieldChar_utc) hc
  · exact namedField_plain (by decide) (fun _ => isFieldChar_decimal) hc
  · exact namedField_plain (by decide) (fun _ => isFieldChar_decimal) hc
  · exact namedField_plain (by decide) (fun _ => isFieldChar_severity) hc
  · exact namedField_plain (by decide) (fun _ => isFieldChar_decimal) hc
  · exact namedField_plain (by decide) (fun _ => isFieldChar_shownHex) hc

/-- A line is split into its fields and gives back what it shows. -/
theorem readDumpLine_dumpFields {event : Event} (hvalid : event.Valid) :
    readDumpLine ([' '].intercalate (dumpFields event)) = some (shown event) := by
  have hsplit : ([' '].intercalate (dumpFields event)).splitOn ' ' = dumpFields event :=
    List.splitOn_intercalate ' ' (fun field hfield hblank => (mem_dumpFields hfield hblank).1 rfl)
      (by simp [dumpFields])
  have hshort : (shown event).1.Valid :=
    ⟨hvalid.severity, (List.length_take_le' 32 event.payload).trans hvalid.payload⟩
  have hsize : event.payload.length < UInt64.size :=
    Nat.lt_of_le_of_lt hvalid.payload (by decide)
  have hnat : (UInt64.ofNat event.payload.length).toNat = event.payload.length :=
    UInt64.toNat_ofNat_of_lt hsize
  have hlength := parseU64_decimal (UInt64.ofNat event.payload.length)
  rw [hnat] at hlength
  have hfields : readEvent (decimal event.sequence.toNat) (decimal event.timestampNs.toNat)
      (decimal event.producerId.toNat) (decimal event.type.toNat) (severityToString event.severity)
      (bytesToHex (event.payload.take 32) sizeMax) = some (shown event).1 :=
    readEvent_fields hshort
  rw [readDumpLine, hsplit, dumpFields]
  simp only [fieldValue_namedField, Option.bind_eq_bind, Option.bind_some, takeWhile_bytesToHex,
    hfields, hlength, hnat]
  rfl

/-- The text of `dump` for valid events gives back what it shows of them. -/
theorem readDump_dumpLines {events : List Event} (hvalid : ∀ event ∈ events, event.Valid) :
    readDump (events.flatMap dumpLine).flatten = some (events.map shown) := by
  have htext : (events.flatMap dumpLine).flatten =
      ['\n'].intercalate (events.map (fun event => [' '].intercalate (dumpFields event)) ++ [[]]) := by
    rw [← flatten_lines]
    clear hvalid
    induction events with
    | nil => rfl
    | cons event events ih =>
      rw [List.flatMap_cons, List.flatten_append, ih, flatten_dumpLine]
      rfl
  have hsplit : ((events.flatMap dumpLine).flatten).splitOn '\n' =
      events.map (fun event => [' '].intercalate (dumpFields event)) ++ [[]] := by
    rw [htext]
    refine List.splitOn_intercalate '\n' ?_ (by simp)
    intro line hline hnewline
    rcases List.mem_append.mp hline with hmem | hmem
    · obtain ⟨event, _, rfl⟩ := List.mem_map.mp hmem
      rcases mem_intercalate hnewline with hblank | ⟨field, hfield, hmem⟩
      · exact absurd hblank (by decide)
      · exact (mem_dumpFields hfield hmem).2 rfl
    · obtain rfl := List.mem_singleton.mp hmem
      cases hnewline
  rw [readDump, hsplit, List.dropLast_concat]
  clear htext hsplit
  induction events with
  | nil => rfl
  | cons event events ih =>
    have hhead := readDumpLine_dumpFields (hvalid event List.mem_cons_self)
    have htail := ih (fun e he => hvalid e (List.mem_cons_of_mem event he))
    rw [List.map_cons, List.mapM_cons, hhead, htail]
    rfl

/-! ## The three outputs -/

/-- **The three outputs select the same events, and the exports lose nothing.** For every file,
filter and limit the three commands end in the same way: with the exception of the reader, if it has
one and the limit is not reached before it. They put out the selected events in file order. Reading
the lines of `dump` gives what these show of the events, and reading the rows of the CSV text gives
exactly the events, and so does parsing each object of the JSON text. Unless the run fails the JSON
text is a well-formed array of them. -/
theorem outputs_select (opts : CommonOptions) (file : List UInt8) :
    let input := IFStream.ofBytes file
    let delivered := BinaryLogReader.delivered opts.input input
    let selected := opts.selected delivered.1
    ∃ result dumped csv json,
      (∀ e, result = .error e ↔ delivered.2 = some e ∧ ¬ opts.LimitReached delivered.1) ∧
      dump opts input ([] : Text) = (result, dumped) ∧
      dumped = (selected.flatMap dumpLine).flatten ∧
      readDump dumped = some (selected.map shown) ∧
      (writeCsv opts input ([] : Text) = (result, csv) ∧ readCsv csv = some selected) ∧
      writeJson opts input ([] : Text) = (result, json) ∧
      (∃ objects, objects.map (fun object => (Json.parse object).bind readObject) =
          selected.map some ∧
        (json = jsonBody objects ++ jsonEnd ∨ json = jsonBody objects ∨
          json = [] ∧ objects = [])) ∧
      (result = .ok () → ∃ items, Json.parse json = some (.array items) ∧
        items.map readObject = selected.map some) := by
  intro input delivered selected
  obtain ⟨csv, hcsv, hrows⟩ := writeCsv_text opts file
  obtain ⟨json, hjson, hobjects, harray⟩ := writeJson_text opts file
  exact ⟨opts.ending delivered, _, csv, json, ending_eq_error opts delivered, dump_text opts file, rfl,
    readDump_dumpLines (selected_valid opts file), ⟨hcsv, hrows⟩, hjson, hobjects, harray⟩

end Tool

end Hpblr
