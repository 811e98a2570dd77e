import Hpblr.Lib.Json
import Hpblr.Apps.Selection

/-!
# Reading the exports back

A reader of the two export formats, and the proof that it gives back what was selected: every event
with all its fields and its whole payload. A CSV row is split at commas, and a JSON object is parsed
by the parser of `Json`. Both work because the fields hold none of the characters that the formats
give a meaning.
-/

namespace Hpblr

namespace Tool

/-! ## Readers -/

/-- An event from the texts of its fields. -/
def readEvent (sequence timestampNs producerId type severity payloadHex : Text) : Option Event := do
  let sequence ← parseU64 (String.ofList sequence)
  let timestampNs ← parseU64 (String.ofList timestampNs)
  let producerId ← parseU32 (String.ofList producerId)
  let type ← parseU16 (String.ofList type)
  let severity ← severityFromString severity
  let payload ← hexDecode payloadHex
  return { timestampNs, sequence, producerId, type, severity, payload }

/-- An event from a CSV row, split at commas. -/
def readCsvRow (row : Text) : Option Event :=
  match row.splitOn ',' with
  | [sequence, timestampNs, _, producerId, type, severity, _, payloadHex] =>
    readEvent sequence timestampNs producerId type severity payloadHex
  | _ => none

/-- The events of a CSV text: its lines behind the header. -/
def readCsv (text : Text) : Option (List Event) :=
  ((text.splitOn '\n').drop 1).dropLast.mapM readCsvRow

/-- The lexeme of a number of an object, or the text of a string. -/
def jsonField (key : String) (object : Json.Value) : Option Text :=
  match object.member key.toList with
  | some (.number lexeme) => some lexeme
  | some (.string raw) => some raw
  | _ => none

/-- An event from a JSON object. -/
def readObject (object : Json.Value) : Option Event := do
  let sequence ← jsonField "sequence" object
  let timestampNs ← jsonField "timestamp_ns" object
  let producerId ← jsonField "producer_id" object
  let type ← jsonField "type" object
  let severity ← jsonField "severity" object
  let payloadHex ← jsonField "payload_hex" object
  readEvent sequence timestampNs producerId type severity payloadHex

/-! ## The characters of the fields -/

/-- The characters that occur in the fields. -/
def IsFieldChar (c : Char) : Prop :=
  c.isDigit = true ∨ ('a' ≤ c ∧ c ≤ 'z') ∨ c ∈ ['-', 'T', ':', '.', 'Z']

theorem isFieldChar_decimal {n : ℕ} {c : Char} (hc : c ∈ decimal n) : IsFieldChar c :=
  Or.inl (isDigit_of_mem_decimal hc)

theorem isFieldChar_utc {timestampNs : UInt64} {c : Char} (hc : c ∈ formatUnixNsUtc timestampNs) :
    IsFieldChar c :=
  (mem_formatUnixNsUtc hc).imp_right Or.inr

theorem isFieldChar_severity {severity : Severity} {c : Char}
    (hc : c ∈ severityToString severity) : IsFieldChar c :=
  Or.inr (Or.inl (mem_severityToString hc))

theorem isFieldChar_hex {event : Event} (hvalid : event.Valid) {c : Char}
    (hc : c ∈ bytesToHex event.payload sizeMax) : IsFieldChar c := by
  have hsize : event.payload.length < sizeMax.toNat :=
    Nat.lt_of_le_of_lt hvalid.payload (by decide)
  obtain ⟨d, hd, rfl⟩ := mem_bytesToHex hsize hc
  have hall : ∀ d < 16, d.digitChar.isDigit = true ∨ ('a' ≤ d.digitChar ∧ d.digitChar ≤ 'z') := by
    decide
  exact (hall d hd).imp_right Or.inl

/-- A field has no comma and no end of line, and it may stand in a JSON string as it is. -/
theorem IsFieldChar.plain {c : Char} (hc : IsFieldChar c) :
    c ≠ ',' ∧ c ≠ '\n' ∧ Json.isPlain c = true := by
  have hrange : c.isDigit = true ∨ ('a' ≤ c ∧ c ≤ 'z') →
      c ≠ ',' ∧ c ≠ '\n' ∧ Json.isPlain c = true := by
    intro h
    have hcode : 48 ≤ c.toNat ∧ c.toNat ≤ 57 ∨ 97 ≤ c.toNat ∧ c.toNat ≤ 122 := by
      rcases h with hdigit | ⟨ha, hz⟩
      · left
        simp only [Char.isDigit, Bool.and_eq_true, decide_eq_true_eq] at hdigit
        exact ⟨UInt32.le_iff_toNat_le.mp hdigit.1, UInt32.le_iff_toNat_le.mp hdigit.2⟩
      · exact Or.inr ⟨UInt32.le_iff_toNat_le.mp ha, UInt32.le_iff_toNat_le.mp hz⟩
    have hne (d : Char) (hd : d.toNat = 44 ∨ d.toNat = 10 ∨ d.toNat = 34 ∨ d.toNat = 92) : c ≠ d := by
      rintro rfl
      omega
    refine ⟨hne _ (by decide), hne _ (by decide), ?_⟩
    simp only [Json.isPlain, Bool.and_eq_true, decide_eq_true_eq, ne_eq, decide_not,
      Bool.not_eq_true', decide_eq_false_iff_not]
    exact ⟨⟨hne _ (by decide), hne _ (by decide)⟩, by omega⟩
  rcases hc with hdigit | hletter | hmark
  · exact hrange (Or.inl hdigit)
  · exact hrange (Or.inr hletter)
  · simp only [List.mem_cons, List.not_mem_nil, or_false] at hmark
    rcases hmark with rfl | rfl | rfl | rfl | rfl <;> decide

/-! ## Fields -/

theorem parseU64_decimal (value : UInt64) :
    parseU64 (String.ofList (decimal value.toNat)) = some value := by
  simp [parseU64]

theorem parseU32_decimal (value : UInt32) :
    parseU32 (String.ofList (decimal value.toNat)) = some value := by
  have hvalue : value.toNat < 2 ^ 32 := value.toNat_lt
  have h := parseU64_decimal value.toUInt64
  rw [UInt32.toNat_toUInt64] at h
  have hsmall : ¬ value.toUInt64 > 0xFFFFFFFF := by
    rw [gt_iff_lt, UInt64.lt_iff_toNat_lt, UInt32.toNat_toUInt64]
    have : UInt64.toNat 0xFFFFFFFF = 2 ^ 32 - 1 := rfl
    omega
  simp [parseU32, h, hsmall]

theorem parseU16_decimal (value : UInt16) :
    parseU16 (String.ofList (decimal value.toNat)) = some value := by
  have hvalue : value.toNat < 2 ^ 16 := value.toNat_lt
  have h := parseU64_decimal value.toUInt64
  rw [UInt16.toNat_toUInt64] at h
  have hsmall : ¬ value.toUInt64 > 0xFFFF := by
    rw [gt_iff_lt, UInt64.lt_iff_toNat_lt, UInt16.toNat_toUInt64]
    have : UInt64.toNat 0xFFFF = 2 ^ 16 - 1 := rfl
    omega
  simp [parseU16, h, hsmall]

/-- The fields that both formats write give the event back. -/
theorem readEvent_fields {event : Event} (hvalid : event.Valid) :
    readEvent (decimal event.sequence.toNat) (decimal event.timestampNs.toNat)
      (decimal event.producerId.toNat) (decimal event.type.toNat) (severityToString event.severity)
      (bytesToHex event.payload sizeMax) = some event := by
  have hsize : event.payload.length < sizeMax.toNat :=
    Nat.lt_of_le_of_lt hvalid.payload (by decide)
  simp [readEvent, parseU64_decimal, parseU32_decimal, parseU16_decimal,
    severityFromString_severityToString hvalid.severity, hexDecode_bytesToHex hsize]

/-! ## CSV -/

/-- The fields of a row. -/
def csvFields (event : Event) : List Text :=
  [decimal event.sequence.toNat, decimal event.timestampNs.toNat,
    formatUnixNsUtc event.timestampNs, decimal event.producerId.toNat, decimal event.type.toNat,
    severityToString event.severity, decimal event.payload.length,
    bytesToHex event.payload sizeMax]

/-- A row without its end of line. -/
def csvLine (event : Event) : Text := [','].intercalate (csvFields event)

theorem flatten_csvRow (event : Event) : (csvRow event).flatten = csvLine event ++ ['\n'] := by
  simp only [csvRow, csvLine, csvFields, List.flatten_cons, List.flatten_nil,
    List.intercalate_cons_cons, List.intercalate_singleton, List.append_assoc, List.append_nil]

theorem isFieldChar_of_mem_csvFields {event : Event} (hvalid : event.Valid) {field : Text}
    (hfield : field ∈ csvFields event) {c : Char} (hc : c ∈ field) : IsFieldChar c := by
  simp only [csvFields, List.mem_cons, List.not_mem_nil, or_false] at hfield
  rcases hfield with rfl | rfl | rfl | rfl | rfl | rfl | rfl | rfl
  · exact isFieldChar_decimal hc
  · exact isFieldChar_decimal hc
  · exact isFieldChar_utc hc
  · exact isFieldChar_decimal hc
  · exact isFieldChar_decimal hc
  · exact isFieldChar_severity hc
  · exact isFieldChar_decimal hc
  · exact isFieldChar_hex hvalid hc

/-- A row is split into its fields and gives the event back. -/
theorem readCsvRow_csvLine {event : Event} (hvalid : event.Valid) :
    readCsvRow (csvLine event) = some event := by
  have hsplit : (csvLine event).splitOn ',' = csvFields event := by
    refine List.splitOn_intercalate ',' ?_ (by simp [csvFields])
    intro field hfield hcomma
    exact (isFieldChar_of_mem_csvFields hvalid hfield hcomma).plain.1 rfl
  rw [readCsvRow, hsplit]
  exact readEvent_fields hvalid

/-- A character of a joined text is a separator or occurs in one of the parts. -/
theorem mem_intercalate {separator c : Char} {parts : List Text}
    (hc : c ∈ [separator].intercalate parts) : c = separator ∨ ∃ part ∈ parts, c ∈ part := by
  induction parts with
  | nil => simp at hc
  | cons part parts ih =>
    cases parts with
    | nil => exact Or.inr ⟨part, List.mem_cons_self, by simpa using hc⟩
    | cons next parts =>
      simp only [List.intercalate_cons_cons, List.mem_append, List.mem_singleton] at hc
      rcases hc with (hpart | hseparator) | hrest
      · exact Or.inr ⟨part, List.mem_cons_self, hpart⟩
      · exact Or.inl hseparator
      · refine (ih hrest).imp_right ?_
        rintro ⟨other, hother, hmem⟩
        exact ⟨other, List.mem_cons_of_mem part hother, hmem⟩

theorem newline_not_mem_csvLine {event : Event} (hvalid : event.Valid) :
    '\n' ∉ csvLine event := by
  intro hnewline
  rcases mem_intercalate hnewline with hcomma | ⟨field, hfield, hmem⟩
  · exact absurd hcomma (by decide)
  · exact (isFieldChar_of_mem_csvFields hvalid hfield hmem).plain.2.1 rfl

/-- Lines with an end of line each are lines separated by ends of line, with nothing behind them. -/
theorem flatten_lines (lines : List Text) :
    (lines.map (· ++ ['\n'])).flatten = ['\n'].intercalate (lines ++ [[]]) := by
  induction lines with
  | nil => simp
  | cons line lines ih =>
    obtain ⟨next, rest, hcons⟩ : ∃ next rest, lines ++ [[]] = next :: rest :=
      List.exists_cons_of_ne_nil (by simp)
    rw [List.map_cons, List.flatten_cons, ih, List.cons_append, hcons,
      List.intercalate_cons_cons, List.append_assoc]

/-- What is read back one by one is read back as a list. -/
theorem mapM_readBack {α : Type} {write : Event → α} {read : α → Option Event} {events : List Event}
    (h : ∀ event ∈ events, read (write event) = some event) :
    (events.map write).mapM read = some events := by
  induction events with
  | nil => rfl
  | cons event events ih =>
    have htail := ih (fun e he => h e (List.mem_cons_of_mem event he))
    simp [h event List.mem_cons_self, htail]

/-- The header row without its end of line. -/
def csvHeaderLine : Text :=
  "sequence,timestamp_ns,timestamp_utc,producer_id,type,severity,payload_size,payload_hex".toList

theorem flatten_csvPieces (events : List Event) : (csvPieces events).flatten =
    ['\n'].intercalate (csvHeaderLine :: events.map csvLine ++ [[]]) := by
  have hheader : csvHeader = csvHeaderLine ++ ['\n'] := by decide
  rw [← flatten_lines, csvPieces, List.flatten_cons, hheader, List.map_cons, List.flatten_cons]
  congr 1
  induction events with
  | nil => rfl
  | cons event events ih =>
    rw [List.flatMap_cons, List.flatten_append, ih, flatten_csvRow]
    rfl

/-- The CSV text of valid events gives the events back. -/
theorem readCsv_csvPieces {events : List Event} (hvalid : ∀ event ∈ events, event.Valid) :
    readCsv (csvPieces events).flatten = some events := by
  have hsplit : (csvPieces events).flatten.splitOn '\n' =
      csvHeaderLine :: events.map csvLine ++ [[]] := by
    rw [flatten_csvPieces]
    refine List.splitOn_intercalate '\n' ?_ (by simp)
    intro line hline
    simp only [List.mem_append, List.mem_cons, List.mem_map, List.not_mem_nil, or_false] at hline
    rcases hline with (rfl | ⟨event, hevent, rfl⟩) | rfl
    · decide
    · exact newline_not_mem_csvLine (hvalid event hevent)
    · simp
  rw [readCsv, hsplit, List.cons_append, List.drop_one, List.tail_cons, List.dropLast_concat]
  exact mapM_readBack (fun event hevent => readCsvRow_csvLine (hvalid event hevent))

/-! ## JSON -/

/-- The text of a member of an object with a number as its value, and the member. -/
def numberMember (key : String) (n : ℕ) : Text × (Text × Json.Value) :=
  ('"' :: (key.toList ++ '"' :: ':' :: decimal n), (key.toList, .number (decimal n)))

/-- The text of a member of an object with a string as its value, and the member. -/
def stringMember (key : String) (text : Text) : Text × (Text × Json.Value) :=
  ('"' :: (key.toList ++ '"' :: ':' :: '"' :: (text ++ ['"'])), (key.toList, .string text))

/-- The members of the object of an event. -/
def jsonMembers (event : Event) : List (Text × (Text × Json.Value)) :=
  [numberMember "sequence" event.sequence.toNat,
    numberMember "timestamp_ns" event.timestampNs.toNat,
    stringMember "timestamp_utc" (formatUnixNsUtc event.timestampNs),
    numberMember "producer_id" event.producerId.toNat,
    numberMember "type" event.type.toNat,
    stringMember "severity" (severityToString event.severity),
    numberMember "payload_size" event.payload.length,
    stringMember "payload_hex" (bytesToHex event.payload sizeMax)]

/-- The object of an event. -/
def objectValue (event : Event) : Json.Value := .object ((jsonMembers event).map Prod.snd)

/-- The text of the object of an event. -/
def objectText (event : Event) : Text := (jsonObject event).flatten

/-- The insertion before the value of a member: a bracket or a comma, and the key. -/
private theorem jsonKeys :
    "  \x7b\"sequence\":".toList = [' ', ' ', '{', '"'] ++ ("sequence".toList ++ ['"', ':']) ∧
    ",\"timestamp_ns\":".toList = [',', '"'] ++ ("timestamp_ns".toList ++ ['"', ':']) ∧
    ",\"timestamp_utc\":\"".toList = [',', '"'] ++ ("timestamp_utc".toList ++ ['"', ':', '"']) ∧
    ",\"producer_id\":".toList = [',', '"'] ++ ("producer_id".toList ++ ['"', ':']) ∧
    ",\"type\":".toList = [',', '"'] ++ ("type".toList ++ ['"', ':']) ∧
    ",\"severity\":\"".toList = [',', '"'] ++ ("severity".toList ++ ['"', ':', '"']) ∧
    ",\"payload_size\":".toList = [',', '"'] ++ ("payload_size".toList ++ ['"', ':']) ∧
    ",\"payload_hex\":\"".toList = [',', '"'] ++ ("payload_hex".toList ++ ['"', ':', '"']) ∧
    "\"".toList = ['"'] ∧ "\"\x7d".toList = ['"', '}'] := by
  decide

/-- The parts of an object, whatever its keys and values are. -/
private theorem flatten_object (A a B b C c D d E e F f G g H h : Text) :
    ([[' ', ' ', '{', '"'] ++ (A ++ ['"', ':']), a, [',', '"'] ++ (B ++ ['"', ':']), b,
        [',', '"'] ++ (C ++ ['"', ':', '"']), c, ['"'], [',', '"'] ++ (D ++ ['"', ':']), d,
        [',', '"'] ++ (E ++ ['"', ':']), e, [',', '"'] ++ (F ++ ['"', ':', '"']), f, ['"'],
        [',', '"'] ++ (G ++ ['"', ':']), g, [',', '"'] ++ (H ++ ['"', ':', '"']), h,
        ['"', '}']]).flatten =
      [' ', ' '] ++ '{' :: ([','].intercalate
        ['"' :: (A ++ '"' :: ':' :: a), '"' :: (B ++ '"' :: ':' :: b),
          '"' :: (C ++ '"' :: ':' :: '"' :: (c ++ ['"'])), '"' :: (D ++ '"' :: ':' :: d),
          '"' :: (E ++ '"' :: ':' :: e), '"' :: (F ++ '"' :: ':' :: '"' :: (f ++ ['"'])),
          '"' :: (G ++ '"' :: ':' :: g), '"' :: (H ++ '"' :: ':' :: '"' :: (h ++ ['"']))] ++
        ([] ++ ['}'])) := by
  simp only [List.intercalate_cons_cons, List.intercalate_singleton, List.flatten_cons,
    List.flatten_nil, List.append_assoc, List.cons_append, List.nil_append, List.append_nil]

theorem objectText_eq (event : Event) : objectText event =
    [' ', ' '] ++ '{' :: ([','].intercalate ((jsonMembers event).map Prod.fst) ++ ([] ++ ['}'])) := by
  obtain ⟨h₁, h₂, h₃, h₄, h₅, h₆, h₇, h₈, h₉, h₁₀⟩ := jsonKeys
  unfold objectText jsonObject
  rw [h₁, h₂, h₃, h₄, h₅, h₆, h₇, h₈, h₉, h₁₀, flatten_object]
  rfl

theorem numberMember_reads (depth : ℕ) {key : String}
    (hkey : key.toList.all Json.isPlain = true) (n : ℕ) :
    Json.Reads (Json.parseMember (Json.parseValue (depth + 1))) (numberMember key n).1
      (numberMember key n).2 :=
  Json.parseMember_reads (List.all_eq_true.mp hkey) (Json.parseValue_toDigits depth n)

theorem stringMember_reads (depth : ℕ) {key : String}
    (hkey : key.toList.all Json.isPlain = true) {text : Text}
    (htext : ∀ c ∈ text, IsFieldChar c) :
    Json.Reads (Json.parseMember (Json.parseValue (depth + 1))) (stringMember key text).1
      (stringMember key text).2 :=
  Json.parseMember_reads (List.all_eq_true.mp hkey)
    (Json.parseValue_string depth (fun c hc => (htext c hc).plain.2.2))

/-- The members of a valid event are read as members. -/
theorem jsonMembers_reads (depth : ℕ) {event : Event} (hvalid : event.Valid) :
    ∀ p ∈ jsonMembers event,
      Json.Reads (Json.parseMember (Json.parseValue (depth + 1))) p.1 p.2 := by
  intro p hp
  simp only [jsonMembers, List.mem_cons, List.not_mem_nil, or_false] at hp
  rcases hp with rfl | rfl | rfl | rfl | rfl | rfl | rfl | rfl
  · exact numberMember_reads depth (by decide) _
  · exact numberMember_reads depth (by decide) _
  · exact stringMember_reads depth (by decide) (fun c hc => isFieldChar_utc hc)
  · exact numberMember_reads depth (by decide) _
  · exact numberMember_reads depth (by decide) _
  · exact stringMember_reads depth (by decide) (fun c hc => isFieldChar_severity hc)
  · exact numberMember_reads depth (by decide) _
  · exact stringMember_reads depth (by decide) (fun c hc => isFieldChar_hex hvalid hc)

theorem jsonMembers_quote (event : Event) :
    ∀ p ∈ jsonMembers event, ∃ tail, Json.skipSpace p.1 = '"' :: tail := by
  intro p hp
  simp only [jsonMembers, List.mem_cons, List.not_mem_nil, or_false] at hp
  rcases hp with rfl | rfl | rfl | rfl | rfl | rfl | rfl | rfl <;>
    exact ⟨_, Json.skipSpace_cons rfl _⟩

/-- The text of the object of a valid event is parsed as that object. -/
theorem objectText_reads (depth : ℕ) {event : Event} (hvalid : event.Valid) :
    Json.Reads (Json.parseValue (depth + 2)) (objectText event) (objectValue event) := by
  intro rest _
  have hnone : ∀ c ∈ ([] : Text), Json.isSpace c = true := by simp
  have hparse := Json.parseValue_object (depth + 1) (by simp [jsonMembers])
    (jsonMembers_reads depth hvalid) (by decide) (jsonMembers_quote event) hnone rest
  rw [objectText_eq, List.append_assoc, Json.parseValue_space _ (List.all_eq_true.mp rfl)]
  simp only [List.nil_append, List.append_assoc, List.cons_append] at hparse ⊢
  exact hparse

/-- The object of a valid event gives the event back. -/
theorem readObject_objectValue {event : Event} (hvalid : event.Valid) :
    readObject (objectValue event) = some event := by
  have hsequence : jsonField "sequence" (objectValue event) =
      some (decimal event.sequence.toNat) := rfl
  have htimestamp : jsonField "timestamp_ns" (objectValue event) =
      some (decimal event.timestampNs.toNat) := rfl
  have hproducer : jsonField "producer_id" (objectValue event) =
      some (decimal event.producerId.toNat) := rfl
  have htype : jsonField "type" (objectValue event) = some (decimal event.type.toNat) := rfl
  have hseverity : jsonField "severity" (objectValue event) =
      some (severityToString event.severity) := rfl
  have hpayload : jsonField "payload_hex" (objectValue event) =
      some (bytesToHex event.payload sizeMax) := rfl
  simp only [readObject, hsequence, htimestamp, hproducer, htype, hseverity, hpayload,
    Option.bind_eq_bind, Option.bind_some]
  exact readEvent_fields hvalid

/-- The text of an array, up to the closing bracket: its objects, separated by commas. -/
def jsonBody (objects : List Text) : Text := "[\n".toList ++ [',', '\n'].intercalate objects

/-- The end of the text of an array. -/
def jsonEnd : Text := "\n]\n".toList

theorem flatten_jsonPieces (events : List Event) :
    (jsonPieces events).flatten = jsonBody (events.map objectText) := by
  have hitems : (jsonItems events).flatten = [',', '\n'].intercalate (events.map objectText) := by
    cases events with
    | nil => rfl
    | cons event events =>
      rw [jsonItems, List.flatten_append, ← objectText, List.map_cons]
      induction events generalizing event with
      | nil => simp
      | cons next events ih =>
        have hseparator : ",\n".toList = [',', '\n'] := by decide
        rw [List.map_cons, List.intercalate_cons_cons, ← ih next, List.flatMap_cons,
          List.flatten_append, List.flatten_cons, hseparator, ← objectText]
        simp only [List.append_assoc]
  rw [jsonPieces, List.flatten_cons, hitems, jsonBody]

/-- The end of line behind a comma may as well belong to the object that follows. -/
theorem newline_intercalate {objects : List Text} (hobjects : objects ≠ []) :
    '\n' :: [',', '\n'].intercalate objects = [','].intercalate (objects.map ('\n' :: ·)) := by
  induction objects with
  | nil => exact absurd rfl hobjects
  | cons object objects ih =>
    cases objects with
    | nil => simp
    | cons next objects =>
      have htail := ih (by simp)
      rw [List.intercalate_cons_cons, List.map_cons, List.map_cons, List.intercalate_cons_cons,
        ← List.map_cons, ← htail]
      simp

/-- The text of an array with at least one object. -/
theorem jsonBody_jsonEnd {objects : List Text} (hobjects : objects ≠ []) :
    jsonBody objects ++ jsonEnd =
      '[' :: ([','].intercalate (objects.map ('\n' :: ·)) ++ (['\n'] ++ ']' :: ['\n'])) := by
  have hbegin : "[\n".toList = ['[', '\n'] := by decide
  have hend : jsonEnd = ['\n', ']', '\n'] := by decide
  rw [← newline_intercalate hobjects, jsonBody, hbegin, hend]
  simp

/-- An object on a line of its own is parsed as that object. -/
theorem newlineObject_reads (depth : ℕ) {event : Event} (hvalid : event.Valid) :
    Json.Reads (Json.parseValue (depth + 2)) ('\n' :: objectText event) (objectValue event) := by
  have hnewline : ∀ c ∈ ['\n'], Json.isSpace c = true := List.all_eq_true.mp rfl
  intro rest hrest
  have hskip := Json.parseValue_space (depth + 2) hnewline (objectText event ++ rest)
  exact hskip.trans (objectText_reads depth hvalid rest hrest)

theorem newlineObject_brace (event : Event) :
    ∃ tail, Json.skipSpace ('\n' :: objectText event) = '{' :: tail := by
  have hindent : ∀ c ∈ ['\n', ' ', ' '], Json.isSpace c = true := List.all_eq_true.mp rfl
  rw [objectText_eq]
  exact ⟨_, Json.skipSpace_append hindent _⟩

/-- The whole JSON text of valid events is one array, with the object of each event. -/
theorem parse_json {events : List Event} (hvalid : ∀ event ∈ events, event.Valid) :
    Json.parse (jsonBody (events.map objectText) ++ jsonEnd) =
      some (.array (events.map objectValue)) := by
  by_cases hne : events = []
  · subst hne
    rfl
  · let parts := events.map (fun event => ('\n' :: objectText event, objectValue event))
    have htexts : parts.map Prod.fst = (events.map objectText).map ('\n' :: ·) := by
      simp [parts, Function.comp_def]
    have hvalues : parts.map Prod.snd = events.map objectValue := by
      simp [parts, Function.comp_def]
    have hnewline : ∀ c ∈ ['\n'], Json.isSpace c = true := List.all_eq_true.mp rfl
    have hreads (depth : ℕ) : ∀ p ∈ parts, Json.Reads (Json.parseValue (depth + 2)) p.1 p.2 := by
      intro p hp
      obtain ⟨event, hevent, rfl⟩ := List.mem_map.mp hp
      exact newlineObject_reads depth (hvalid event hevent)
    have hbrace : ∀ p ∈ parts, ∃ tail, Json.skipSpace p.1 = '{' :: tail := by
      intro p hp
      obtain ⟨event, _, rfl⟩ := List.mem_map.mp hp
      exact newlineObject_brace event
    have htext := jsonBody_jsonEnd (show events.map objectText ≠ [] by simpa using hne)
    -- The parser has one level of nesting for each character, and one to spare.
    obtain ⟨depth, hdepth⟩ : ∃ depth,
        (jsonBody (events.map objectText) ++ jsonEnd).length + 1 = depth + 3 := by
      refine ⟨(jsonBody (events.map objectText) ++ jsonEnd).length - 2, ?_⟩
      have hlength := congrArg List.length htext
      simp only [List.length_cons, List.length_append, List.length_nil] at hlength ⊢
      omega
    have harray := Json.parseValue_array (depth + 2) (by simpa [parts] using hne) (hreads depth)
      (by decide) hbrace hnewline ['\n']
    rw [htexts, hvalues] at harray
    rw [Json.parse, hdepth, htext, harray]
    rfl

/-- The text of each object by itself gives its event back. -/
theorem readObject_objectText {event : Event} (hvalid : event.Valid) :
    (Json.parse (objectText event)).bind readObject = some event := by
  obtain ⟨depth, hdepth⟩ : ∃ depth, (objectText event).length + 1 = depth + 2 := by
    refine ⟨(objectText event).length - 1, ?_⟩
    have : 0 < (objectText event).length := by
      rw [objectText_eq]
      simp
    omega
  have hparse := objectText_reads depth hvalid [] Json.ends_nil
  rw [List.append_nil] at hparse
  rw [Json.parse, hdepth, hparse]
  exact readObject_objectValue hvalid

/-! ## The outputs for a file -/

variable (opts : CommonOptions) (file : List UInt8)

/-- Whatever the file holds, only events that the format can represent are selected. -/
theorem selected_valid : ∀ event ∈ opts.selected
    (BinaryLogReader.delivered opts.input (IFStream.ofBytes file)).1, event.Valid := by
  intro event hevent
  exact (BinaryLogReader.delivered_file opts.input file).1 event
    (CommonOptions.mem_of_mem_selected hevent)

/-- A command fails with the exception of the reader, unless it reaches its limit before. -/
theorem ending_eq_error (delivered : List Event × Option Exception) (e : Exception) :
    opts.ending delivered = .error e ↔ delivered.2 = some e ∧ ¬ opts.LimitReached delivered.1 := by
  unfold CommonOptions.ending
  by_cases hreached : opts.LimitReached delivered.1
  · simp [hreached]
  · cases delivered.2 <;> simp [hreached]

/-- If the reader cannot be constructed nothing is selected, and a command ends with the exception of
the constructor. -/
theorem ending_of_new_error {opts : CommonOptions} {input : IFStream} {e : Exception}
    (hnew : BinaryLogReader.new opts.input input = .error e) :
    opts.selected (BinaryLogReader.delivered opts.input input).1 = [] ∧
      opts.ending (BinaryLogReader.delivered opts.input input) = .error e := by
  have hdelivered : BinaryLogReader.delivered opts.input input = ([], some e) := by
    simp only [BinaryLogReader.delivered, hnew]
  rw [hdelivered, ending_eq_error]
  refine ⟨by simp [CommonOptions.selected, CommonOptions.satisfying], rfl, ?_⟩
  rintro ⟨hlimit, hle⟩
  have hzero : opts.limit.toNat = 0 := by simpa [CommonOptions.satisfying] using hle
  exact hlimit (UInt64.toNat_inj.mp hzero)

theorem delivered_of_new_ok {opts : CommonOptions} {input : IFStream} {r : BinaryLogReader}
    (hnew : BinaryLogReader.new opts.input input = .ok r) :
    BinaryLogReader.delivered opts.input input = r.deliver := by
  simp only [BinaryLogReader.delivered, hnew]

/-- `dump` prints the lines of the selected events. -/
theorem dump_text :
    let delivered := BinaryLogReader.delivered opts.input (IFStream.ofBytes file)
    dump opts (IFStream.ofBytes file) ([] : Text) =
      (opts.ending delivered, ((opts.selected delivered.1).flatMap dumpLine).flatten) := by
  intro delivered
  cases hnew : BinaryLogReader.new opts.input (IFStream.ofBytes file) with
  | error e =>
    obtain ⟨hselected, hending⟩ := ending_of_new_error hnew
    simp only [delivered, dump, hnew, hending, hselected]
    rfl
  | ok r =>
    have hdump := dump_eq hnew ([] : Text)
    rw [insertAll_text, List.nil_append, ← delivered_of_new_ok hnew] at hdump
    exact hdump

/-- The rows of an export as CSV give the selected events back. -/
theorem writeCsv_text :
    let delivered := BinaryLogReader.delivered opts.input (IFStream.ofBytes file)
    ∃ csv, writeCsv opts (IFStream.ofBytes file) ([] : Text) = (opts.ending delivered, csv) ∧
      readCsv csv = some (opts.selected delivered.1) := by
  intro delivered
  cases hnew : BinaryLogReader.new opts.input (IFStream.ofBytes file) with
  | error e =>
    obtain ⟨hselected, hending⟩ := ending_of_new_error hnew
    simp only [delivered, writeCsv, hnew, hending, hselected]
    exact ⟨[], rfl, rfl⟩
  | ok r =>
    have hcsv := writeCsv_eq hnew ([] : Text)
    rw [insertAll_text, List.nil_append, ← delivered_of_new_ok hnew] at hcsv
    exact ⟨_, hcsv, readCsv_csvPieces (selected_valid opts file)⟩

/-- The objects of an export as JSON give the selected events back one by one, and as an array unless
the run fails. -/
theorem writeJson_text :
    let delivered := BinaryLogReader.delivered opts.input (IFStream.ofBytes file)
    ∃ json, writeJson opts (IFStream.ofBytes file) ([] : Text) = (opts.ending delivered, json) ∧
      (∃ objects, objects.map (fun object => (Json.parse object).bind readObject) =
          (opts.selected delivered.1).map some ∧
        (json = jsonBody objects ++ jsonEnd ∨ json = jsonBody objects ∨
          json = [] ∧ objects = [])) ∧
      (opts.ending delivered = .ok () → ∃ items, Json.parse json = some (.array items) ∧
        items.map readObject = (opts.selected delivered.1).map some) := by
  intro delivered
  have hvalid := selected_valid opts file
  cases hnew : BinaryLogReader.new opts.input (IFStream.ofBytes file) with
  | error e =>
    obtain ⟨hselected, hending⟩ := ending_of_new_error hnew
    simp only [delivered, writeJson, hnew, hending, hselected]
    exact ⟨[], rfl, ⟨[], rfl, Or.inr (Or.inr ⟨rfl, rfl⟩)⟩, fun h => by cases h⟩
  | ok r =>
    have hjson := writeJson_eq hnew ([] : Text)
    rw [insertAll_text, List.nil_append, ← delivered_of_new_ok hnew, List.flatten_append,
      flatten_jsonPieces] at hjson
    refine ⟨_, hjson, ⟨(opts.selected delivered.1).map objectText, ?_, ?_⟩, fun hok => ?_⟩
    · rw [List.map_map]
      exact List.map_congr_left (fun event hevent => readObject_objectText (hvalid event hevent))
    · rcases opts.ending (BinaryLogReader.delivered opts.input (IFStream.ofBytes file)) with e | ⟨⟩
      · exact Or.inr (Or.inl (by simp [delivered]))
      · exact Or.inl (by simp [delivered, jsonEnd])
    · refine ⟨(opts.selected delivered.1).map objectValue, ?_, ?_⟩
      · simp only [delivered] at hok
        rw [hok]
        simpa [jsonEnd] using parse_json hvalid
      · rw [List.map_map]
        exact List.map_congr_left
          (fun event hevent => readObject_objectValue (hvalid event hevent))

end Tool

end Hpblr
