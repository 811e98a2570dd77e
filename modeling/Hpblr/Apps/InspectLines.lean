import Hpblr.Apps.Dump
import Hpblr.Apps.Inspect

/-!
# Reading the lines of `inspect` back

`inspect` prints the path of the file and then a line with a name for each number. A reader that takes
the lines from the last one on gets the numbers back, whatever characters the path consists of.
-/

namespace Hpblr

namespace Tool

/-! ## The reader -/

/-- What `inspect` says about a file. -/
structure InspectReport where
  version : UInt64
  createdUnixNs : UInt64
  createdUtc : Text
  count : UInt64
  payloadBytes : UInt64
  /-- The first and the last timestamp, unless there is no event. -/
  timestamps : Option (UInt64 × UInt64)
  /-- The counters of the severities, from `trace` to `critical`. -/
  severities : List UInt64
  deriving DecidableEq

/-- The number in a line with this name. -/
def lineNumber (name : String) (line : Text) : Option UInt64 :=
  (fieldValue name line).bind (fun value => parseU64 (String.ofList value))

/-- The two timestamps, if these are their lines, from the last one on. -/
def readTimestamps : List Text → Option (UInt64 × UInt64)
  | last :: first :: _ => do
    let last ← lineNumber "last_timestamp_ns" last
    let first ← lineNumber "first_timestamp_ns" first
    return (first, last)
  | _ => none

/-- The report from the lines, from the last one on. -/
def readInspectLines : List Text → Option InspectReport
  | critical :: error :: warning :: info :: debug :: trace :: rest => do
    let trace ← lineNumber "severity_trace" trace
    let debug ← lineNumber "severity_debug" debug
    let info ← lineNumber "severity_info" info
    let warning ← lineNumber "severity_warning" warning
    let error ← lineNumber "severity_error" error
    let critical ← lineNumber "severity_critical" critical
    let timestamps := readTimestamps rest
    match if timestamps.isSome then rest.drop 2 else rest with
    | payloadBytes :: count :: createdUtc :: createdUnixNs :: version :: _ => do
      let version ← lineNumber "version" version
      let createdUnixNs ← lineNumber "created_unix_ns" createdUnixNs
      let createdUtc ← fieldValue "created_utc" createdUtc
      let count ← lineNumber "events" count
      let payloadBytes ← lineNumber "payload_bytes" payloadBytes
      return {
        version := version
        createdUnixNs := createdUnixNs
        createdUtc := createdUtc
        count := count
        payloadBytes := payloadBytes
        timestamps := timestamps
        severities := [trace, debug, info, warning, error, critical] }
    | _ => none
  | _ => none

/-- The report from a text of `inspect`. -/
def readInspect (text : Text) : Option InspectReport :=
  readInspectLines (text.splitOn '\n').reverse.tail

/-! ## The lines -/

/-- The report of these totals. -/
def InspectTotals.report (totals : InspectTotals) (info : FileInfo) : InspectReport where
  version := info.version.toUInt64
  createdUnixNs := info.createdUnixNs
  createdUtc := formatUnixNsUtc info.createdUnixNs
  count := totals.count
  payloadBytes := totals.payloadBytes
  timestamps :=
    if totals.count > 0 then some (info.firstTimestampNs, info.lastTimestampNs) else none
  severities := totals.severities.toList

/-- A line with a number. -/
def numberLine (name : String) (value : UInt64) : Text := namedField name (decimal value.toNat)

theorem lineNumber_numberLine (name : String) (value : UInt64) :
    lineNumber name (numberLine name value) = some value := by
  rw [lineNumber, numberLine, fieldValue_namedField, Option.bind_some, parseU64_decimal]

/-- The lines in front of the timestamps. -/
def headLines (totals : InspectTotals) (info : FileInfo) : List Text :=
  [numberLine "version" info.version.toUInt64, numberLine "created_unix_ns" info.createdUnixNs,
    namedField "created_utc" (formatUnixNsUtc info.createdUnixNs),
    numberLine "events" totals.count, numberLine "payload_bytes" totals.payloadBytes]

/-- The lines of the timestamps, which are printed only if there are events. -/
def timestampLines (totals : InspectTotals) (info : FileInfo) : List Text :=
  if totals.count > 0 then
    [numberLine "first_timestamp_ns" info.firstTimestampNs,
      numberLine "last_timestamp_ns" info.lastTimestampNs]
  else []

/-- The lines of the severities. -/
def severityNumbers (totals : InspectTotals) : List Text :=
  [numberLine "severity_trace" totals.severities[0], numberLine "severity_debug" totals.severities[1],
    numberLine "severity_info" totals.severities[2],
    numberLine "severity_warning" totals.severities[3],
    numberLine "severity_error" totals.severities[4],
    numberLine "severity_critical" totals.severities[5]]

private theorem inspectLiterals :
    "version=".toList = "version".toList ++ ['='] ∧
    "created_unix_ns=".toList = "created_unix_ns".toList ++ ['='] ∧
    "created_utc=".toList = "created_utc".toList ++ ['='] ∧
    "events=".toList = "events".toList ++ ['='] ∧
    "payload_bytes=".toList = "payload_bytes".toList ++ ['='] ∧
    "first_timestamp_ns=".toList = "first_timestamp_ns".toList ++ ['='] ∧
    "last_timestamp_ns=".toList = "last_timestamp_ns".toList ++ ['='] := by
  decide

/-- The insertions for a severity are a line. -/
theorem flatten_severityPieces (totals : InspectTotals) :
    ((List.range 6).flatMap (severityPieces totals)).flatten =
      ((severityNumbers totals).map (· ++ ['\n'])).flatten := by
  have hpiece (i : ℕ) (hi : i < 6) (severity : Severity) (name : String)
      (hseverity : severityFromU16 (UInt16.ofNat i) = some severity)
      (hname : name.toList = "severity_".toList ++ severityToString severity) :
      (severityPieces totals i).flatten = numberLine name totals.severities[i] ++ ['\n'] := by
    have hvalue : totals.severities.toList.getD i 0 = totals.severities[i] := by
      rw [List.getD_eq_getElem _ _ (by simpa using hi)]
      rfl
    rw [severityPieces, hseverity, numberLine, namedField, hname]
    simp only [hvalue, List.flatten_cons, List.flatten_nil, List.append_assoc, List.cons_append,
      List.nil_append, List.append_nil]
  have hrange : List.range 6 = [0, 1, 2, 3, 4, 5] := rfl
  simp only [hrange, List.flatMap_cons, List.flatMap_nil, List.flatten_append, List.append_nil]
  rw [hpiece 0 (by decide) .trace "severity_trace" rfl (by decide),
    hpiece 1 (by decide) .debug "severity_debug" rfl (by decide),
    hpiece 2 (by decide) .info "severity_info" rfl (by decide),
    hpiece 3 (by decide) .warning "severity_warning" rfl (by decide),
    hpiece 4 (by decide) .error "severity_error" rfl (by decide),
    hpiece 5 (by decide) .critical "severity_critical" rfl (by decide)]
  simp only [severityNumbers, List.map_cons, List.map_nil, List.flatten_cons, List.flatten_nil,
    List.append_nil]

/-- The parts of the first lines, whatever their names and values are. -/
private theorem flatten_head (file path A a B b C c D d E e : Text) :
    ([file, path, ['\n'], A ++ ['='], a, ['\n'], B ++ ['='], b, ['\n'], C ++ ['='], c, ['\n'],
        D ++ ['='], d, ['\n'], E ++ ['='], e, ['\n']]).flatten =
      (file ++ path) ++ '\n' :: ([A ++ '=' :: a, B ++ '=' :: b, C ++ '=' :: c, D ++ '=' :: d,
        E ++ '=' :: e].map (· ++ ['\n'])).flatten := by
  simp only [List.flatten_cons, List.flatten_nil, List.map_cons, List.map_nil, List.append_assoc,
    List.cons_append, List.nil_append, List.append_nil]

/-- The parts of the two lines of the timestamps. -/
private theorem flatten_pair (A a B b : Text) :
    ([A ++ ['='], a, ['\n'], B ++ ['='], b, ['\n']]).flatten =
      ([A ++ '=' :: a, B ++ '=' :: b].map (· ++ ['\n'])).flatten := by
  simp only [List.flatten_cons, List.flatten_nil, List.map_cons, List.map_nil, List.append_assoc,
    List.cons_append, List.nil_append, List.append_nil]

/-- The text of `inspect` is a line with the path, and the lines of the numbers. -/
theorem flatten_inspectPieces (opts : CommonOptions) (totals : InspectTotals) (info : FileInfo) :
    (inspectPieces opts totals info).flatten = ("file=".toList ++ quoted opts.input) ++ '\n' ::
      ((headLines totals info ++ (timestampLines totals info ++ severityNumbers totals)).map
        (· ++ ['\n'])).flatten := by
  obtain ⟨h₁, h₂, h₃, h₄, h₅, h₆, h₇⟩ := inspectLiterals
  have hversion : info.version.toUInt64.toNat = info.version.toNat := UInt16.toNat_toUInt64 _
  have htimes : (if totals.count > 0 then
      ["first_timestamp_ns".toList ++ ['='], decimal info.firstTimestampNs.toNat, ['\n'],
        "last_timestamp_ns".toList ++ ['='], decimal info.lastTimestampNs.toNat, ['\n']]
      else []).flatten = ((timestampLines totals info).map (· ++ ['\n'])).flatten := by
    rw [timestampLines]
    split
    · exact flatten_pair _ _ _ _
    · rfl
  rw [inspectPieces, List.flatten_append, List.flatten_append, flatten_severityPieces, h₁, h₂, h₃,
    h₄, h₅, h₆, h₇, htimes, flatten_head, ← hversion, List.map_append, List.flatten_append,
    List.map_append, List.flatten_append, List.append_assoc, List.append_assoc, List.append_assoc]
  rfl

/-- No line holds an end of line. -/
theorem mem_inspectLines {totals : InspectTotals} {info : FileInfo} {line : Text}
    (hline : line ∈ headLines totals info ++ (timestampLines totals info ++ severityNumbers totals)) :
    '\n' ∉ line := by
  have hnumber (name : String) (value : UInt64)
      (hname : name.toList.all (fun c => c ≠ ' ' ∧ c ≠ '\n') = true) :
      '\n' ∉ numberLine name value :=
    fun hmem => (namedField_plain hname (fun _ => isFieldChar_decimal) hmem).2 rfl
  rcases List.mem_append.mp hline with hhead | hrest
  · simp only [headLines, List.mem_cons, List.not_mem_nil, or_false] at hhead
    rcases hhead with rfl | rfl | rfl | rfl | rfl
    · exact hnumber _ _ (by decide)
    · exact hnumber _ _ (by decide)
    · exact fun hmem => (namedField_plain (by decide) (fun _ => isFieldChar_utc) hmem).2 rfl
    · exact hnumber _ _ (by decide)
    · exact hnumber _ _ (by decide)
  · rcases List.mem_append.mp hrest with htimes | hseverities
    · unfold timestampLines at htimes
      split at htimes
      · simp only [List.mem_cons, List.not_mem_nil, or_false] at htimes
        rcases htimes with rfl | rfl
        · exact hnumber _ _ (by decide)
        · exact hnumber _ _ (by decide)
      · cases htimes
    · simp only [severityNumbers, List.mem_cons, List.not_mem_nil, or_false] at hseverities
      rcases hseverities with rfl | rfl | rfl | rfl | rfl | rfl
      all_goals exact hnumber _ _ (by decide)

/-- Lines of other numbers are no timestamps. -/
theorem readTimestamps_head (totals : InspectTotals) (info : FileInfo) (front : List Text) :
    readTimestamps ((headLines totals info).reverse ++ front) = none := by
  have hname : lineNumber "last_timestamp_ns" (numberLine "payload_bytes" totals.payloadBytes) =
      none := by
    rw [lineNumber, fieldValue, if_neg]
    · rfl
    · exact Bool.false_ne_true
  simp only [headLines, List.reverse_cons, List.reverse_nil, List.nil_append, List.cons_append,
    readTimestamps, hname]
  rfl

/-- The text of `inspect` gives the report back. -/
theorem readInspect_inspectPieces (opts : CommonOptions) (totals : InspectTotals)
    (info : FileInfo) :
    readInspect (inspectPieces opts totals info).flatten = some (totals.report info) := by
  have hlines : ∀ line ∈ headLines totals info ++
      (timestampLines totals info ++ severityNumbers totals) ++ [[]], '\n' ∉ line := by
    intro line hline
    rcases List.mem_append.mp hline with hmem | hmem
    · exact mem_inspectLines hmem
    · rw [List.mem_singleton.mp hmem]
      exact List.not_mem_nil
  have hsplit := List.splitOn_intercalate '\n' hlines (by simp)
  have hseverities : totals.severities.toList = [totals.severities[0], totals.severities[1],
      totals.severities[2], totals.severities[3], totals.severities[4], totals.severities[5]] := by
    refine List.ext_getElem (by simp) fun i hi _ => ?_
    have hcases : i = 0 ∨ i = 1 ∨ i = 2 ∨ i = 3 ∨ i = 4 ∨ i = 5 := by
      rw [Vector.length_toList] at hi
      omega
    rcases hcases with rfl | rfl | rfl | rfl | rfl | rfl <;> rfl
  rw [readInspect, flatten_inspectPieces, List.splitOn_append_cons_self, flatten_lines, hsplit]
  generalize ("file=".toList ++ quoted opts.input).splitOn '\n' = path
  rw [← List.append_assoc, List.reverse_append, List.reverse_singleton, List.singleton_append,
    List.tail_cons, List.reverse_append, List.reverse_append, List.reverse_append,
    List.append_assoc, List.append_assoc, InspectTotals.report, hseverities]
  simp only [severityNumbers, List.reverse_cons, List.reverse_nil, List.nil_append,
    List.cons_append, readInspectLines, lineNumber_numberLine, Option.bind_eq_bind,
    Option.bind_some]
  by_cases hcount : totals.count > 0
  · simp [timestampLines, hcount, readTimestamps, lineNumber_numberLine, headLines,
      fieldValue_namedField]
  · simp only [timestampLines, if_neg hcount, List.reverse_nil, List.nil_append,
      readTimestamps_head]
    simp [headLines, lineNumber_numberLine, fieldValue_namedField]

end Tool

end Hpblr
