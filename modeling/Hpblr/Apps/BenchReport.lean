import Hpblr.Apps.Options
import Hpblr.Lib.JsonTexts
import Hpblr.TimeUtils

/-!
# The report of the benchmark

`make_json_report` of `hpblr_bench`. The path of the log goes into the report as it is, so the report
stands for what it should exactly if there is nothing to escape in this path.
-/

namespace Hpblr

/-- A double in fixed notation with three digits, given by the thousandths that it is rounded to. -/
def fixedPoint (thousandths : ℕ) : Text :=
  decimal (thousandths / 1000) ++ '.' :: setw 3 (decimal (thousandths % 1000))

/-- `make_json_report`. -/
def makeJsonReport (opts : BenchOptions) (written : UInt64) (seconds : ℕ) (fileSize : UInt64)
    (eventsPerSecond mibPerSecond : ℕ) : Text :=
  insertAll ([] : Text) [
    "\x7b\n".toList,
    "  \"events\": ".toList, decimal written.toNat, ",\n".toList,
    "  \"producers\": ".toList, decimal opts.producers.toNat, ",\n".toList,
    "  \"payload_size\": ".toList, decimal opts.payloadSize.toNat, ",\n".toList,
    "  \"queue_capacity\": ".toList, decimal opts.queueCapacity.toNat, ",\n".toList,
    "  \"flush_bytes\": ".toList, decimal opts.flushBytes.toNat, ",\n".toList,
    "  \"duration_seconds\": ".toList, fixedPoint seconds, ",\n".toList,
    "  \"events_per_second\": ".toList, fixedPoint eventsPerSecond, ",\n".toList,
    "  \"file_size_bytes\": ".toList, decimal fileSize.toNat, ",\n".toList,
    "  \"mib_per_second\": ".toList, fixedPoint mibPerSecond, ",\n".toList,
    "  \"output\": \"".toList, opts.output.toList, "\"\n".toList,
    "\x7d\n".toList]

/-- A member with a number, and what is read of it. -/
def reportMember (key : String) (number : Text) : Text × (Text × Json.Value) :=
  (['\n', ' ', ' '] ++ '"' :: (key.toList ++ '"' :: ':' :: ([' '] ++ number)),
    (key.toList, .number number))

/-- The members before the path. -/
def reportMembers (opts : BenchOptions) (written : UInt64) (seconds : ℕ) (fileSize : UInt64)
    (eventsPerSecond mibPerSecond : ℕ) : List (Text × (Text × Json.Value)) :=
  [reportMember "events" (decimal written.toNat),
    reportMember "producers" (decimal opts.producers.toNat),
    reportMember "payload_size" (decimal opts.payloadSize.toNat),
    reportMember "queue_capacity" (decimal opts.queueCapacity.toNat),
    reportMember "flush_bytes" (decimal opts.flushBytes.toNat),
    reportMember "duration_seconds" (fixedPoint seconds),
    reportMember "events_per_second" (fixedPoint eventsPerSecond),
    reportMember "file_size_bytes" (decimal fileSize.toNat),
    reportMember "mib_per_second" (fixedPoint mibPerSecond)]

private theorem reportLiterals :
    "\x7b\n".toList = ['{', '\n'] ∧ ",\n".toList = [',', '\n'] ∧ "\"\n".toList = ['"', '\n'] ∧
    "\x7d\n".toList = ['}', '\n'] ∧
    "  \"events\": ".toList = ' ' :: ' ' :: '"' :: ("events".toList ++ ['"', ':', ' ']) ∧
    "  \"producers\": ".toList = ' ' :: ' ' :: '"' :: ("producers".toList ++ ['"', ':', ' ']) ∧
    "  \"payload_size\": ".toList =
      ' ' :: ' ' :: '"' :: ("payload_size".toList ++ ['"', ':', ' ']) ∧
    "  \"queue_capacity\": ".toList =
      ' ' :: ' ' :: '"' :: ("queue_capacity".toList ++ ['"', ':', ' ']) ∧
    "  \"flush_bytes\": ".toList = ' ' :: ' ' :: '"' :: ("flush_bytes".toList ++ ['"', ':', ' ']) ∧
    "  \"duration_seconds\": ".toList =
      ' ' :: ' ' :: '"' :: ("duration_seconds".toList ++ ['"', ':', ' ']) ∧
    "  \"events_per_second\": ".toList =
      ' ' :: ' ' :: '"' :: ("events_per_second".toList ++ ['"', ':', ' ']) ∧
    "  \"file_size_bytes\": ".toList =
      ' ' :: ' ' :: '"' :: ("file_size_bytes".toList ++ ['"', ':', ' ']) ∧
    "  \"mib_per_second\": ".toList =
      ' ' :: ' ' :: '"' :: ("mib_per_second".toList ++ ['"', ':', ' ']) ∧
    "  \"output\": \"".toList = ' ' :: ' ' :: '"' :: ("output".toList ++ ['"', ':', ' ', '"']) := by
  decide

/-- The report is an object with the path as its last string. -/
theorem makeJsonReport_eq (opts : BenchOptions) (written : UInt64) (seconds : ℕ) (fileSize : UInt64)
    (eventsPerSecond mibPerSecond : ℕ) :
    makeJsonReport opts written seconds fileSize eventsPerSecond mibPerSecond =
      Json.withLast (reportMembers opts written seconds fileSize eventsPerSecond mibPerSecond)
        ['\n', ' ', ' '] "output".toList opts.output.toList := by
  obtain ⟨h₁, h₂, h₃, h₄, h₅, h₆, h₇, h₈, h₉, h₁₀, h₁₁, h₁₂, h₁₃, h₁₄⟩ := reportLiterals
  unfold makeJsonReport
  rw [insertAll_text, h₁, h₂, h₃, h₄, h₅, h₆, h₇, h₈, h₉, h₁₀, h₁₁, h₁₂, h₁₃, h₁₄]
  simp only [Json.withLast, reportMembers, reportMember, List.flatten_cons, List.flatten_nil,
    List.flatMap_cons, List.flatMap_nil, List.cons_append, List.nil_append, List.append_nil,
    List.append_assoc]

/-- A number in fixed notation is a number. -/
theorem fixedPoint_reads (depth thousandths : ℕ) :
    Json.Reads (Json.parseValue (depth + 1)) (fixedPoint thousandths)
      (.number (fixedPoint thousandths)) := by
  refine Json.parseValue_fraction depth (thousandths / 1000) ?_ fun c hc => isDigit_of_mem_setw hc
  intro hnil
  have hlength := congrArg List.length hnil
  simp [setw, decimal] at hlength

theorem reportMember_reads (depth : ℕ) {key : String} (hkey : key.toList.all Json.isPlain = true)
    {number : Text}
    (hnumber : Json.Reads (Json.parseValue (depth + 1)) number (.number number)) :
    Json.Reads (Json.parseMember (Json.parseValue (depth + 1))) (reportMember key number).1
      (reportMember key number).2 := by
  have hvalue : Json.Reads (Json.parseValue (depth + 1)) ([' '] ++ number) (.number number) := by
    intro rest hrest
    rw [List.append_assoc, Json.parseValue_space _ (by simp [Json.isSpace])]
    exact hnumber rest hrest
  have hmember := Json.parseMember_reads (List.all_eq_true.mp hkey) hvalue
  intro rest hrest
  rw [reportMember, List.append_assoc, Json.parseMember_space (by simp [Json.isSpace])]
  exact hmember rest hrest

/-- The keys of the members before the path. -/
def reportKeys : List String :=
  ["events", "producers", "payload_size", "queue_capacity", "flush_bytes", "duration_seconds",
    "events_per_second", "file_size_bytes", "mib_per_second"]

theorem mem_reportMembers {opts : BenchOptions} {written : UInt64} {seconds : ℕ} {fileSize : UInt64}
    {eventsPerSecond mibPerSecond : ℕ} {p : Text × (Text × Json.Value)}
    (hp : p ∈ reportMembers opts written seconds fileSize eventsPerSecond mibPerSecond) :
    ∃ key ∈ reportKeys, ∃ number, p = reportMember key number ∧
      ∀ depth, Json.Reads (Json.parseValue (depth + 1)) number (.number number) := by
  have hdecimal := fun n depth => Json.parseValue_toDigits depth n
  have hfixed := fun n depth => fixedPoint_reads depth n
  simp only [reportMembers, List.mem_cons, List.not_mem_nil, or_false] at hp
  rcases hp with rfl | rfl | rfl | rfl | rfl | rfl | rfl | rfl | rfl
  all_goals first
    | exact ⟨_, by decide, _, rfl, hdecimal _⟩
    | exact ⟨_, by decide, _, rfl, hfixed _⟩

/-- **The report of the benchmark.** If the path of the log has no quote, no backslash and no control
character, the report is a JSON object with these ten members. Otherwise it is no JSON text, or its
member `output` stands for something else than the path. -/
theorem makeJsonReport_spec (opts : BenchOptions) (written : UInt64) (seconds : ℕ)
    (fileSize : UInt64) (eventsPerSecond mibPerSecond : ℕ) :
    ((∀ c ∈ opts.output.toList, Json.isPlain c = true) →
      Json.parse (makeJsonReport opts written seconds fileSize eventsPerSecond mibPerSecond) =
        some (.object [
          ("events".toList, .number (decimal written.toNat)),
          ("producers".toList, .number (decimal opts.producers.toNat)),
          ("payload_size".toList, .number (decimal opts.payloadSize.toNat)),
          ("queue_capacity".toList, .number (decimal opts.queueCapacity.toNat)),
          ("flush_bytes".toList, .number (decimal opts.flushBytes.toNat)),
          ("duration_seconds".toList, .number (fixedPoint seconds)),
          ("events_per_second".toList, .number (fixedPoint eventsPerSecond)),
          ("file_size_bytes".toList, .number (decimal fileSize.toNat)),
          ("mib_per_second".toList, .number (fixedPoint mibPerSecond)),
          ("output".toList, .string opts.output.toList)])) ∧
    ((∃ report raw,
      Json.parse (makeJsonReport opts written seconds fileSize eventsPerSecond mibPerSecond) =
        some report ∧ report.member "output".toList = some (.string raw) ∧
        Json.unescape raw = some opts.output.toList) ↔
      ∀ c ∈ opts.output.toList, Json.isPlain c = true) := by
  have hplainKeys : ∀ key ∈ reportKeys, key.toList.all Json.isPlain = true := by decide
  have hmembers : ∀ depth, ∀ p ∈ reportMembers opts written seconds fileSize eventsPerSecond
      mibPerSecond, Json.Reads (Json.parseMember (Json.parseValue (depth + 1))) p.1 p.2 := by
    intro depth p hp
    obtain ⟨key, hkey, number, rfl, hnumber⟩ := mem_reportMembers hp
    exact reportMember_reads depth (hplainKeys key hkey) (hnumber depth)
  have hfirst : ∀ p ∈ reportMembers opts written seconds fileSize eventsPerSecond mibPerSecond,
      ∃ tail, Json.skipSpace p.1 = '"' :: tail := by
    intro p hp
    obtain ⟨key, _, number, rfl, _⟩ := mem_reportMembers hp
    exact ⟨_, rfl⟩
  have hotherKeys : ∀ key ∈ reportKeys, key.toList ≠ "output".toList := by decide
  have hkeys : ∀ p ∈ reportMembers opts written seconds fileSize eventsPerSecond mibPerSecond,
      p.2.1 ≠ "output".toList := by
    intro p hp
    obtain ⟨key, hkey, number, rfl, _⟩ := mem_reportMembers hp
    exact hotherKeys key hkey
  have hparts : reportMembers opts written seconds fileSize eventsPerSecond mibPerSecond ≠ [] :=
    List.cons_ne_nil _ _
  have hspace : ∀ c ∈ ['\n', ' ', ' '], Json.isSpace c = true := by simp [Json.isSpace]
  have houtput : "output".toList.all Json.isPlain = true := by decide
  have hkey := List.all_eq_true.mp houtput
  rw [makeJsonReport_eq]
  refine ⟨fun hplain => ?_, ?_⟩
  · exact Json.parse_withLast hparts hmembers hfirst hspace hkey hplain
  · exact Json.parse_withLast_iff hparts hmembers hfirst hspace hkey hkeys _

end Hpblr
