import Hpblr.Apps.Tool

/-!
# Which options a command line can ask for

For each tool, arguments from which given options are parsed again. So the parsers return exactly the
options that pass the checks of the single values.
-/

namespace Hpblr

/-! ## Pieces of a command line -/

/-- A command line is parsed piece by piece. -/
theorem parseArguments_append {O : Type*} {argument : O → String → Option (Argument O)}
    {opts parsed : O} {args : List String} (h : parseArguments argument opts args = .ok parsed)
    (more : List String) :
    parseArguments argument opts (args ++ more) = parseArguments argument parsed more := by
  fun_induction parseArguments argument opts args with
  | case1 opts =>
    cases h
    rfl
  | case3 opts arg opts' args harg ih =>
    rw [← ih h, List.cons_append]
    conv_lhs => rw [parseArguments.eq_def]
    simp only [harg]
  | case5 opts arg store value args harg opts' hstore ih =>
    rw [← ih h, List.cons_append, List.cons_append]
    conv_lhs => rw [parseArguments.eq_def]
    simp only [harg, hstore]
  | _ => cases h

/-- What the defaults have and every stored value keeps, the parsed options have. -/
theorem parseArguments_valid {O : Type*} {argument : O → String → Option (Argument O)}
    {valid : O → Prop} (hflag : ∀ opts arg opts', valid opts →
      argument opts arg = some (.flag opts') → valid opts')
    (hoption : ∀ opts arg store value opts', valid opts →
      argument opts arg = some (.option store) → store value = some opts' → valid opts')
    {opts parsed : O} {args : List String} (hvalid : valid opts)
    (h : parseArguments argument opts args = .ok parsed) : valid parsed := by
  fun_induction parseArguments argument opts args with
  | case1 opts =>
    cases h
    exact hvalid
  | case3 opts arg opts' args harg ih => exact ih (hflag opts arg opts' hvalid harg) h
  | case5 opts arg store value args harg opts' hstore ih =>
    exact ih (hoption opts arg store value opts' hvalid harg hstore) h
  | _ => cases h

/-! ## Values -/

/-- A number as an argument. -/
def numberArgument (n : ℕ) : String := String.ofList (decimal n)

@[simp] theorem parseU64_numberArgument (n : UInt64) :
    parseU64 (numberArgument n.toNat) = some n := by
  simp [parseU64, numberArgument]

@[simp] theorem parsePositive_numberArgument {n : UInt64} (hn : n ≠ 0) :
    parsePositive (numberArgument n.toNat) = some n := by
  simp [parsePositive, parseSize, hn]

@[simp] theorem parseU32_numberArgument (n : UInt32) :
    parseU32 (numberArgument n.toNat) = some n := by
  have hwide := parseU64_numberArgument n.toUInt64
  have hle : ¬ n.toUInt64 > 0xFFFFFFFF := by
    have := n.toNat_lt
    rw [gt_iff_lt, UInt64.lt_iff_toNat_lt]
    simp
    omega
  rw [UInt32.toNat_toUInt64] at hwide
  simp [parseU32, hwide, hle]

@[simp] theorem parseU16_numberArgument (n : UInt16) :
    parseU16 (numberArgument n.toNat) = some n := by
  have hwide := parseU64_numberArgument n.toUInt64
  have hle : ¬ n.toUInt64 > 0xFFFF := by
    have := n.toNat_lt
    rw [gt_iff_lt, UInt64.lt_iff_toNat_lt]
    simp
    omega
  rw [UInt16.toNat_toUInt64] at hwide
  simp [parseU16, hwide, hle]

/-! ## The recording tools -/

/-- Arguments for `hpblr_record`. -/
def RecordOptions.arguments (opts : RecordOptions) : List String :=
  ["--output", opts.output, "--producers", numberArgument opts.producers.toNat,
    "--events", numberArgument opts.events.toNat,
    "--payload-size", numberArgument opts.payloadSize.toNat,
    "--queue-capacity", numberArgument opts.queueCapacity.toNat,
    "--flush-bytes", numberArgument opts.flushBytes.toNat,
    "--sleep-us", numberArgument opts.sleepUs.toNat, "--log-file", opts.logFile]

theorem RecordOptions.parse_arguments {opts : RecordOptions} (h : opts.Valid) :
    RecordOptions.parse opts.arguments = .ok opts := by
  simp [RecordOptions.parse, RecordOptions.arguments, parseOptions, RecordOptions.argument,
    parseSize, h.producers, h.queueCapacity, h.flushBytes]

/-- Arguments for `hpblr_bench`. -/
def BenchOptions.arguments (opts : BenchOptions) : List String :=
  ["--output", opts.output, "--report", opts.report,
    "--producers", numberArgument opts.producers.toNat,
    "--events", numberArgument opts.events.toNat,
    "--payload-size", numberArgument opts.payloadSize.toNat,
    "--queue-capacity", numberArgument opts.queueCapacity.toNat,
    "--flush-bytes", numberArgument opts.flushBytes.toNat] ++
  if opts.jsonStdout then ["--json"] else []

theorem BenchOptions.parse_arguments {opts : BenchOptions} (h : opts.Valid) :
    BenchOptions.parse opts.arguments = .ok opts := by
  obtain ⟨output, report, producers, events, payloadSize, queueCapacity, flushBytes, jsonStdout⟩ := opts
  cases jsonStdout <;>
    simp [BenchOptions.parse, BenchOptions.arguments, parseOptions, BenchOptions.argument,
      parseSize, h.producers, h.events, h.queueCapacity, h.flushBytes]

/-! ## The log tool -/

/-- An option that is given only if there is a value for it. -/
def optionalArgument {α : Type*} (name : String) (text : α → String) : Option α → List String
  | none => []
  | some value => [name, text value]

/-- Arguments for `inspect` and `dump`. -/
def CommonOptions.arguments (opts : CommonOptions) : List String :=
  ["--input", opts.input, "--limit", numberArgument opts.limit.toNat] ++
  (optionalArgument "--producer" (fun n => numberArgument n.toNat) opts.filter.producerId ++
  (optionalArgument "--type" (fun n => numberArgument n.toNat) opts.filter.type ++
  (optionalArgument "--severity" (fun s => String.ofList (severityToString s)) opts.filter.severity ++
  (optionalArgument "--from-ns" (fun n => numberArgument n.toNat) opts.filter.fromTimestampNs ++
  optionalArgument "--to-ns" (fun n => numberArgument n.toNat) opts.filter.toTimestampNs))))

/-- The severity of a filter is one of the enumerators. -/
def CommonOptions.Valid (opts : CommonOptions) : Prop :=
  ∀ severity ∈ opts.filter.severity, severity.IsEnumerator

theorem CommonOptions.parse_arguments {opts : CommonOptions} (h : opts.Valid) :
    parseArguments CommonOptions.argument {} opts.arguments = .ok opts := by
  obtain ⟨input, ⟨producerId, type, severity, fromNs, toNs⟩, limit⟩ := opts
  have hfirst : parseArguments CommonOptions.argument {}
      ["--input", input, "--limit", numberArgument limit.toNat] = .ok { input, limit } := by
    simp [parseArguments, CommonOptions.argument]
  have hproducer : parseArguments CommonOptions.argument { input, limit }
      (optionalArgument "--producer" (fun n => numberArgument n.toNat) producerId) =
      .ok { input, limit, filter := { producerId } } := by
    cases producerId <;> simp [optionalArgument, parseArguments, CommonOptions.argument]
  have htype : parseArguments CommonOptions.argument { input, limit, filter := { producerId } }
      (optionalArgument "--type" (fun n => numberArgument n.toNat) type) =
      .ok { input, limit, filter := { producerId, type } } := by
    cases type <;> simp [optionalArgument, parseArguments, CommonOptions.argument]
  have hseverity : parseArguments CommonOptions.argument
      { input, limit, filter := { producerId, type } }
      (optionalArgument "--severity" (fun s => String.ofList (severityToString s)) severity) =
      .ok { input, limit, filter := { producerId, type, severity } } := by
    cases severity with
    | none => rfl
    | some severity =>
      simp [optionalArgument, parseArguments, CommonOptions.argument,
        severityFromString_severityToString (h severity rfl)]
  have hfrom : parseArguments CommonOptions.argument
      { input, limit, filter := { producerId, type, severity } }
      (optionalArgument "--from-ns" (fun n => numberArgument n.toNat) fromNs) =
      .ok { input, limit, filter := { producerId, type, severity, fromTimestampNs := fromNs } } := by
    cases fromNs <;> simp [optionalArgument, parseArguments, CommonOptions.argument]
  have hto : parseArguments CommonOptions.argument
      { input, limit, filter := { producerId, type, severity, fromTimestampNs := fromNs } }
      (optionalArgument "--to-ns" (fun n => numberArgument n.toNat) toNs) =
      .ok { input, limit, filter := ⟨producerId, type, severity, fromNs, toNs⟩ } := by
    cases toNs <;> simp [optionalArgument, parseArguments, CommonOptions.argument]
  rw [CommonOptions.arguments, parseArguments_append hfirst, parseArguments_append hproducer,
    parseArguments_append htype, parseArguments_append hseverity, parseArguments_append hfrom, hto]

theorem isEnumerator_of_severityFromString {value : Text} {severity : Severity}
    (h : severityFromString value = some severity) : severity.IsEnumerator := by
  unfold severityFromString at h
  split_ifs at h
  all_goals try (cases h; decide)
  split at h
  · split_ifs at h
    exact (severityFromU16_eq_some.mp h).1
  · cases h

/-- A stored value keeps the severity of the filter one of the enumerators. -/
theorem CommonOptions.argument_valid {opts : CommonOptions} {arg : String} (hvalid : opts.Valid) :
    (∀ opts', opts.argument arg ≠ some (.flag opts')) ∧
    ∀ store value opts', opts.argument arg = some (.option store) → store value = some opts' →
      opts'.Valid := by
  unfold CommonOptions.argument
  split
  · refine ⟨by simp, fun store value opts' harg hstore => ?_⟩
    cases harg
    cases hstore
    exact hvalid
  · refine ⟨by simp, fun store value opts' harg hstore => ?_⟩
    cases harg
    obtain ⟨n, _, rfl⟩ := Option.map_eq_some_iff.mp hstore
    exact hvalid
  · refine ⟨by simp, fun store value opts' harg hstore => ?_⟩
    cases harg
    obtain ⟨n, _, rfl⟩ := Option.map_eq_some_iff.mp hstore
    exact hvalid
  · refine ⟨by simp, fun store value opts' harg hstore => ?_⟩
    cases harg
    obtain ⟨severity, hseverity, rfl⟩ := Option.map_eq_some_iff.mp hstore
    intro severity' hsome
    cases hsome
    exact isEnumerator_of_severityFromString hseverity
  · refine ⟨by simp, fun store value opts' harg hstore => ?_⟩
    cases harg
    obtain ⟨n, _, rfl⟩ := Option.map_eq_some_iff.mp hstore
    exact hvalid
  · refine ⟨by simp, fun store value opts' harg hstore => ?_⟩
    cases harg
    obtain ⟨n, _, rfl⟩ := Option.map_eq_some_iff.mp hstore
    exact hvalid
  · refine ⟨by simp, fun store value opts' harg hstore => ?_⟩
    cases harg
    obtain ⟨n, _, rfl⟩ := Option.map_eq_some_iff.mp hstore
    exact hvalid
  · exact ⟨by simp, by simp⟩

/-- An argument of `inspect` and `dump` is an argument of `export`. -/
theorem ExportOptions.argument_common {opts : ExportOptions} {arg : String}
    {meaning : Argument CommonOptions} (h : opts.toCommonOptions.argument arg = some meaning) :
    opts.argument arg =
      some (meaning.map (fun common => { opts with toCommonOptions := common })) := by
  have hformat : arg ≠ "--format" := by
    rintro rfl
    cases h
  have houtput : arg ≠ "--output" := by
    rintro rfl
    cases h
  unfold ExportOptions.argument
  split
  · exact absurd rfl hformat
  · exact absurd rfl houtput
  · rw [h, Option.map_some]

/-- A command line of `inspect` and `dump` is one of `export`. -/
theorem ExportOptions.parse_common {common parsed : CommonOptions} {args : List String}
    (h : parseArguments CommonOptions.argument common args = .ok parsed) (format output : String) :
    parseArguments ExportOptions.argument { toCommonOptions := common, format, output } args =
      .ok { toCommonOptions := parsed, format, output } := by
  fun_induction parseArguments CommonOptions.argument common args with
  | case1 common =>
    cases h
    rfl
  | case3 common arg common' args harg ih =>
    have hexport : ExportOptions.argument { toCommonOptions := common, format, output } arg = _ :=
      ExportOptions.argument_common harg
    rw [parseArguments.eq_def]
    simp only [hexport, Argument.map]
    exact ih h
  | case5 common arg store value args harg common' hstore ih =>
    have hexport : ExportOptions.argument { toCommonOptions := common, format, output } arg = _ :=
      ExportOptions.argument_common harg
    rw [parseArguments.eq_def]
    simp only [hexport, Argument.map, hstore, Option.map_some]
    exact ih h
  | _ => cases h

/-- A stored value of `export` keeps the severity of the filter one of the enumerators. -/
theorem ExportOptions.argument_valid {opts : ExportOptions} {arg : String}
    (hvalid : opts.toCommonOptions.Valid) :
    (∀ opts', opts.argument arg ≠ some (.flag opts')) ∧
    ∀ store value opts', opts.argument arg = some (.option store) → store value = some opts' →
      opts'.toCommonOptions.Valid := by
  unfold ExportOptions.argument
  split
  · refine ⟨by simp, fun store value opts' harg hstore => ?_⟩
    cases harg
    cases hstore
    exact hvalid
  · refine ⟨by simp, fun store value opts' harg hstore => ?_⟩
    cases harg
    cases hstore
    exact hvalid
  · obtain ⟨hflag, hoption⟩ := CommonOptions.argument_valid hvalid
    cases hmeaning : opts.toCommonOptions.argument arg with
    | none => exact ⟨by simp, by simp⟩
    | some meaning =>
      cases meaning with
      | flag opts' => exact absurd hmeaning (hflag opts')
      | option store =>
        refine ⟨by simp [Argument.map], fun store' value opts' harg hstore => ?_⟩
        cases harg
        obtain ⟨common, hcommon, rfl⟩ := Option.map_eq_some_iff.mp hstore
        exact hoption store value common hmeaning hcommon

/-- **The options of the tools.** For each tool, the options that some command line asks for are
exactly those that pass the checks of the single values: no zero where the parsers of the recording
tools refuse it, and for the log tool a filter with one of the six severities and an input file. -/
theorem options_exact :
    (∀ opts : RecordOptions, (∃ args, RecordOptions.parse args = .ok opts) ↔ opts.Valid) ∧
    (∀ opts : BenchOptions, (∃ args, BenchOptions.parse args = .ok opts) ↔ opts.Valid) ∧
    (∀ opts : CommonOptions,
      (∃ args, parseCommon args = .ok opts) ↔ opts.Valid ∧ opts.input ≠ "") ∧
    ∀ opts : ExportOptions, (∃ args, parseArguments ExportOptions.argument {} args = .ok opts) ↔
      opts.toCommonOptions.Valid := by
  have hcommon : ∀ opts : CommonOptions,
      (∃ args, parseArguments CommonOptions.argument {} args = .ok opts) ↔ opts.Valid := by
    intro opts
    constructor
    · rintro ⟨args, hargs⟩
      refine parseArguments_valid (fun opts arg opts' hvalid harg => ?_)
        (fun opts arg store value opts' hvalid =>
          (CommonOptions.argument_valid hvalid).2 store value opts')
        (by simp [CommonOptions.Valid]) hargs
      exact absurd harg ((CommonOptions.argument_valid hvalid).1 opts')
    · intro hvalid
      exact ⟨opts.arguments, CommonOptions.parse_arguments hvalid⟩
  refine ⟨fun opts => ⟨?_, ?_⟩, fun opts => ⟨?_, ?_⟩, fun opts => ?_, fun opts => ⟨?_, ?_⟩⟩
  · rintro ⟨args, hargs⟩
    exact RecordOptions.parse_valid hargs
  · intro hvalid
    exact ⟨opts.arguments, RecordOptions.parse_arguments hvalid⟩
  · rintro ⟨args, hargs⟩
    exact BenchOptions.parse_valid hargs
  · intro hvalid
    exact ⟨opts.arguments, BenchOptions.parse_arguments hvalid⟩
  · rw [← hcommon opts]
    constructor
    · rintro ⟨args, hargs⟩
      unfold parseCommon at hargs
      split at hargs
      · cases hargs
      · split_ifs at hargs with hinput
        cases hargs
        exact ⟨⟨args, ‹_›⟩, hinput⟩
    · rintro ⟨⟨args, hargs⟩, hinput⟩
      refine ⟨args, ?_⟩
      rw [parseCommon, hargs]
      simp only [if_neg hinput]
  · rintro ⟨args, hargs⟩
    refine parseArguments_valid (fun opts arg opts' hvalid harg => ?_)
      (fun opts arg store value opts' hvalid => (ExportOptions.argument_valid hvalid).2 store value
        opts') (by simp [CommonOptions.Valid]) hargs
    exact absurd harg ((ExportOptions.argument_valid hvalid).1 opts')
  · intro hvalid
    refine ⟨opts.toCommonOptions.arguments ++ ["--format", opts.format, "--output", opts.output], ?_⟩
    rw [parseArguments_append
      (ExportOptions.parse_common (CommonOptions.parse_arguments hvalid) "" "")]
    simp [parseArguments, ExportOptions.argument]

end Hpblr
