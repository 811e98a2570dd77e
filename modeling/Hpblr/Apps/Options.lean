import Hpblr.Event

/-!
# The options of the recording tools

`parse_options` of `hpblr_record` and `hpblr_bench`. Both loop over the arguments in the same way,
and differ in their options and defaults. An option that takes a value stores it or throws.
-/

namespace Hpblr

/-! ## Numbers -/

/-- `parse_u64`. -/
def parseU64 (text : String) : Option UInt64 :=
  match fromChars text.toList with
  | .ok (value, []) => some value
  | _ => none

/-- `parse_size`: every 64-bit value fits into a `std::size_t`. -/
def parseSize (text : String) : Option UInt64 := parseU64 text

/-- A number that must not be zero. -/
def parsePositive (text : String) : Option UInt64 :=
  (parseSize text).filter (fun value => value ≠ 0)

theorem parsePositive_ne_zero {text : String} {value : UInt64}
    (h : parsePositive text = some value) : value ≠ 0 := by
  simpa using (Option.mem_filter_iff.mp h).2

/-! ## The loop over the arguments -/

/-- Why `parse_options` does not return. -/
inductive ParseExit where
  /-- `std::exit(0)` after the usage text. -/
  | help
  | threw (e : Exception)
  deriving DecidableEq

/-- What an argument that is no request for help means: an option without value, or one that
stores the value that follows it. -/
inductive Argument (O : Type*) where
  | flag (opts : O)
  | option (store : String → Option O)

/-- `parse_options`, for the arguments that `argument` knows. -/
def parseOptions {O : Type*} (argument : O → String → Option (Argument O)) (opts : O) :
    List String → Except ParseExit O
  | [] => .ok opts
  | arg :: args =>
    if arg = "--help" ∨ arg = "-h" then .error .help
    else
      match argument opts arg, args with
      | none, _ => .error (.threw (.runtimeError ("unknown option: " ++ arg)))
      | some (.flag opts), args => parseOptions argument opts args
      | some (.option _), [] => .error (.threw (.runtimeError ("missing value for " ++ arg)))
      | some (.option store), value :: args =>
        match store value with
        | some opts => parseOptions argument opts args
        | none => .error (.threw (.runtimeError ("invalid " ++ arg ++ " value")))

/-- What the defaults have and every stored value keeps, the parsed options have. -/
theorem parseOptions_valid {O : Type*} {argument : O → String → Option (Argument O)}
    {valid : O → Prop} (hflag : ∀ opts arg opts', valid opts →
      argument opts arg = some (.flag opts') → valid opts')
    (hoption : ∀ opts arg store value opts', valid opts →
      argument opts arg = some (.option store) → store value = some opts' → valid opts')
    {opts parsed : O} {args : List String} (hvalid : valid opts)
    (h : parseOptions argument opts args = .ok parsed) : valid parsed := by
  fun_induction parseOptions argument opts args with
  | case1 opts =>
    cases h
    exact hvalid
  | case4 opts arg _ opts' args harg ih => exact ih (hflag opts arg opts' hvalid harg) h
  | case6 opts arg _ store value args harg opts' hstore ih =>
    exact ih (hoption opts arg store value opts' hvalid harg hstore) h
  | _ => cases h

/-! ## The two tools -/

/-- `Options` of `hpblr_record`. -/
structure RecordOptions where
  output : String := "recording.hpblr"
  producers : UInt64 := 4
  events : UInt64 := 10000
  payloadSize : UInt64 := 64
  queueCapacity : UInt64 := 8192
  flushBytes : UInt64 := (1 : UInt64) <<< 20
  sleepUs : UInt64 := 0
  logFile : String := ""
  deriving DecidableEq

/-- The options of `hpblr_record`. -/
def RecordOptions.argument (opts : RecordOptions) : String → Option (Argument RecordOptions)
  | "--output" => some (.option fun value => some { opts with output := value })
  | "--producers" => some (.option fun value =>
      (parsePositive value).map (fun n => { opts with producers := n }))
  | "--events" => some (.option fun value =>
      (parseU64 value).map (fun n => { opts with events := n }))
  | "--payload-size" => some (.option fun value =>
      (parseSize value).map (fun n => { opts with payloadSize := n }))
  | "--queue-capacity" => some (.option fun value =>
      (parsePositive value).map (fun n => { opts with queueCapacity := n }))
  | "--flush-bytes" => some (.option fun value =>
      (parsePositive value).map (fun n => { opts with flushBytes := n }))
  | "--sleep-us" => some (.option fun value =>
      (parseU64 value).map (fun n => { opts with sleepUs := n }))
  | "--log-file" => some (.option fun value => some { opts with logFile := value })
  | _ => none

/-- `parse_options` of `hpblr_record`. -/
def RecordOptions.parse (args : List String) : Except ParseExit RecordOptions :=
  parseOptions RecordOptions.argument {} args

/-- What `parse_options` of `hpblr_record` promises. -/
structure RecordOptions.Valid (opts : RecordOptions) : Prop where
  producers : opts.producers ≠ 0
  queueCapacity : opts.queueCapacity ≠ 0
  flushBytes : opts.flushBytes ≠ 0

theorem RecordOptions.parse_valid {args : List String} {opts : RecordOptions}
    (h : RecordOptions.parse args = .ok opts) : opts.Valid := by
  refine parseOptions_valid (fun opts arg opts' hvalid harg => ?_)
    (fun opts arg store value opts' hvalid harg hstore => ?_) ⟨by decide, by decide, by decide⟩ h
  · unfold RecordOptions.argument at harg
    split at harg <;> cases harg
  · unfold RecordOptions.argument at harg
    split at harg <;> cases harg
    · cases hstore
      exact ⟨hvalid.producers, hvalid.queueCapacity, hvalid.flushBytes⟩
    · obtain ⟨n, hn, rfl⟩ := Option.map_eq_some_iff.mp hstore
      exact ⟨parsePositive_ne_zero hn, hvalid.queueCapacity, hvalid.flushBytes⟩
    · obtain ⟨n, _, rfl⟩ := Option.map_eq_some_iff.mp hstore
      exact ⟨hvalid.producers, hvalid.queueCapacity, hvalid.flushBytes⟩
    · obtain ⟨n, _, rfl⟩ := Option.map_eq_some_iff.mp hstore
      exact ⟨hvalid.producers, hvalid.queueCapacity, hvalid.flushBytes⟩
    · obtain ⟨n, hn, rfl⟩ := Option.map_eq_some_iff.mp hstore
      exact ⟨hvalid.producers, parsePositive_ne_zero hn, hvalid.flushBytes⟩
    · obtain ⟨n, hn, rfl⟩ := Option.map_eq_some_iff.mp hstore
      exact ⟨hvalid.producers, hvalid.queueCapacity, parsePositive_ne_zero hn⟩
    · obtain ⟨n, _, rfl⟩ := Option.map_eq_some_iff.mp hstore
      exact ⟨hvalid.producers, hvalid.queueCapacity, hvalid.flushBytes⟩
    · cases hstore
      exact ⟨hvalid.producers, hvalid.queueCapacity, hvalid.flushBytes⟩

/-- `Options` of `hpblr_bench`. -/
structure BenchOptions where
  output : String := "benchmark.hpblr"
  report : String := ""
  producers : UInt64 := 4
  events : UInt64 := 100000
  payloadSize : UInt64 := 64
  queueCapacity : UInt64 := 32768
  flushBytes : UInt64 := (4 : UInt64) <<< 20
  jsonStdout : Bool := false
  deriving DecidableEq

/-- The options of `hpblr_bench`. -/
def BenchOptions.argument (opts : BenchOptions) : String → Option (Argument BenchOptions)
  | "--output" => some (.option fun value => some { opts with output := value })
  | "--report" => some (.option fun value => some { opts with report := value })
  | "--json" => some (.flag { opts with jsonStdout := true })
  | "--producers" => some (.option fun value =>
      (parsePositive value).map (fun n => { opts with producers := n }))
  | "--events" => some (.option fun value =>
      (parsePositive value).map (fun n => { opts with events := n }))
  | "--payload-size" => some (.option fun value =>
      (parseSize value).map (fun n => { opts with payloadSize := n }))
  | "--queue-capacity" => some (.option fun value =>
      (parsePositive value).map (fun n => { opts with queueCapacity := n }))
  | "--flush-bytes" => some (.option fun value =>
      (parsePositive value).map (fun n => { opts with flushBytes := n }))
  | _ => none

/-- `parse_options` of `hpblr_bench`. -/
def BenchOptions.parse (args : List String) : Except ParseExit BenchOptions :=
  parseOptions BenchOptions.argument {} args

/-- What `parse_options` of `hpblr_bench` promises. -/
structure BenchOptions.Valid (opts : BenchOptions) : Prop where
  producers : opts.producers ≠ 0
  events : opts.events ≠ 0
  queueCapacity : opts.queueCapacity ≠ 0
  flushBytes : opts.flushBytes ≠ 0

theorem BenchOptions.parse_valid {args : List String} {opts : BenchOptions}
    (h : BenchOptions.parse args = .ok opts) : opts.Valid := by
  refine parseOptions_valid (fun opts arg opts' hvalid harg => ?_)
    (fun opts arg store value opts' hvalid harg hstore => ?_)
    ⟨by decide, by decide, by decide, by decide⟩ h
  · unfold BenchOptions.argument at harg
    split at harg <;> cases harg
    exact ⟨hvalid.producers, hvalid.events, hvalid.queueCapacity, hvalid.flushBytes⟩
  · unfold BenchOptions.argument at harg
    split at harg <;> cases harg
    · cases hstore
      exact ⟨hvalid.producers, hvalid.events, hvalid.queueCapacity, hvalid.flushBytes⟩
    · cases hstore
      exact ⟨hvalid.producers, hvalid.events, hvalid.queueCapacity, hvalid.flushBytes⟩
    · obtain ⟨n, hn, rfl⟩ := Option.map_eq_some_iff.mp hstore
      exact ⟨parsePositive_ne_zero hn, hvalid.events, hvalid.queueCapacity, hvalid.flushBytes⟩
    · obtain ⟨n, hn, rfl⟩ := Option.map_eq_some_iff.mp hstore
      exact ⟨hvalid.producers, parsePositive_ne_zero hn, hvalid.queueCapacity, hvalid.flushBytes⟩
    · obtain ⟨n, _, rfl⟩ := Option.map_eq_some_iff.mp hstore
      exact ⟨hvalid.producers, hvalid.events, hvalid.queueCapacity, hvalid.flushBytes⟩
    · obtain ⟨n, hn, rfl⟩ := Option.map_eq_some_iff.mp hstore
      exact ⟨hvalid.producers, hvalid.events, parsePositive_ne_zero hn, hvalid.flushBytes⟩
    · obtain ⟨n, hn, rfl⟩ := Option.map_eq_some_iff.mp hstore
      exact ⟨hvalid.producers, hvalid.events, hvalid.queueCapacity, parsePositive_ne_zero hn⟩

end Hpblr
