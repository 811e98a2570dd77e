import Hpblr.BinaryLog.Delivery
import Hpblr.Filter
import Hpblr.OutputFile
import Hpblr.TimeUtils
import Hpblr.Apps.Options

/-!
# The log tool

`hpblr_tool` as the code has it: the options, the three commands and `main`. The file system is an
argument. Text goes to a stream that is handed through, and an exception leaves behind what the
stream was given before it.
-/

namespace Hpblr

/-! ## Options -/

/-- `parse_u32`. -/
def parseU32 (text : String) : Option UInt32 :=
  (parseU64 text).bind (fun value => if value > 0xFFFFFFFF then none else some value.toUInt32)

/-- `parse_u16`. -/
def parseU16 (text : String) : Option UInt16 :=
  (parseU64 text).bind (fun value => if value > 0xFFFF then none else some value.toUInt16)

/-- `CommonOptions`. -/
structure CommonOptions where
  input : String := ""
  filter : EventFilter := {}
  limit : UInt64 := 0
  deriving DecidableEq

/-- `parse_common_option`. -/
def CommonOptions.argument (opts : CommonOptions) : String → Option (Argument CommonOptions)
  | "--input" => some (.option fun value => some { opts with input := value })
  | "--producer" => some (.option fun value =>
      (parseU32 value).map (fun n => { opts with filter.producerId := some n }))
  | "--type" => some (.option fun value =>
      (parseU16 value).map (fun n => { opts with filter.type := some n }))
  | "--severity" => some (.option fun value =>
      (severityFromString value.toList).map (fun s => { opts with filter.severity := some s }))
  | "--from-ns" => some (.option fun value =>
      (parseU64 value).map (fun n => { opts with filter.fromTimestampNs := some n }))
  | "--to-ns" => some (.option fun value =>
      (parseU64 value).map (fun n => { opts with filter.toTimestampNs := some n }))
  | "--limit" => some (.option fun value =>
      (parseU64 value).map (fun n => { opts with limit := n }))
  | _ => none

/-- The loop over the arguments of a command. Unlike `parseOptions` it knows no request for help. -/
def parseArguments {O : Type*} (argument : O → String → Option (Argument O)) (opts : O) :
    List String → Except Exception O
  | [] => .ok opts
  | arg :: args =>
    match argument opts arg, args with
    | none, _ => .error (.runtimeError ("unknown option: " ++ arg))
    | some (.flag opts), args => parseArguments argument opts args
    | some (.option _), [] => .error (.runtimeError ("missing value for " ++ arg))
    | some (.option store), value :: args =>
      match store value with
      | some opts => parseArguments argument opts args
      | none => .error (.runtimeError ("invalid " ++ arg ++ " value"))

/-- `parse_common`. -/
def parseCommon (args : List String) : Except Exception CommonOptions :=
  match parseArguments CommonOptions.argument {} args with
  | .error e => .error e
  | .ok opts =>
    if opts.input = "" then .error (.runtimeError "--input is required") else .ok opts

/-- The options of `export_events`. -/
structure ExportOptions extends CommonOptions where
  format : String := ""
  output : String := ""
  deriving DecidableEq

/-- An argument of one record of options, for a record that contains it. -/
def Argument.map {O P : Type*} (f : O → P) : Argument O → Argument P
  | .flag opts => .flag (f opts)
  | .option store => .option (fun value => (store value).map f)

/-- The arguments of `export_events`. -/
def ExportOptions.argument (opts : ExportOptions) : String → Option (Argument ExportOptions)
  | "--format" => some (.option fun value => some { opts with format := value })
  | "--output" => some (.option fun value => some { opts with output := value })
  | arg => (opts.toCommonOptions.argument arg).map
      (Argument.map (fun common => { opts with toCommonOptions := common }))

namespace Tool

/-! ## `inspect` -/

/-- The counters of `inspect`. -/
structure InspectTotals where
  count : UInt64 := 0
  payloadBytes : UInt64 := 0
  severities : Vector UInt64 6 := Vector.replicate 6 0
  deriving DecidableEq

/-- The body of the loop of `inspect`, with the check that `at` makes. -/
def InspectTotals.add (totals : InspectTotals) (event : Event) : Except Exception InspectTotals :=
  let index := (severityToU16 event.severity).toNat
  if h : index < 6 then
    .ok {
      count := totals.count + 1
      payloadBytes := totals.payloadBytes + UInt64.ofNat event.payload.length
      severities := totals.severities.set index (totals.severities[index] + 1) }
  else
    .error (.outOfRange ("array::at: __n (which is " ++ toString index ++ ") >= _Nm (which is 6)"))

/-- The loop of `inspect`: its counters, and the reader it leaves. -/
def inspectLoop (r : BinaryLogReader) (totals : InspectTotals) :
    Except Exception InspectTotals × BinaryLogReader :=
  match hnext : r.next with
  | (.error e, r') => (.error e, r')
  | (.ok none, r') => (.ok totals, r')
  | (.ok (some event), r') =>
    have := BinaryLogReader.rest_next_lt hnext
    match totals.add event with
    | .error e => (.error e, r')
    | .ok totals => inspectLoop r' totals
termination_by r.input.rest.length

/-- The part of `inspect` that reads: the counters and the file information. -/
def inspectTotals (opts : CommonOptions) (input : IFStream) :
    Except Exception (InspectTotals × FileInfo) :=
  match BinaryLogReader.new opts.input input with
  | .error e => .error e
  | .ok r =>
    match inspectLoop r {} with
    | (.error e, _) => .error e
    | (.ok totals, r) => .ok (totals, r.info)

/-- The insertion of a path, in quotes. -/
def quoted (path : String) : Text :=
  '"' :: (path.toList.flatMap (fun c => if c = '"' ∨ c = '\\' then ['\\', c] else [c]) ++ ['"'])

/-- The loop that prints the counters of the severities. -/
def severityLines {σ : Type} [OStream σ] (totals : InspectTotals) :
    List ℕ → σ → Except Exception Unit × σ
  | [], out => (.ok (), out)
  | i :: is, out =>
    match severityFromU16 (UInt16.ofNat i) with
    | none => (.error .badOptionalAccess, out)
    | some severity =>
      severityLines totals is (insertAll out ["severity_".toList, severityToString severity,
        ['='], decimal (totals.severities.toList.getD i 0).toNat, ['\n']])

/-- `inspect`. -/
def inspect {σ : Type} [OStream σ] (opts : CommonOptions) (input : IFStream) (out : σ) :
    Except Exception Unit × σ :=
  match inspectTotals opts input with
  | .error e => (.error e, out)
  | .ok (totals, info) =>
    let out := insertAll out ["file=".toList, quoted opts.input, ['\n']]
    let out := insertAll out ["version=".toList, decimal info.version.toNat, ['\n']]
    let out := insertAll out ["created_unix_ns=".toList, decimal info.createdUnixNs.toNat, ['\n']]
    let out := insertAll out ["created_utc=".toList, formatUnixNsUtc info.createdUnixNs, ['\n']]
    let out := insertAll out ["events=".toList, decimal totals.count.toNat, ['\n']]
    let out := insertAll out ["payload_bytes=".toList, decimal totals.payloadBytes.toNat, ['\n']]
    let out :=
      if totals.count > 0 then
        insertAll out ["first_timestamp_ns=".toList, decimal info.firstTimestampNs.toNat, ['\n'],
          "last_timestamp_ns=".toList, decimal info.lastTimestampNs.toNat, ['\n']]
      else out
    severityLines totals (List.range 6) out

/-! ## `dump` and the two exports -/

/-- The loop that `dump`, `write_csv` and `write_json` have in common. An event that does not match
the filter is skipped, any other one is handed to `emit`, which changes what the loop carries along,
and the loop breaks at the limit. -/
def emitLoop {S : Type} (opts : CommonOptions) (emit : S → Event → S) (r : BinaryLogReader)
    (emitted : UInt64) (s : S) : Except Exception Unit × S :=
  match hnext : r.next with
  | (.error e, _) => (.error e, s)
  | (.ok none, _) => (.ok (), s)
  | (.ok (some event), r') =>
    have := BinaryLogReader.rest_next_lt hnext
    if !opts.filter.matches event then emitLoop opts emit r' emitted s
    else
      let s := emit s event
      let emitted := emitted + 1
      if opts.limit ≠ 0 ∧ emitted ≥ opts.limit then (.ok (), s)
      else emitLoop opts emit r' emitted s
termination_by r.input.rest.length

/-- The insertions of `dump` for one event. -/
def dumpLine (event : Event) : List Text :=
  ["seq=".toList, decimal event.sequence.toNat, " ts_ns=".toList, decimal event.timestampNs.toNat,
    " utc=".toList, formatUnixNsUtc event.timestampNs, " producer=".toList,
    decimal event.producerId.toNat, " type=".toList, decimal event.type.toNat,
    " severity=".toList, severityToString event.severity, " payload_size=".toList,
    decimal event.payload.length, " payload_hex=".toList, bytesToHex event.payload 32, ['\n']]

/-- `dump`. -/
def dump {σ : Type} [OStream σ] (opts : CommonOptions) (input : IFStream) (out : σ) :
    Except Exception Unit × σ :=
  match BinaryLogReader.new opts.input input with
  | .error e => (.error e, out)
  | .ok r => emitLoop opts (fun out event => insertAll out (dumpLine event)) r 0 out

def csvHeader : Text :=
  "sequence,timestamp_ns,timestamp_utc,producer_id,type,severity,payload_size,payload_hex\n".toList

/-- The insertions of `write_csv` for one event. -/
def csvRow (event : Event) : List Text :=
  [decimal event.sequence.toNat, [','], decimal event.timestampNs.toNat, [','],
    formatUnixNsUtc event.timestampNs, [','], decimal event.producerId.toNat, [','],
    decimal event.type.toNat, [','], severityToString event.severity, [','],
    decimal event.payload.length, [','], bytesToHex event.payload sizeMax, ['\n']]

/-- `write_csv`. -/
def writeCsv {σ : Type} [OStream σ] (opts : CommonOptions) (input : IFStream) (out : σ) :
    Except Exception Unit × σ :=
  match BinaryLogReader.new opts.input input with
  | .error e => (.error e, out)
  | .ok r =>
    let out := OStream.insert out csvHeader
    emitLoop opts (fun out event => insertAll out (csvRow event)) r 0 out

/-- The insertions of `write_json` for one event. -/
def jsonObject (event : Event) : List Text :=
  ["  \x7b\"sequence\":".toList, decimal event.sequence.toNat, ",\"timestamp_ns\":".toList,
    decimal event.timestampNs.toNat, ",\"timestamp_utc\":\"".toList,
    formatUnixNsUtc event.timestampNs, "\"".toList, ",\"producer_id\":".toList,
    decimal event.producerId.toNat, ",\"type\":".toList, decimal event.type.toNat,
    ",\"severity\":\"".toList, severityToString event.severity, "\"".toList,
    ",\"payload_size\":".toList, decimal event.payload.length, ",\"payload_hex\":\"".toList,
    bytesToHex event.payload sizeMax, "\"\x7d".toList]

/-- The body of the loop of `write_json`: every object but the first one follows a comma. -/
def jsonEmit {σ : Type} [OStream σ] (s : σ × Bool) (event : Event) : σ × Bool :=
  let (out, first) := s
  let out := if !first then OStream.insert out ",\n".toList else out
  (insertAll out (jsonObject event), false)

/-- `write_json`. -/
def writeJson {σ : Type} [OStream σ] (opts : CommonOptions) (input : IFStream) (out : σ) :
    Except Exception Unit × σ :=
  match BinaryLogReader.new opts.input input with
  | .error e => (.error e, out)
  | .ok r =>
    let out := OStream.insert out "[\n".toList
    match emitLoop opts jsonEmit r 0 (out, true) with
    | (.error e, (out, _)) => (.error e, out)
    | (.ok (), (out, _)) => (.ok (), OStream.insert out "\n]\n".toList)

/-! ## `export` and `main` -/

/-- What the tool meets when it opens a path for reading, at the moment it does so, and when it opens
a path for writing. -/
structure FileSystem where
  input : String → IFStream
  output : String → OutputDevice

/-- What a run of the tool leaves: the text on the two standard streams, and the output file once its
stream is destroyed. -/
structure Outcome where
  stdout : Text := []
  stderr : Text := []
  file : Option OutputFile := none
  deriving DecidableEq

/-- The choice between the two formats. -/
def writeExport {σ : Type} [OStream σ] (opts : ExportOptions) (input : IFStream) (out : σ) :
    Except Exception Unit × σ :=
  if opts.format = "csv" then writeCsv opts.toCommonOptions input out
  else writeJson opts.toCommonOptions input out

/-- `export_events`, behind the loop over the arguments. -/
def exportWith (fs : FileSystem) (opts : ExportOptions) : Except Exception Unit × Outcome :=
  if opts.input = "" then (.error (.runtimeError "--input is required"), {})
  else if opts.format ≠ "csv" ∧ opts.format ≠ "json" then
    (.error (.runtimeError "--format must be csv or json"), {})
  else if opts.output = "" then
    let (result, out) := writeExport opts (fs.input opts.input) ([] : Text)
    (result, { stdout := out })
  else
    let device := fs.output opts.output
    if !device.opens then
      (.error (.runtimeError ("failed to open output file: " ++ opts.output)), {})
    else
      let (result, out) := writeExport opts (fs.input opts.input) (OutputFile.create device)
      (result, { file := some out.destroy })

/-- `export_events`. -/
def exportEvents (fs : FileSystem) (args : List String) : Except Exception Unit × Outcome :=
  match parseArguments ExportOptions.argument {} args with
  | .error e => (.error e, {})
  | .ok opts => exportWith fs opts

/-- A command that prints to the standard output. -/
def printing (fs : FileSystem) (args : List String)
    (command : CommonOptions → IFStream → Text → Except Exception Unit × Text) :
    Except Exception Unit × Outcome :=
  match parseCommon args with
  | .error e => (.error e, {})
  | .ok opts =>
    let (result, out) := command opts (fs.input opts.input) []
    (result, { stdout := out })

/-- The choice of the command in `main`. -/
def runCommand (fs : FileSystem) (command : String) (args : List String) :
    Except Exception Unit × Outcome :=
  if command = "inspect" then printing fs args inspect
  else if command = "dump" then printing fs args dump
  else if command = "export" then exportEvents fs args
  else (.error (.runtimeError ("unknown command: " ++ command)), {})

/-- `usage`. -/
def usage (argv0 : String) : Text :=
  ("Usage:\n" ++
    "  " ++ argv0 ++ " inspect --input <file>\n" ++
    "  " ++ argv0 ++ " dump --input <file> [filters] [--limit <n>]\n" ++
    "  " ++ argv0 ++
    " export --input <file> --format csv|json [--output <file>] [filters] [--limit <n>]\n\n" ++
    "Filters:\n" ++
    "  --producer <id>       Keep only one producer id\n" ++
    "  --type <id>           Keep only one event type\n" ++
    "  --severity <name|id>  trace, debug, info, warning, error, critical\n" ++
    "  --from-ns <ns>        Inclusive timestamp lower bound\n" ++
    "  --to-ns <ns>          Inclusive timestamp upper bound\n").toList

/-- `main`: the exit code, and what the run leaves. -/
def main (fs : FileSystem) (argv0 : String) (args : List String) : ℕ × Outcome :=
  match args with
  | [] => (1, { stderr := usage argv0 })
  | command :: args =>
    if command = "--help" ∨ command = "-h" then (0, { stderr := usage argv0 })
    else
      match runCommand fs command args with
      | (.ok (), outcome) => (0, outcome)
      | (.error e, outcome) =>
        (1, { outcome with
          stderr := outcome.stderr ++ "hpblr_tool: ".toList ++ e.what.toList ++ ['\n'] })

end Tool

end Hpblr
