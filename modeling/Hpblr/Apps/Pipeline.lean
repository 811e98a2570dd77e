import Hpblr.Apps.ExportFile
import Hpblr.Apps.InspectLines
import Hpblr.Apps.Summary

/-!
# From the recording to the log tool

The file of a finished recording is a log, so every command of `hpblr_tool` completes on it. What
`inspect` counts is settled by the number of events and the payload size, and the two exports give
back the selected events of the streams of the producers.
-/

namespace Hpblr

variable {R : Type*}

/-- The numbers below `k` with this residue modulo six. -/
def residueCount (k i : ℕ) : ℕ := (List.range k).countP (fun n => n % 6 = i)

namespace Tool

/-! ## What `main` makes of a command -/

/-- What `main` prints for an exception. -/
def errorText (e : Exception) : Text := "hpblr_tool: ".toList ++ e.what.toList ++ ['\n']

/-- The result and the text of a command that prints to the standard output, as `main` hands them
on. -/
def finished (result : Except Exception Unit) (text : Text) : ℕ × Outcome :=
  match result with
  | .ok () => (0, { stdout := text })
  | .error e => (1, { stdout := text, stderr := errorText e })

variable {fs : FileSystem} {args : List String} {opts : CommonOptions}

theorem main_of_runCommand {command : String} (hcommand : command ≠ "--help" ∧ command ≠ "-h")
    {result : Except Exception Unit} {text : Text}
    (h : runCommand fs command args = (result, { stdout := text })) (argv0 : String) :
    main fs argv0 (command :: args) = finished result text := by
  have hno : ¬ (command = "--help" ∨ command = "-h") := by simp [hcommand]
  simp only [main, if_neg hno, h]
  cases result with
  | ok u => rfl
  | error e =>
    unfold finished errorText
    generalize "hpblr_tool: ".toList = name
    rfl

theorem main_inspect (hargs : parseCommon args = .ok opts) (argv0 : String) :
    main fs argv0 ("inspect" :: args) =
      finished (inspect opts (fs.input opts.input) ([] : Text)).1
        (inspect opts (fs.input opts.input) ([] : Text)).2 := by
  refine main_of_runCommand (by decide) ?_ argv0
  rw [runCommand, if_pos rfl, printing, hargs]

end Tool

namespace RecordingTool

variable {tool : RecordingTool} {engine : RandomEngine R} {s s₀ : RecordingState R}
  {device : Device} {now : UInt64} {events : UInt64} {labels : List RecordingLabel} {k : ℕ}

/-! ## The file -/

/-- The severity of a recorded event is its number modulo six. -/
theorem severity_of_configured {config : GeneratorConfig} {event : Event}
    (h : EventGenerator.Configured config event) :
    (severityToU16 event.severity).toNat = event.sequence.toNat % 6 := by
  rw [h.severity, severityToU16, UInt64.toNat_toUInt16, UInt64.toNat_mod]
  have hlt : event.sequence.toNat % 6 < 6 := Nat.mod_lt _ (by decide)
  exact Nat.mod_eq_of_lt (by
    change event.sequence.toNat % 6 < 2 ^ 16
    omega)

/-- The file of a finished recording is a log of the recorded events. -/
theorem Finishes.isLog (h : tool.Finishes engine events device now labels s₀ s)
    (hcompleted : tool.Completed events s k) :
    IsLog s.recorder.writer.out.content (recordedEvents s) := by
  have hlife := Lifecycle.of_run h.start h.run
  obtain ⟨_, hrunAt⟩ := ended_of_hasStopped hlife h.stopped
  obtain ⟨_, haccepted⟩ := hlife.recording.file_of_ended hrunAt h.failure
  have hvalid : ∀ event ∈ recordedEvents s, event.Valid := by
    intro event hevent
    have hconfigured := h.configured hcompleted event hevent
    refine ⟨?_, ?_⟩
    · rw [Severity.isEnumerator_iff, severity_of_configured hconfigured]
      omega
    · rw [recordedEvents, haccepted] at hevent
      exact hlife.recording.writing.fits event hevent
  rw [hlife.recording.writing.content_of_ended hrunAt h.failure, ← haccepted]
  exact ⟨0, now, 0, _, rfl, isRecords_encodeRecords hvalid⟩

/-- The severities of the recorded events are spread evenly. -/
theorem Finishes.severityCount_eq (h : tool.Finishes engine events device now labels s₀ s)
    (hcompleted : tool.Completed events s k) (i : ℕ) :
    severityCount (recordedEvents s) i = residueCount k i := by
  have hcount := hcompleted.numbers.countP_eq (fun n => n % 6 = i)
  rw [List.countP_map] at hcount
  rw [residueCount, ← hcount, severityCount]
  apply List.countP_congr
  intro event hevent
  simp [severity_of_configured (h.configured hcompleted event hevent)]

/-! ## The commands -/

variable {fs : Tool.FileSystem} {args : List String}

/-- **What `inspect` says about a recording.** For every finished run of a recording tool, and with
its file as the input: `inspect` exits with 0 and prints totals that can be read back from its text and
are settled by the number `k` of events and the payload size. It counts `k` events with that much
payload each, and of each severity the numbers below `k` with its residue modulo six. With an event
limit and without a stop, `k` is the limit. -/
theorem inspect_recording (h : tool.Finishes engine events device now labels s₀ s)
    {opts : CommonOptions} (hargs : parseCommon args = .ok opts)
    (hfile : fs.input opts.input = IFStream.ofBytes s.recorder.writer.out.content)
    (argv0 : String) :
    ∃ k totals info,
      Tool.main fs argv0 ("inspect" :: args) =
        (0, { stdout := (Tool.inspectPieces opts totals info).flatten }) ∧
      Tool.readInspect (Tool.inspectPieces opts totals info).flatten = some (totals.report info) ∧
      totals.count = UInt64.ofNat k ∧
      totals.payloadBytes = UInt64.ofNat (k * tool.payloadSize.toNat) ∧
      (∀ i (hi : i < 6), totals.severities[i] = UInt64.ofNat (residueCount k i)) ∧
      (events ≠ 0 →
        (tool.stopsOnSignal = true → ∀ p < tool.producers.toNat, s.stopRequested p = false) →
          k = events.toNat) := by
  obtain ⟨k, hcompleted⟩ := h.completed
  obtain ⟨totals, info, hcounts, htotals⟩ :=
    Tool.inspectTotals_log opts (h.isLog hcompleted)
  have hlength : (recordedEvents s).length = k := by
    simpa using hcompleted.numbers.length_eq
  have hpayload : payloadTotal (recordedEvents s) = k * tool.payloadSize.toNat := by
    have hsizes : (recordedEvents s).map (fun event => event.payload.length) =
        List.replicate k tool.payloadSize.toNat := by
      rw [List.eq_replicate_iff]
      refine ⟨by simpa using hlength, fun size hsize => ?_⟩
      obtain ⟨event, hevent, rfl⟩ := List.mem_map.mp hsize
      exact (h.configured hcompleted event hevent).payload
    simp [payloadTotal, hsizes]
  refine ⟨k, totals, info, ?_, Tool.readInspect_inspectPieces opts totals info,
    hlength ▸ hcounts.count, hpayload ▸ hcounts.payloadBytes, ?_, hcompleted.limit⟩
  · rw [Tool.main_inspect hargs, hfile, Tool.inspect_ok htotals, insertAll_text, List.nil_append]
    rfl
  · intro i hi
    rw [hcounts.severities i hi, h.severityCount_eq hcompleted i]

/-- A file system in which every file has this content. -/
def onlyFile (content : List UInt8) : Tool.FileSystem where
  input _ := IFStream.ofBytes content
  output _ := { bufferSize := 0 }

/-- The totals of the recording of one event, as they are read from the text. -/
theorem inspect_recording_one : ∃ (s : RecordingState UInt64) (text : Text)
    (report : Tool.InspectReport),
    Tool.main (onlyFile s.recorder.writer.out.content) "hpblr_tool"
      ["inspect", "--input", "recording.hpblr"] = (0, { stdout := text }) ∧
    Tool.readInspect text = some report ∧ report.count = 1 ∧ report.payloadBytes = 24 ∧
    report.severities = [1, 0, 0, 0, 0, 0] := by
  obtain ⟨s₀, s, hfinishes, hsignal, _⟩ := finishes_one
  have hargs : parseCommon ["--input", "recording.hpblr"] =
      .ok { input := "recording.hpblr" } := by decide +kernel
  have hfile : (onlyFile s.recorder.writer.out.content).input "recording.hpblr" =
      IFStream.ofBytes s.recorder.writer.out.content := rfl
  obtain ⟨k, totals, info, hmain, hread, hcount, hpayload, hseverities, hall⟩ :=
    inspect_recording hfinishes hargs hfile "hpblr_tool"
  have hone : k = 1 := hall (by decide) fun _ p hp => by
    obtain rfl := Nat.lt_one_iff.mp (show p < 1 from hp)
    exact hsignal
  subst hone
  exact ⟨s, _, totals.report info, hmain, hread, hcount, hpayload,
    Tool.InspectTotals.toList_severities hseverities⟩

/-- The arguments ask for an export of an input file to the standard output. -/
structure AsksForText (args : List String) (opts : ExportOptions) : Prop where
  parsed : parseArguments ExportOptions.argument {} args = .ok opts
  input : opts.input ≠ ""
  format : opts.format = "csv" ∨ opts.format = "json"
  output : opts.output = ""

theorem main_export {opts : ExportOptions} (hargs : AsksForText args opts)
    (argv0 : String) :
    Tool.main fs argv0 ("export" :: args) =
      Tool.finished (Tool.writeExport opts (fs.input opts.input) ([] : Text)).1
        (Tool.writeExport opts (fs.input opts.input) ([] : Text)).2 := by
  refine Tool.main_of_runCommand (by decide) ?_ argv0
  have hformat : ¬ (opts.format ≠ "csv" ∧ opts.format ≠ "json") := by
    rintro ⟨hcsv, hjson⟩
    exact hargs.format.elim hcsv hjson
  rw [Tool.runCommand, if_neg (by decide), if_neg (by decide), if_pos rfl, Tool.exportEvents,
    hargs.parsed]
  simp only
  rw [Tool.exportWith, if_neg hargs.input, if_neg hformat, if_pos hargs.output]

end RecordingTool

end Hpblr
