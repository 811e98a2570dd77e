import Hpblr.Apps.Selection

/-!
# Exports to a file

What `hpblr_tool export --output` leaves in the output file, and what it reports. The tool checks that
the file could be opened and never again asks the stream whether it has failed. So it reports success
for every readable log, and the file holds as much of the text as the device has taken.
-/

namespace Hpblr

open BinaryLogReader

/-! ## Readable inputs -/

/-- The input is readable as far as a command reads it: the reader has no exception before its end
or before the limit is reached. -/
def CommonOptions.Readable (opts : CommonOptions) (input : IFStream) : Prop :=
  opts.ending (delivered opts.input input) = .ok ()

/-- The selected events of an input file. -/
def CommonOptions.selection (opts : CommonOptions) (input : IFStream) : List Event :=
  opts.selected (delivered opts.input input).1

/-- Every log is readable, and the selection is that of its events. -/
theorem CommonOptions.readable_log (opts : CommonOptions) {file : List UInt8} {events : List Event}
    (hlog : IsLog file events) : opts.Readable (IFStream.ofBytes file) ∧
      opts.selection (IFStream.ofBytes file) = opts.selected events := by
  rw [Readable, selection, delivered_log opts.input hlog, ending]
  constructor
  · split <;> rfl
  · rfl

/-- The constructor of the reader accepts a readable input. -/
theorem CommonOptions.Readable.new {opts : CommonOptions} {input : IFStream}
    (h : opts.Readable input) : ∃ r, BinaryLogReader.new opts.input input = .ok r ∧
      opts.ending r.deliver = .ok () ∧ opts.selection input = opts.selected r.deliver.1 := by
  unfold Readable delivered at h
  unfold selection delivered
  cases hnew : BinaryLogReader.new opts.input input with
  | ok r =>
    rw [hnew] at h
    exact ⟨r, rfl, h, rfl⟩
  | error e =>
    -- An exception of the constructor comes before any limit.
    simp only [hnew, ending] at h
    split at h
    · next hreached =>
      obtain ⟨hlimit, hle⟩ := hreached
      have hzero : opts.limit.toNat = 0 := by simpa [satisfying] using hle
      exact absurd (UInt64.toNat_inj.mp hzero) hlimit
    · cases h

namespace Tool

/-! ## What an export writes -/

/-- The complete text of an export of some events. -/
def rendering (format : String) (events : List Event) : Text :=
  if format = "csv" then (csvPieces events).flatten
  else (jsonPieces events ++ ["\n]\n".toList]).flatten

/-- On a readable input an export hands the complete text to its stream, in pieces, and ends
normally. -/
theorem writeExport_readable {σ : Type} [OStream σ] {opts : ExportOptions} {input : IFStream}
    (hreadable : opts.Readable input) (out : σ) :
    ∃ pieces, pieces.flatten = rendering opts.format (opts.selection input) ∧
      writeExport opts input out = (.ok (), insertAll out pieces) := by
  obtain ⟨r, hnew, hending, hselection⟩ := hreadable.new
  rw [hselection]
  unfold writeExport rendering
  by_cases hcsv : opts.format = "csv"
  · rw [if_pos hcsv, if_pos hcsv, writeCsv_eq hnew, hending]
    exact ⟨_, rfl, rfl⟩
  · rw [if_neg hcsv, if_neg hcsv, writeJson_eq hnew, hending]
    exact ⟨_, rfl, rfl⟩

/-- A run that exits with 0 leaves the whole text in the output file, and any other run reports an
error and exits with 1. -/
def CompleteOrReported (text : Text) (run : ℕ × Outcome) : Prop :=
  (run.1 = 0 ∧ ∃ file ∈ run.2.file, file.content = text) ∨ (run.1 = 1 ∧ run.2.stderr ≠ [])

section Export

variable {fs : FileSystem} {args : List String} {opts : ExportOptions}

/-- The arguments ask for an export of an input file to an output file, in one of the two formats. -/
structure AsksForFile (args : List String) (opts : ExportOptions) : Prop where
  parsed : parseArguments ExportOptions.argument {} args = .ok opts
  input : opts.input ≠ ""
  format : opts.format = "csv" ∨ opts.format = "json"
  output : opts.output ≠ ""

/-- `main` runs the export with the parsed options. -/
theorem main_export (argv0 : String) (hargs : AsksForFile args opts) :
    main fs argv0 ("export" :: args) =
      match exportWith fs opts with
      | (.ok (), outcome) => (0, outcome)
      | (.error e, outcome) =>
        (1, { outcome with
          stderr := outcome.stderr ++ "hpblr_tool: ".toList ++ e.what.toList ++ ['\n'] }) := by
  have hrun : runCommand fs "export" args = exportWith fs opts := by
    rw [runCommand, if_neg (by decide), if_neg (by decide), if_pos rfl, exportEvents, hargs.parsed]
  rcases hresult : exportWith fs opts with ⟨e | ⟨⟩, outcome⟩
  · simp [main, hrun, hresult]
  · simp [main, hrun, hresult]

/-- The checks of the options pass. -/
theorem exportWith_asked (hargs : AsksForFile args opts) :
    exportWith fs opts =
      if (fs.output opts.output).opens then
        let (result, out) :=
          writeExport opts (fs.input opts.input) (OutputFile.create (fs.output opts.output))
        (result, { file := some out.destroy })
      else
        (.error (.runtimeError ("failed to open output file: " ++ opts.output)), {}) := by
  have hformat : ¬ (opts.format ≠ "csv" ∧ opts.format ≠ "json") := by
    rintro ⟨hcsv, hjson⟩
    exact hargs.format.elim hcsv hjson
  rw [exportWith, if_neg hargs.input, if_neg hformat, if_neg hargs.output]
  cases hopens : (fs.output opts.output).opens <;> simp [hopens]

/-- An output file that cannot be opened is reported. -/
theorem export_unopened (argv0 : String) (hargs : AsksForFile args opts)
    (hopens : (fs.output opts.output).opens = false) (text : Text) :
    CompleteOrReported text (main fs argv0 ("export" :: args)) := by
  rw [main_export argv0 hargs, exportWith_asked hargs, hopens]
  exact Or.inr ⟨rfl, by simp⟩

/-- Once the output file is open, the export of a readable input exits with 0 and leaves what the
device has stored. -/
theorem export_opened (argv0 : String) (hargs : AsksForFile args opts)
    (hreadable : opts.Readable (fs.input opts.input))
    (hopens : (fs.output opts.output).opens = true) :
    ∃ file, main fs argv0 ("export" :: args) = (0, { file := some file }) ∧
      file.content = stored (fs.output opts.output).room
        (rendering opts.format (opts.selection (fs.input opts.input))) := by
  obtain ⟨pieces, hpieces, hwrite⟩ :=
    writeExport_readable hreadable (OutputFile.create (fs.output opts.output))
  refine ⟨(insertAll (OutputFile.create (fs.output opts.output)) pieces).destroy, ?_, ?_⟩
  · rw [main_export argv0 hargs, exportWith_asked hargs, hopens, if_pos rfl, hwrite]
  · rw [OutputFile.content_destroy, hpieces]

/-- **When success means a complete export.** For every readable input, filter and limit, in either
format and wherever the device of the output file starts to fail: the export leaves the complete text
or reports an error exactly if the file cannot be opened, which is reported, or the device has room
for the whole text. -/
theorem export_complete_iff (argv0 : String) (hargs : AsksForFile args opts)
    (hreadable : opts.Readable (fs.input opts.input)) :
    CompleteOrReported (rendering opts.format (opts.selection (fs.input opts.input)))
        (main fs argv0 ("export" :: args)) ↔
      (fs.output opts.output).opens = false ∨ ∀ room ∈ (fs.output opts.output).room,
        (rendering opts.format (opts.selection (fs.input opts.input))).length ≤ room := by
  by_cases hopens : (fs.output opts.output).opens = true
  · obtain ⟨file, hmain, hcontent⟩ := export_opened argv0 hargs hreadable hopens
    rw [hmain, CompleteOrReported, ← stored_eq_iff]
    constructor
    · rintro (⟨_, file', hfile, hwhole⟩ | ⟨hexit, _⟩)
      · obtain rfl : file = file' := by simpa using hfile
        exact Or.inr (hcontent.symm.trans hwhole)
      · exact absurd hexit Nat.zero_ne_one
    · rintro (hclosed | hroom)
      · exact absurd (hopens.symm.trans hclosed) (by decide)
      · exact Or.inl ⟨rfl, file, rfl, hcontent.trans hroom⟩
  · rw [Bool.not_eq_true] at hopens
    exact iff_of_true (export_unopened argv0 hargs hopens _) (Or.inl hopens)

end Export

/-! ## Full devices -/

/-- A log without events, and a device that is full. -/
def fullDevice : FileSystem :=
  { input := fun _ => IFStream.ofBytes (fileHeader 0 0 0)
    output := fun _ => { room := some 0, bufferSize := 8191 } }

def exportArgs : List String := ["--input", "log", "--format", "csv", "--output", "events.csv"]

def exportOpts : ExportOptions := { input := "log", format := "csv", output := "events.csv" }

theorem exportArgs_ask : AsksForFile exportArgs exportOpts :=
  ⟨by decide, by decide, Or.inl rfl, by decide⟩

theorem fullDevice_isLog : IsLog (fileHeader 0 0 0) [] :=
  ⟨0, 0, 0, [], (List.append_nil _).symm, .nil⟩

theorem fullDevice_readable : exportOpts.Readable (fullDevice.input exportOpts.input) :=
  (exportOpts.toCommonOptions.readable_log fullDevice_isLog).1

/-- The export reports success, and the file is empty. -/
theorem export_of_nothing :
    (∃ file, main fullDevice "hpblr_tool" ("export" :: exportArgs) = (0, { file := some file }) ∧
      file.content = []) ∧
    ¬ CompleteOrReported (rendering "csv" [])
      (main fullDevice "hpblr_tool" ("export" :: exportArgs)) := by
  obtain ⟨file, hmain, hcontent⟩ :=
    export_opened "hpblr_tool" exportArgs_ask fullDevice_readable rfl
  have hempty : file.content = [] := hcontent
  refine ⟨⟨file, hmain, hempty⟩, ?_⟩
  rw [hmain]
  rintro (⟨_, file', hfile, hwhole⟩ | ⟨hexit, _⟩)
  · obtain rfl : file = file' := by simpa using hfile
    rw [hempty] at hwhole
    exact absurd hwhole (by decide)
  · exact absurd hexit Nat.zero_ne_one

/-- A log with one event, and a device with this much room. -/
def limitedDevice (room : ℕ) : FileSystem :=
  { input := fun _ => IFStream.ofBytes (fileHeader 0 0 0 ++ recordBytes 0 {})
    output := fun _ => { room := some room, bufferSize := 8191 } }

/-- A device that is full inside the row of the event, and one that has just enough room. -/
theorem export_complete_iff_limitedDevice :
    ¬ CompleteOrReported (rendering "csv" [{}])
        (main (limitedDevice 100) "hpblr_tool" ("export" :: exportArgs)) ∧
      CompleteOrReported (rendering "csv" [{}])
        (main (limitedDevice 134) "hpblr_tool" ("export" :: exportArgs)) := by
  have hlog : IsLog (fileHeader 0 0 0 ++ recordBytes 0 {}) [{}] :=
    ⟨0, 0, 0, _, rfl, by simpa using IsRecords.cons 0 ⟨by decide, by decide⟩ .nil⟩
  have hlength : (rendering "csv" [{}]).length = 134 := by decide +kernel
  have hiff (room : ℕ) : CompleteOrReported (rendering "csv" [{}])
      (main (limitedDevice room) "hpblr_tool" ("export" :: exportArgs)) ↔ 134 ≤ room := by
    have hreadable : exportOpts.Readable ((limitedDevice room).input exportOpts.input) :=
      (exportOpts.toCommonOptions.readable_log hlog).1
    have hselection : exportOpts.selection ((limitedDevice room).input exportOpts.input) = [{}] :=
      (exportOpts.toCommonOptions.readable_log hlog).2
    have hformat : exportOpts.format = "csv" := rfl
    have hcomplete := export_complete_iff "hpblr_tool" exportArgs_ask hreadable
    rw [hselection, hformat, hlength] at hcomplete
    rw [hcomplete]
    constructor
    · rintro (hclosed | hroom)
      · cases hclosed
      · exact hroom room rfl
    · intro hle
      exact Or.inr fun k hk => Option.mem_some_iff.mp hk ▸ hle
  exact ⟨(hiff 100).not.mpr (by decide), (hiff 134).mpr le_rfl⟩

end Tool

end Hpblr
