import Hpblr.Lib.LittleEndian
import Hpblr.Lib.ShiftRegister
import Hpblr.Crc32
import Hpblr.Lib.Remainder
import Hpblr.Crc32Standard
import Hpblr.Lib.Period
import Hpblr.Crc32Period
import Hpblr.Text
import Hpblr.TimeUtils
import Hpblr.Event
import Hpblr.Lib.Transition
import Hpblr.BinaryLog.Fields
import Hpblr.BinaryLog.Format
import Hpblr.Streams
import Hpblr.BinaryLog.Reader
import Hpblr.BinaryLog.ReaderGrammar
import Hpblr.BinaryLog.FailStop
import Hpblr.BinaryLog.Writer
import Hpblr.BinaryLog.Reserve
import Hpblr.BinaryLog.WriterRefinement
import Hpblr.BinaryLog.RoundTrip
import Hpblr.BinaryLog.Truncation
import Hpblr.BinaryLog.DeviceFault
import Hpblr.Lib.BitFlips
import Hpblr.BinaryLog.Burst
import Hpblr.BinaryLog.TwoFlips
import Hpblr.Lib.CondVar
import Hpblr.Queue.BlockingQueue
import Hpblr.Queue.Channel
import Hpblr.Queue.WakeUps
import Hpblr.Lib.Linearization
import Hpblr.Queue.Linearization
import Hpblr.Recorder.AsyncRecorder
import Hpblr.Recorder.Moves
import Hpblr.Recorder.Stages
import Hpblr.Recorder.Accounting
import Hpblr.Recorder.Writing
import Hpblr.Recorder.Stopping
import Hpblr.Recorder.NoLoss
import Hpblr.Recorder.Progress
import Hpblr.Lib.Ranking
import Hpblr.Recorder.Work
import Hpblr.EventGenerator
import Hpblr.Reproducibility
import Hpblr.Apps.Options
import Hpblr.Apps.Recording
import Hpblr.Apps.RecordingMoves
import Hpblr.Apps.Lifecycle
import Hpblr.Apps.Boundary
import Hpblr.Apps.Termination
import Hpblr.BinaryLog.FailingStream
import Hpblr.Recorder.Statistics
import Hpblr.Recorder.Persistence
import Hpblr.Recorder.Crash
import Hpblr.Recorder.Order
import Hpblr.Recorder.Aftermath
import Hpblr.BinaryLog.ReadSession
import Hpblr.BinaryLog.Reencode
import Hpblr.Lib.Tickets
import Hpblr.Lib.Json
import Hpblr.BinaryLog.Delivery
import Hpblr.Filter
import Hpblr.OutputFile
import Hpblr.Apps.Tool
import Hpblr.Apps.Sequences
import Hpblr.Apps.Selection
import Hpblr.Apps.ExportFormats
import Hpblr.Apps.Dump
import Hpblr.Apps.ExportFile
import Hpblr.Apps.Inspect
import Hpblr.Apps.InspectLines
import Hpblr.Apps.Provenance
import Hpblr.Apps.Summary
import Hpblr.Apps.Pipeline
import Hpblr.Lib.Calendar
import Hpblr.Lib.FixedWidth
import Hpblr.UtcText
import Hpblr.Logging.Logger
import Hpblr.Logging.Locking
import Hpblr.Logging.Lines
import Hpblr.Logging.Filing
import Hpblr.Apps.CommandLine
import Hpblr.Lib.JsonTexts
import Hpblr.Apps.BenchReport
import Hpblr.BinaryLog.Batching
import Hpblr.Recorder.Batching
import Hpblr.Apps.Agreement
import Hpblr.Apps.Success
