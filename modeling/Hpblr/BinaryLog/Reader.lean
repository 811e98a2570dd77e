import Hpblr.Streams
import Hpblr.BinaryLog.Format

/-!
# The log reader

`BinaryLogReader` as the code has it: the constructor, which validates the file header, and
`next`, which reads one record. An exception leaves the reader in the state it had reached, so
each operation returns its result or exception together with the reader.
-/

namespace Hpblr

/-- `io_context`. -/
def ioContext (path action : String) : String := action ++ ": " ++ path

/-- `FileInfo`. -/
structure FileInfo where
  version : UInt16 := 0
  createdUnixNs : UInt64 := 0
  firstTimestampNs : UInt64 := 0
  lastTimestampNs : UInt64 := 0
  deriving DecidableEq

/-- `BinaryLogReader`. -/
structure BinaryLogReader where
  path : String
  input : IFStream
  info : FileInfo := {}
  deriving DecidableEq

/-- The checks of `read_file_header` on a header that was read completely. -/
def checkFileHeader (header : List UInt8) : Except Exception FileInfo :=
  if kFileMagic ≠ header.take kFileMagic.length then
    .error (.fileFormatError "invalid HPBLR file magic")
  else
    let version := readU16 (header.drop 8)
    let headerSize := readU16 (header.drop 10)
    let endianMarker := readU16 (header.drop 12)
    let createdNs := readU64 (header.drop 16)
    let storedCrc := readU32 (header.drop kFileHeaderCrcOffset)
    let computedCrc := crc32 (header.take kFileHeaderCrcOffset)
    if version ≠ kFileFormatVersion then
      .error (.fileFormatError ("unsupported HPBLR file version: " ++ toString version))
    else if headerSize ≠ kFileHeaderSize then
      .error (.fileFormatError ("unsupported HPBLR header size: " ++ toString headerSize))
    else if endianMarker ≠ kEndianMarker then
      .error (.fileFormatError "unsupported HPBLR endian marker")
    else if storedCrc ≠ computedCrc then
      .error (.crcError "HPBLR file header CRC mismatch")
    else
      .ok { version := version, createdUnixNs := createdNs }

/-- The checks of `next` on a record header that was read completely, up to the payload. The
checksum is computed over a copy of the header whose checksum field is cleared byte by byte. -/
def checkRecordHeader (header : List UInt8) : Except Exception RecordHeader :=
  let h := RecordHeader.ofBytes header
  if h.magic ≠ kRecordMagic then
    .error (.fileFormatError ("invalid HPBLR record magic near sequence " ++ toString h.sequence))
  else if h.headerSize ≠ kRecordHeaderSize then
    .error (.fileFormatError ("unsupported HPBLR record header size: " ++ toString h.headerSize))
  else if h.version ≠ kFileFormatVersion then
    .error (.fileFormatError ("unsupported HPBLR record version: " ++ toString h.version))
  else if h.payloadSize.toNat > kMaxPayloadBytes then
    .error (.fileFormatError ("record payload too large: " ++ toString h.payloadSize))
  else
    let headerForCrc :=
      (List.range 4).foldl (fun bytes i => bytes.set (kRecordHeaderCrcOffset + i) 0) header
    if h.headerCrc ≠ crc32 headerForCrc then
      .error (.crcError ("HPBLR record header CRC mismatch near sequence " ++ toString h.sequence))
    else
      .ok h

/-- The checks of `next` on the payload and the severity, and the event they yield. -/
def checkPayload (h : RecordHeader) (payload : List UInt8) : Except Exception Event :=
  if h.payloadCrc ≠ crc32 payload then
    .error (.crcError ("HPBLR payload CRC mismatch near sequence " ++ toString h.sequence))
  else
    match severityFromU16 h.severityRaw with
    | none =>
      .error (.fileFormatError
        ("invalid severity value in HPBLR record: " ++ toString h.severityRaw))
    | some severity =>
      .ok {
        timestampNs := h.timestampNs
        sequence := h.sequence
        producerId := h.producerId
        type := h.eventType
        severity := severity
        payload := payload }

namespace BinaryLogReader

/-- `read_file_header`. -/
def readFileHeader (r : BinaryLogReader) : Except Exception Unit × BinaryLogReader :=
  let (header, input) := r.input.read kFileHeaderSize.toNat
  let r := { r with input := input }
  if input.gcount ≠ kFileHeaderSize.toNat then
    (.error (.fileFormatError "file is too short to contain an HPBLR header"), r)
  else
    match checkFileHeader header with
    | .error e => (.error e, r)
    | .ok info => (.ok (), { r with info := info })

/-- The constructor, on the stream that opening the path gave. -/
def new (path : String) (file : IFStream) : Except Exception BinaryLogReader :=
  if file.fail then .error (.ioError (ioContext path "failed to open input file"))
  else
    match readFileHeader { path := path, input := file } with
    | (.error e, _) => .error e
    | (.ok (), r) => .ok r

/-- The part of `next` that reads the payload. -/
def readPayload (r : BinaryLogReader) (h : RecordHeader) :
    Except Exception (List UInt8) × BinaryLogReader :=
  if h.payloadSize > 0 then
    let (payload, input) := r.input.read h.payloadSize.toNat
    let r := { r with input := input }
    if input.gcount ≠ h.payloadSize.toNat then
      (.error (.fileFormatError
        ("truncated HPBLR record payload near sequence " ++ toString h.sequence)), r)
    else
      (.ok payload, r)
  else
    (.ok [], r)

/-- The bookkeeping of `next` for an event it returns. -/
def noteTimestamp (info : FileInfo) (timestampNs : UInt64) : FileInfo :=
  { info with
    firstTimestampNs := if info.firstTimestampNs = 0 then timestampNs else info.firstTimestampNs
    lastTimestampNs := timestampNs }

/-- The part of `next` that follows a record header read completely. -/
def readRecord (r : BinaryLogReader) (header : List UInt8) :
    Except Exception (Option Event) × BinaryLogReader :=
  match checkRecordHeader header with
  | .error e => (.error e, r)
  | .ok h =>
    match r.readPayload h with
    | (.error e, r) => (.error e, r)
    | (.ok payload, r) =>
      match checkPayload h payload with
      | .error e => (.error e, r)
      | .ok event => (.ok (some event), { r with info := noteTimestamp r.info h.timestampNs })

/-- `next`. -/
def next (r : BinaryLogReader) : Except Exception (Option Event) × BinaryLogReader :=
  let (header, input) := r.input.read kRecordHeaderSize.toNat
  let r := { r with input := input }
  if input.gcount = 0 ∧ input.eofbit then
    (.ok none, r)
  else if input.gcount ≠ kRecordHeaderSize.toNat then
    (.error (.fileFormatError "truncated HPBLR record header"), r)
  else
    r.readRecord header

/-- How a replay loop over a reader ends. -/
inductive ReplayEnd where
  /-- `next` returned `std::nullopt`. -/
  | endOfLog
  /-- `next` threw. -/
  | threw (e : Exception)
  /-- The allotted calls of `next` were used up. -/
  | unfinished
  deriving DecidableEq

/-- The replay loop `while (auto event = reader.next())`, for at most `calls` calls of `next`: the
events it sees and how it ends. -/
def replay : ℕ → BinaryLogReader → List Event × ReplayEnd
  | 0, _ => ([], .unfinished)
  | calls + 1, r =>
    match r.next with
    | (.ok none, _) => ([], .endOfLog)
    | (.ok (some event), r) => (event :: (replay calls r).1, (replay calls r).2)
    | (.error e, _) => ([], .threw e)

end BinaryLogReader

end Hpblr
