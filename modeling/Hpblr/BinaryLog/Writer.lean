import Hpblr.Streams
import Hpblr.BinaryLog.Reader

/-!
# The log writer

`BinaryLogWriter` as the code has it. An exception leaves the writer in the state it had reached,
so each operation returns its result or exception together with the writer. The last section names
the calls a client can make and runs them, with a client that catches every exception and goes on.
-/

namespace Hpblr

open LittleEndian

/-- `WriterOptions`. -/
structure WriterOptions where
  flushThresholdBytes : UInt64 := (1 : UInt64) <<< 20
  flushOnEachEvent : Bool := false
  deriving DecidableEq

/-- `WriterStats`. -/
structure WriterStats where
  eventsWritten : UInt64 := 0
  bytesWritten : UInt64 := 0
  deriving DecidableEq

/-- `BinaryLogWriter`. The capacity that the constructor reserved for the buffer is kept. -/
structure BinaryLogWriter where
  path : String
  options : WriterOptions
  out : OFStream
  buffer : List UInt8 := []
  reserved : UInt64 := 0
  stats : WriterStats := {}
  closed : Bool := false

/-- `write_all`. -/
def writeAll (out : OFStream) (data : List UInt8) (path : String) :
    Except Exception Unit × OFStream :=
  if data.isEmpty then (.ok (), out)
  else
    let out := out.write data
    if out.failed then (.error (.ioError (ioContext path "failed to write binary log")), out)
    else (.ok (), out)

/-- The bytes that `write_file_header` puts together. -/
def encodeFileHeader (now : UInt64) : List UInt8 :=
  let header := kFileMagic
  let header := appendU16 header kFileFormatVersion
  let header := appendU16 header kFileHeaderSize
  let header := appendU16 header kEndianMarker
  let header := appendU16 header 0
  let header := appendU64 header now
  let header := appendU64 header 0
  let header := appendU32 header 0
  let checksum := crc32 (header.take kFileHeaderCrcOffset)
  writeU32At header kFileHeaderCrcOffset checksum

/-- The record header that `append` puts together. -/
def encodeRecordHeader (event : Event) : List UInt8 :=
  let payloadCrc := crc32 event.payload
  let header := appendU32 [] kRecordMagic
  let header := appendU16 header kRecordHeaderSize
  let header := appendU16 header kFileFormatVersion
  let header := appendU64 header event.timestampNs
  let header := appendU64 header event.sequence
  let header := appendU32 header event.producerId
  let header := appendU16 header event.type
  let header := appendU16 header (severityToU16 event.severity)
  let header := appendU32 header (UInt32.ofNat event.payload.length)
  let header := appendU32 header 0
  let header := appendU32 header payloadCrc
  let header := appendU32 header 0
  let headerCrc := crc32 header
  writeU32At header kRecordHeaderCrcOffset headerCrc

namespace BinaryLogWriter

/-- `write_file_header`. Patching the checksum keeps the size that the code checks before it. -/
def writeFileHeader (w : BinaryLogWriter) (now : UInt64) :
    Except Exception Unit × BinaryLogWriter :=
  let header := encodeFileHeader now
  if header.length ≠ kFileHeaderSize.toNat then
    (.error (.fileFormatError "internal error: invalid file header size"), w)
  else
    match writeAll w.out header w.path with
    | (.error e, out) => (.error e, { w with out := out })
    | (.ok (), out) =>
      (.ok (), { w with
        out := out
        stats.bytesWritten := w.stats.bytesWritten + UInt64.ofNat header.length })

/-- The options as the constructor stores them: a threshold of zero stands for the default. -/
def effectiveOptions (options : WriterOptions) : WriterOptions :=
  if options.flushThresholdBytes = 0 then { options with flushThresholdBytes := (1 : UInt64) <<< 20 }
  else options

/-- The argument of `buffer_.reserve`, in the arithmetic of `std::size_t`. -/
def reserveRequest (options : WriterOptions) : UInt64 :=
  (effectiveOptions options).flushThresholdBytes + UInt64.ofNat kMaxPayloadBytes +
    kRecordHeaderSize.toUInt64

/-- The constructor, given what the device will do and the time of creation. -/
def new (path : String) (options : WriterOptions) (device : Device) (now : UInt64) :
    Except Exception BinaryLogWriter :=
  let out := OFStream.open device
  if out.failed then .error (.ioError (ioContext path "failed to open output file"))
  else
    if reserveRequest options > vectorMaxSize then .error (.lengthError "vector::reserve")
    else
      match writeFileHeader
        { path := path, options := effectiveOptions options, out := out,
          reserved := reserveRequest options } now with
      | (.error e, _) => .error e
      | (.ok (), w) => .ok w

/-- `write_buffer_if_needed`. -/
def writeBufferIfNeeded (w : BinaryLogWriter) (force : Bool) :
    Except Exception Unit × BinaryLogWriter :=
  if !force || w.buffer.isEmpty then (.ok (), w)
  else
    match writeAll w.out w.buffer w.path with
    | (.error e, out) => (.error e, { w with out := out })
    | (.ok (), out) => (.ok (), { w with out := out, buffer := [] })

/-- `append`. -/
def append (w : BinaryLogWriter) (event : Event) : Except Exception Unit × BinaryLogWriter :=
  if w.closed then
    (.error (.ioError "cannot append to closed binary log"), w)
  else if event.payload.length > kMaxPayloadBytes then
    (.error (.fileFormatError ("payload too large: " ++ toString event.payload.length)), w)
  else if event.payload.length > 2 ^ 32 - 1 then
    (.error (.fileFormatError "payload cannot be represented by the file format"), w)
  else
    let header := encodeRecordHeader event
    if header.length ≠ kRecordHeaderSize.toNat then
      (.error (.fileFormatError "internal error: invalid record header size"), w)
    else
      let w := { w with
        buffer := w.buffer ++ header ++ event.payload
        stats.eventsWritten := w.stats.eventsWritten + 1
        stats.bytesWritten :=
          w.stats.bytesWritten + UInt64.ofNat (header.length + event.payload.length) }
      w.writeBufferIfNeeded
        (w.options.flushOnEachEvent ||
          decide (w.buffer.length ≥ w.options.flushThresholdBytes.toNat))

/-- `flush`. -/
def flush (w : BinaryLogWriter) : Except Exception Unit × BinaryLogWriter :=
  if w.closed then (.ok (), w)
  else
    match w.writeBufferIfNeeded true with
    | (.error e, w) => (.error e, w)
    | (.ok (), w) =>
      let w := { w with out := w.out.sync }
      if w.out.failed then
        (.error (.ioError (ioContext w.path "failed to flush binary log")), w)
      else (.ok (), w)

/-- `close`. -/
def close (w : BinaryLogWriter) : Except Exception Unit × BinaryLogWriter :=
  if w.closed then (.ok (), w)
  else
    match w.flush with
    | (.error e, w) => (.error e, w)
    | (.ok (), w) =>
      let w := { w with out := w.out.sync }
      if w.out.failed then
        (.error (.ioError (ioContext w.path "failed to close binary log")), w)
      else (.ok (), { w with closed := true })

/-- The destructor: an exception of `close` is swallowed, and then `out_` is destroyed. -/
def destroy (w : BinaryLogWriter) : BinaryLogWriter :=
  let w := w.close.2
  { w with out := w.out.destroy }

end BinaryLogWriter

/-! ## Clients of the writer -/

/-- The calls a client can make on a writer. -/
inductive WriterCall where
  | append (event : Event)
  | flush
  | close
  deriving DecidableEq

namespace BinaryLogWriter

/-- One call. -/
def call (w : BinaryLogWriter) : WriterCall → Except Exception Unit × BinaryLogWriter
  | .append event => w.append event
  | .flush => w.flush
  | .close => w.close

/-- Consecutive calls: their results, and the writer they leave. -/
def run (w : BinaryLogWriter) : List WriterCall → List (Except Exception Unit) × BinaryLogWriter
  | [] => ([], w)
  | c :: calls =>
    let (result, w) := w.call c
    let (results, w) := w.run calls
    (result :: results, w)

end BinaryLogWriter

/-- The events that get past the checks of `append`: they fit, and no `close` came before. -/
def passedEvents : List WriterCall → List Event
  | .append event :: calls =>
    if event.payload.length > kMaxPayloadBytes then passedEvents calls
    else event :: passedEvents calls
  | .flush :: calls => passedEvents calls
  | .close :: _ => []
  | [] => []

/-- The events whose `append` returned normally. -/
def acceptedEvents : List WriterCall → List (Except Exception Unit) → List Event
  | .append event :: calls, .ok () :: results => event :: acceptedEvents calls results
  | _ :: calls, _ :: results => acceptedEvents calls results
  | _, _ => []

/-! ## What the encoders produce -/

/-- `write_file_header` writes a file header of the format with flags and reserved field zero. -/
theorem encodeFileHeader_eq (now : UInt64) : encodeFileHeader now = fileHeader 0 now 0 := by
  have hbody : kFileMagic ++ bytes 2 kFileFormatVersion.toNat ++ bytes 2 kFileHeaderSize.toNat ++
      bytes 2 kEndianMarker.toNat ++ bytes 2 (0 : UInt16).toNat ++ bytes 8 now.toNat ++
      bytes 8 (0 : UInt64).toNat = fileHeaderBody 0 now 0 := by
    simp only [fileHeaderBody, List.append_assoc]
  have htake (tail : List UInt8) :
      (fileHeaderBody 0 now 0 ++ tail).take 32 = fileHeaderBody 0 now 0 :=
    List.take_left' (length_fileHeaderBody ..)
  have hpatch (value : UInt32) :
      writeU32At (fileHeaderBody 0 now 0 ++ bytes 4 (0 : UInt32).toNat) 32 value =
        fileHeaderBody 0 now 0 ++ bytes 4 value.toNat := by
    have h := writeU32At_eq (fileHeaderBody 0 now 0) (bytes 4 (0 : UInt32).toNat) [] value
      (length_bytes ..)
    simpa using h
  simp only [encodeFileHeader, appendU16_eq, appendU32_eq, appendU64_eq, kFileHeaderCrcOffset,
    hbody, htake, hpatch, fileHeader]

/-- `append` puts together the record header of the format with flags zero. -/
theorem encodeRecordHeader_eq (event : Event) :
    encodeRecordHeader event = (recordHeader 0 event).toBytes := by
  have hblank : [] ++ bytes 4 kRecordMagic.toNat ++ bytes 2 kRecordHeaderSize.toNat ++
      bytes 2 kFileFormatVersion.toNat ++ bytes 8 event.timestampNs.toNat ++
      bytes 8 event.sequence.toNat ++ bytes 4 event.producerId.toNat ++ bytes 2 event.type.toNat ++
      bytes 2 (severityToU16 event.severity).toNat ++
      bytes 4 (UInt32.ofNat event.payload.length).toNat ++ bytes 4 (0 : UInt32).toNat ++
      bytes 4 (crc32 event.payload).toNat ++ bytes 4 (0 : UInt32).toNat =
        (blankHeader 0 event).toBytes := by
    simp only [RecordHeader.toBytes, RecordHeader.front, RecordHeader.back, blankHeader,
      List.append_assoc, List.nil_append]
  have hpatch (value : UInt32) : writeU32At (blankHeader 0 event).toBytes 36 value =
      ({ blankHeader 0 event with headerCrc := value } : RecordHeader).toBytes := by
    have h := writeU32At_eq (blankHeader 0 event).front (bytes 4 (0 : UInt32).toNat)
      (blankHeader 0 event).back value (length_bytes ..)
    rwa [RecordHeader.length_front] at h
  simp only [encodeRecordHeader, appendU16_eq, appendU32_eq, appendU64_eq,
    kRecordHeaderCrcOffset, hblank, hpatch, recordHeader]

end Hpblr
