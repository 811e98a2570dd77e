import Hpblr.Crc32
import Hpblr.Event
import Hpblr.BinaryLog.Fields

/-!
# The documented file format

The grammar of `docs/BINARY_FORMAT.md`: a file header of 36 bytes and a sequence of records, each
a header of 48 bytes and a payload. The grammar says which byte strings are logs of which events.
The constants are those of `binary_log.cpp`, which both the writer and the reader use.
-/

namespace Hpblr

open LittleEndian

/-! ## Constants -/

def kFileFormatVersion : UInt16 := 1
def kMaxPayloadBytes : ℕ := 16 * 1024 * 1024

/-- `kFileMagic`: the bytes of `HPBLOG1` and a zero. -/
def kFileMagic : List UInt8 := [72, 80, 66, 76, 79, 71, 49, 0]
def kFileHeaderSize : UInt16 := 36
def kRecordHeaderSize : UInt16 := 48
def kEndianMarker : UInt16 := 0x0102
def kRecordMagic : UInt32 := 0x524C4248
def kRecordHeaderCrcOffset : ℕ := 36
def kFileHeaderCrcOffset : ℕ := 32

@[simp] theorem toNat_kFileHeaderSize : kFileHeaderSize.toNat = 36 := rfl
@[simp] theorem toNat_kRecordHeaderSize : kRecordHeaderSize.toNat = 48 := rfl
@[simp] theorem length_kFileMagic : kFileMagic.length = 8 := by simp [kFileMagic]

/-! ## The file header -/

/-- The first 32 bytes of a file header. -/
def fileHeaderBody (flags : UInt16) (created reserved : UInt64) : List UInt8 :=
  kFileMagic ++ (bytes 2 kFileFormatVersion.toNat ++ (bytes 2 kFileHeaderSize.toNat ++
    (bytes 2 kEndianMarker.toNat ++ (bytes 2 flags.toNat ++ (bytes 8 created.toNat ++
      bytes 8 reserved.toNat)))))

/-- A file header: the body and the checksum of the body. -/
def fileHeader (flags : UInt16) (created reserved : UInt64) : List UInt8 :=
  fileHeaderBody flags created reserved ++
    bytes 4 (crc32 (fileHeaderBody flags created reserved)).toNat

@[simp] theorem length_fileHeaderBody (flags : UInt16) (created reserved : UInt64) :
    (fileHeaderBody flags created reserved).length = 32 := by
  simp [fileHeaderBody]

@[simp] theorem length_fileHeader (flags : UInt16) (created reserved : UInt64) :
    (fileHeader flags created reserved).length = 36 := by
  simp [fileHeader]

/-! ## Record headers -/

/-- The twelve fields of a record header, in the order of the format table. -/
structure RecordHeader where
  magic : UInt32
  headerSize : UInt16
  version : UInt16
  timestampNs : UInt64
  sequence : UInt64
  producerId : UInt32
  eventType : UInt16
  severityRaw : UInt16
  payloadSize : UInt32
  headerCrc : UInt32
  payloadCrc : UInt32
  flags : UInt32
  deriving DecidableEq

namespace RecordHeader

/-- The fields before the header checksum: bytes 0 to 36. -/
def front (h : RecordHeader) : List UInt8 :=
  bytes 4 h.magic.toNat ++ (bytes 2 h.headerSize.toNat ++ (bytes 2 h.version.toNat ++
    (bytes 8 h.timestampNs.toNat ++ (bytes 8 h.sequence.toNat ++ (bytes 4 h.producerId.toNat ++
      (bytes 2 h.eventType.toNat ++ (bytes 2 h.severityRaw.toNat ++
        bytes 4 h.payloadSize.toNat)))))))

/-- The fields after the header checksum: bytes 40 to 48. -/
def back (h : RecordHeader) : List UInt8 := bytes 4 h.payloadCrc.toNat ++ bytes 4 h.flags.toNat

/-- The 48 bytes of a record header. -/
def toBytes (h : RecordHeader) : List UInt8 :=
  h.front ++ (bytes 4 h.headerCrc.toNat ++ h.back)

@[simp] theorem length_front (h : RecordHeader) : h.front.length = 36 := by simp [front]

@[simp] theorem length_back (h : RecordHeader) : h.back.length = 8 := by simp [back]

@[simp] theorem length_toBytes (h : RecordHeader) : h.toBytes.length = 48 := by simp [toBytes]

/-- Decode the fields at their offsets. -/
def ofBytes (header : List UInt8) : RecordHeader where
  magic := readU32 header
  headerSize := readU16 (header.drop 4)
  version := readU16 (header.drop 6)
  timestampNs := readU64 (header.drop 8)
  sequence := readU64 (header.drop 16)
  producerId := readU32 (header.drop 24)
  eventType := readU16 (header.drop 28)
  severityRaw := readU16 (header.drop 30)
  payloadSize := readU32 (header.drop 32)
  headerCrc := readU32 (header.drop 36)
  payloadCrc := readU32 (header.drop 40)
  flags := readU32 (header.drop 44)

/-- Decoding the bytes of a header gives the header back. -/
@[simp] theorem ofBytes_toBytes (h : RecordHeader) : ofBytes h.toBytes = h := by
  have hend (v : UInt32) : readU32 (bytes 4 v.toNat) = v := by
    simpa using readU32_bytes v []
  simp (disch := simp) only [ofBytes, toBytes, front, back, List.append_assoc, drop_append_ge,
    length_bytes, List.drop_zero, readU16_bytes, readU32_bytes, readU64_bytes, hend, Nat.reduceSub]

/-- Encoding the fields of 48 bytes gives the bytes back. -/
theorem toBytes_ofBytes {header : List UInt8} (h : header.length = 48) :
    (ofBytes header).toBytes = header := by
  obtain ⟨a₁, h₁, rfl, ha₁, h⟩ := exists_append (m := 4) (n := 44) h
  obtain ⟨a₂, h₂, rfl, ha₂, h⟩ := exists_append (m := 2) (n := 42) h
  obtain ⟨a₃, h₃, rfl, ha₃, h⟩ := exists_append (m := 2) (n := 40) h
  obtain ⟨a₄, h₄, rfl, ha₄, h⟩ := exists_append (m := 8) (n := 32) h
  obtain ⟨a₅, h₅, rfl, ha₅, h⟩ := exists_append (m := 8) (n := 24) h
  obtain ⟨a₆, h₆, rfl, ha₆, h⟩ := exists_append (m := 4) (n := 20) h
  obtain ⟨a₇, h₇, rfl, ha₇, h⟩ := exists_append (m := 2) (n := 18) h
  obtain ⟨a₈, h₈, rfl, ha₈, h⟩ := exists_append (m := 2) (n := 16) h
  obtain ⟨a₉, h₉, rfl, ha₉, h⟩ := exists_append (m := 4) (n := 12) h
  obtain ⟨a₁₀, h₁₀, rfl, ha₁₀, h⟩ := exists_append (m := 4) (n := 8) h
  obtain ⟨a₁₁, a₁₂, rfl, ha₁₁, ha₁₂⟩ := exists_append (m := 4) (n := 4) h
  have hend : bytes 4 (readU32 a₁₂).toNat = a₁₂ := by simpa using bytes_readU32 ha₁₂ []
  simp only [ofBytes, toBytes, front, back, List.append_assoc, drop_append_ge, ha₁, ha₂, ha₃, ha₄,
    ha₅, ha₆, ha₇, ha₈, ha₉, ha₁₀, ha₁₁, List.drop_zero, Nat.reduceSub, Nat.reduceLeDiff,
    bytes_readU16, bytes_readU32, bytes_readU64, hend]

/-- The header with its own checksum field set to zero. -/
def zeroCrc (h : RecordHeader) : RecordHeader := { h with headerCrc := 0 }

/-- The checksum that the header should carry. -/
def computedCrc (h : RecordHeader) : UInt32 := crc32 h.zeroCrc.toBytes

end RecordHeader

/-! ## Records and logs -/

/-- The header of the record of an event, before its checksum is filled in. -/
def blankHeader (flags : UInt32) (event : Event) : RecordHeader where
  magic := kRecordMagic
  headerSize := kRecordHeaderSize
  version := kFileFormatVersion
  timestampNs := event.timestampNs
  sequence := event.sequence
  producerId := event.producerId
  eventType := event.type
  severityRaw := severityToU16 event.severity
  payloadSize := UInt32.ofNat event.payload.length
  headerCrc := 0
  payloadCrc := crc32 event.payload
  flags := flags

/-- The header of the record of an event. -/
def recordHeader (flags : UInt32) (event : Event) : RecordHeader :=
  { blankHeader flags event with headerCrc := crc32 (blankHeader flags event).toBytes }

/-- The record of an event: its header and its payload. -/
def recordBytes (flags : UInt32) (event : Event) : List UInt8 :=
  (recordHeader flags event).toBytes ++ event.payload

@[simp] theorem length_recordBytes (flags : UInt32) (event : Event) :
    (recordBytes flags event).length = 48 + event.payload.length := by
  simp [recordBytes]

/-- The events the format can represent. -/
structure Event.Valid (event : Event) : Prop where
  severity : event.severity.IsEnumerator
  payload : event.payload.length ≤ kMaxPayloadBytes

/-- The byte strings that are the records of a list of events, one after the other. The flags of
each record are free. -/
inductive IsRecords : List UInt8 → List Event → Prop
  | nil : IsRecords [] []
  | cons (flags : UInt32) {event : Event} {rest : List UInt8} {events : List Event} :
      event.Valid → IsRecords rest events →
      IsRecords (recordBytes flags event ++ rest) (event :: events)

/-- The byte strings that are logs of a list of events. The flags, the creation time and the
reserved field of the file header are free. -/
def IsLog (file : List UInt8) (events : List Event) : Prop :=
  ∃ flags created reserved records,
    file = fileHeader flags created reserved ++ records ∧ IsRecords records events

/-- The checksum of a record header is the one the format asks for. -/
theorem recordHeader_crc (flags : UInt32) (event : Event) :
    (recordHeader flags event).headerCrc = (recordHeader flags event).computedCrc := rfl

end Hpblr
