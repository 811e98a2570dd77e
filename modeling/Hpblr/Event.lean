import Mathlib.Tactic.SplitIfs
import Hpblr.Text

/-!
# Events and errors

The record type of the library and the exceptions it throws. `Severity` is a C++ enumeration with
a fixed underlying type: it has six named values, and a cast can build any other sixteen-bit value.
-/

namespace Hpblr

/-- `enum class Severity : std::uint16_t`, with every value of its underlying type. -/
structure Severity where
  /-- The value of the underlying type. -/
  value : UInt16
  deriving DecidableEq

namespace Severity

def trace : Severity := ⟨0⟩
def debug : Severity := ⟨1⟩
def info : Severity := ⟨2⟩
def warning : Severity := ⟨3⟩
def error : Severity := ⟨4⟩
def critical : Severity := ⟨5⟩

/-- The six enumerators of the declaration. -/
def IsEnumerator (severity : Severity) : Prop :=
  severity = trace ∨ severity = debug ∨ severity = info ∨ severity = warning ∨
    severity = error ∨ severity = critical

instance (severity : Severity) : Decidable severity.IsEnumerator :=
  inferInstanceAs (Decidable (_ ∨ _))

end Severity

/-- `severity_to_u16`: the cast to the underlying type. -/
def severityToU16 (severity : Severity) : UInt16 := severity.value

/-- `severity_from_u16`: the six known values, and nothing for any other. -/
def severityFromU16 (value : UInt16) : Option Severity :=
  if value = 0 then some .trace
  else if value = 1 then some .debug
  else if value = 2 then some .info
  else if value = 3 then some .warning
  else if value = 4 then some .error
  else if value = 5 then some .critical
  else none

/-- A value that `severity_from_u16` accepts is one of the enumerators, and converts back. -/
theorem severityFromU16_eq_some {value : UInt16} {severity : Severity} :
    severityFromU16 value = some severity ↔
      severity.IsEnumerator ∧ severityToU16 severity = value := by
  constructor
  · intro h
    unfold severityFromU16 at h
    split_ifs at h <;> cases h <;> subst_vars <;> exact ⟨by decide, rfl⟩
  · rintro ⟨henum, rfl⟩
    rcases henum with rfl | rfl | rfl | rfl | rfl | rfl <;> rfl

/-- The enumerators are the values up to five. -/
theorem Severity.isEnumerator_iff {severity : Severity} :
    severity.IsEnumerator ↔ (severityToU16 severity).toNat ≤ 5 := by
  constructor
  · rintro (rfl | rfl | rfl | rfl | rfl | rfl) <;> decide
  · intro h
    obtain ⟨value⟩ := severity
    have hcases : value = 0 ∨ value = 1 ∨ value = 2 ∨ value = 3 ∨ value = 4 ∨ value = 5 := by
      have : value.toNat ≤ 5 := h
      simp only [← UInt16.toNat_inj]
      change value.toNat = 0 ∨ value.toNat = 1 ∨ value.toNat = 2 ∨ value.toNat = 3 ∨
        value.toNat = 4 ∨ value.toNat = 5
      omega
    rcases hcases with rfl | rfl | rfl | rfl | rfl | rfl <;> decide

/-- `severity_to_string`. -/
def severityToString (severity : Severity) : Text :=
  if severity = .trace then "trace".toList
  else if severity = .debug then "debug".toList
  else if severity = .info then "info".toList
  else if severity = .warning then "warning".toList
  else if severity = .error then "error".toList
  else if severity = .critical then "critical".toList
  else "unknown".toList

/-- `severity_from_string`: a name, one of two short names, or a number up to five. -/
def severityFromString (value : Text) : Option Severity :=
  if value = "trace".toList then some .trace
  else if value = "debug".toList then some .debug
  else if value = "info".toList then some .info
  else if value = "warning".toList ∨ value = "warn".toList then some .warning
  else if value = "error".toList then some .error
  else if value = "critical".toList ∨ value = "crit".toList then some .critical
  else
    match fromCharsUnsigned value with
    | .ok (numeric, []) => if numeric ≤ 5 then severityFromU16 numeric.toUInt16 else none
    | _ => none

/-- The names of the enumerators are read back. -/
theorem severityFromString_severityToString {severity : Severity}
    (h : severity.IsEnumerator) : severityFromString (severityToString severity) = some severity := by
  rcases h with rfl | rfl | rfl | rfl | rfl | rfl <;> rfl

/-- The names are made of lower case letters. -/
theorem mem_severityToString {severity : Severity} {c : Char}
    (hc : c ∈ severityToString severity) : 'a' ≤ c ∧ c ≤ 'z' := by
  have hall : (severityToString severity).all (fun c => decide ('a' ≤ c ∧ c ≤ 'z')) = true := by
    unfold severityToString
    split_ifs <;> decide
  exact of_decide_eq_true (List.all_eq_true.mp hall c hc)

/-- `Event`: what one record of the log stores. -/
structure Event where
  timestampNs : UInt64 := 0
  sequence : UInt64 := 0
  producerId : UInt32 := 0
  type : UInt16 := 0
  severity : Severity := .info
  payload : List UInt8 := []
  deriving DecidableEq

/-- The exceptions the code throws, with the text that `what()` returns: `IoError`,
`FileFormatError` and `CrcError` of the library, the `std::length_error` of
`std::vector::reserve` for a request beyond `max_size()`, the `std::runtime_error` of the tools, and
those of `std::array::at` and `std::optional::value`. -/
inductive Exception where
  | ioError (message : String)
  | fileFormatError (message : String)
  | crcError (message : String)
  | lengthError (message : String)
  | runtimeError (message : String)
  | outOfRange (message : String)
  | badOptionalAccess
  deriving DecidableEq

/-- `what()`. -/
def Exception.what : Exception → String
  | .ioError message | .fileFormatError message | .crcError message | .lengthError message
  | .runtimeError message | .outOfRange message => message
  | .badOptionalAccess => "bad optional access"

/-- `max_size()` of a byte vector. -/
def vectorMaxSize : UInt64 := 0x7FFFFFFFFFFFFFFF

/-- The two exceptions that report a damaged or foreign file. -/
def Exception.IsFormatOrCrc : Exception → Prop
  | .fileFormatError _ | .crcError _ => True
  | _ => False

end Hpblr
