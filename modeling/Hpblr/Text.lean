import Mathlib.Data.List.TakeWhile

/-!
# Text

What the tools print and read: chains of insertions into an output stream, numbers as the standard
library writes and reads them, and bytes as pairs of hexadecimal digits.
-/

namespace Hpblr

/-- A text, one character for each byte of it. -/
abbrev Text := List Char

/-! ## Output streams -/

/-- `std::ostream`: what a formatted insertion does to the stream. -/
class OStream (σ : Type) where
  insert : σ → Text → σ

/-- A chain of insertions. -/
def insertAll {σ : Type} [OStream σ] (out : σ) (pieces : List Text) : σ :=
  pieces.foldl OStream.insert out

/-- A stream that takes everything: the text inserted so far. -/
instance : OStream Text := ⟨fun out text => out ++ text⟩

@[simp] theorem insert_text (out text : Text) : OStream.insert out text = out ++ text := rfl

theorem insertAll_text (out : Text) (pieces : List Text) :
    insertAll out pieces = out ++ pieces.flatten := by
  induction pieces generalizing out with
  | nil => simp [insertAll]
  | cons piece pieces ih =>
    rw [insertAll, List.foldl_cons, ← insertAll, ih]
    simp

/-- Two chains are one chain. -/
theorem insertAll_append {σ : Type} [OStream σ] (out : σ) (pieces more : List Text) :
    insertAll out (pieces ++ more) = insertAll (insertAll out pieces) more :=
  List.foldl_append

/-! ## Numbers -/

/-- The insertion of an unsigned number in base ten. -/
def decimal (n : ℕ) : Text := Nat.toDigits 10 n

/-- `std::setw` with the fill character zero. -/
def setw (width : ℕ) (text : Text) : Text := List.leftpad width '0' text

/-- What can go wrong in `std::from_chars`. -/
inductive FromCharsError where
  | invalidArgument
  | resultOutOfRange
  deriving DecidableEq

/-- The value of a sequence of decimal digits. -/
def digitsValue (digits : List Char) : ℕ :=
  digits.foldl (fun value c => 10 * value + (c.toNat - '0'.toNat)) 0

/-- `std::from_chars` for an unsigned 64-bit value in base ten: the value and the unread rest. -/
def fromChars (text : List Char) : Except FromCharsError (UInt64 × List Char) :=
  let digits := text.takeWhile Char.isDigit
  if digits = [] then .error .invalidArgument
  else if digitsValue digits < UInt64.size then
    .ok (UInt64.ofNat (digitsValue digits), text.dropWhile Char.isDigit)
  else .error .resultOutOfRange

/-- `std::from_chars` for an `unsigned int`. -/
def fromCharsUnsigned (text : List Char) : Except FromCharsError (UInt32 × List Char) :=
  let digits := text.takeWhile Char.isDigit
  if digits = [] then .error .invalidArgument
  else if digitsValue digits < UInt32.size then
    .ok (UInt32.ofNat (digitsValue digits), text.dropWhile Char.isDigit)
  else .error .resultOutOfRange

theorem isDigit_of_mem_decimal {n : ℕ} {c : Char} (hc : c ∈ decimal n) : c.isDigit = true :=
  Nat.isDigit_of_mem_toDigits (by omega) (by omega) hc

theorem decimal_ne_nil (n : ℕ) : decimal n ≠ [] := Nat.toDigits_ne_nil

@[simp] theorem digitsValue_decimal (n : ℕ) : digitsValue (decimal n) = n := by
  have h := Nat.ofDigitChars_ten_toDigits (n := n)
  rwa [Nat.ofDigitChars_eq_foldl] at h

/-- Reading undoes writing. -/
@[simp] theorem fromChars_decimal (value : UInt64) :
    fromChars (decimal value.toNat) = .ok (value, []) := by
  have hall : ∀ c ∈ decimal value.toNat, c.isDigit = true := fun c hc => isDigit_of_mem_decimal hc
  have htake : (decimal value.toNat).takeWhile Char.isDigit = decimal value.toNat :=
    List.takeWhile_eq_self_iff.mpr hall
  have hdrop : (decimal value.toNat).dropWhile Char.isDigit = [] :=
    List.dropWhile_eq_nil_iff.mpr hall
  simp only [fromChars, htake, hdrop, if_neg (decimal_ne_nil _), digitsValue_decimal,
    if_pos value.toNat_lt_size, UInt64.ofNat_toNat]

/-! ## Bytes -/

/-- The insertion of a byte with `std::hex`, `std::setw(2)` and the fill character zero. -/
def hexByte (byte : UInt8) : Text := setw 2 (Nat.toDigits 16 byte.toNat)

/-- `bytes_to_hex`. -/
def bytesToHex (bytes : List UInt8) (maxBytes : UInt64) : Text :=
  let count := if bytes.length < maxBytes.toNat then bytes.length else maxBytes.toNat
  let text := (bytes.take count).flatMap hexByte
  if count < bytes.length then text ++ "...".toList else text

/-- The default of `max_bytes`: the largest `std::size_t`. -/
def sizeMax : UInt64 := 0xFFFFFFFFFFFFFFFF

/-- The value of a hexadecimal digit. -/
def hexDigit (c : Char) : Option ℕ :=
  if c.isDigit then some (c.toNat - '0'.toNat)
  else if 'a' ≤ c ∧ c ≤ 'f' then some (c.toNat - 'a'.toNat + 10)
  else if 'A' ≤ c ∧ c ≤ 'F' then some (c.toNat - 'A'.toNat + 10)
  else none

/-- The bytes that pairs of hexadecimal digits stand for. -/
def hexDecode : Text → Option (List UInt8)
  | [] => some []
  | [_] => none
  | high :: low :: rest => do
    let h ← hexDigit high
    let l ← hexDigit low
    let bytes ← hexDecode rest
    return UInt8.ofNat (16 * h + l) :: bytes

theorem hexDigit_digitChar {d : ℕ} (hd : d < 16) : hexDigit d.digitChar = some d := by
  have hall : ∀ d < 16, hexDigit d.digitChar = some d := by decide
  exact hall d hd

/-- A byte is written as two digits. -/
theorem hexByte_eq (byte : UInt8) :
    hexByte byte = [(byte.toNat / 16).digitChar, (byte.toNat % 16).digitChar] := by
  have hbyte : byte.toNat < 256 := byte.toNat_lt
  unfold hexByte setw
  by_cases hsmall : byte.toNat < 16
  · rw [Nat.toDigits_of_lt_base hsmall, Nat.div_eq_of_lt hsmall, Nat.mod_eq_of_lt hsmall]
    rfl
  · rw [Nat.toDigits_of_base_le (by omega) (by omega), Nat.toDigits_of_lt_base (by omega)]
    rfl

/-- Decoding undoes the hexadecimal form, when no byte is left out. -/
theorem hexDecode_bytesToHex {bytes : List UInt8} (h : bytes.length < sizeMax.toNat) :
    hexDecode (bytesToHex bytes sizeMax) = some bytes := by
  have hwhole : bytesToHex bytes sizeMax = bytes.flatMap hexByte := by
    simp only [bytesToHex, if_pos h, Nat.lt_irrefl, if_false, List.take_length]
  rw [hwhole]
  clear h hwhole
  induction bytes with
  | nil => rfl
  | cons byte bytes ih =>
    have hbyte : byte.toNat < 256 := byte.toNat_lt
    have hvalue : 16 * (byte.toNat / 16) + byte.toNat % 16 = byte.toNat := by omega
    rw [List.flatMap_cons, hexByte_eq]
    simp only [List.cons_append, List.nil_append, hexDecode]
    rw [hexDigit_digitChar (by omega), hexDigit_digitChar (by omega), ih]
    simp only [Option.bind_eq_bind, Option.bind_some, Option.pure_def, hvalue, UInt8.ofNat_toNat]

/-- A hexadecimal form with no byte left out has only digits and letters. -/
theorem mem_bytesToHex {bytes : List UInt8} (h : bytes.length < sizeMax.toNat) {c : Char}
    (hc : c ∈ bytesToHex bytes sizeMax) : ∃ d < 16, c = d.digitChar := by
  simp only [bytesToHex, if_pos h, Nat.lt_irrefl, if_false, List.take_length, List.mem_flatMap,
    hexByte_eq] at hc
  obtain ⟨byte, _, hmem⟩ := hc
  have hbyte : byte.toNat < 256 := byte.toNat_lt
  simp only [List.mem_cons, List.not_mem_nil, or_false] at hmem
  rcases hmem with rfl | rfl
  · exact ⟨byte.toNat / 16, by omega, rfl⟩
  · exact ⟨byte.toNat % 16, by omega, rfl⟩

example : bytesToHex [0, 255, 16] 2 = "00ff...".toList := by decide

end Hpblr
