import Mathlib.Data.Nat.Bitwise
import Mathlib.Tactic.Ring

/-!
# Little-endian byte strings

Fixed-width little-endian encodings of natural numbers: the encoder, the decoder, and the two
round trips. The loops of a serializer, which shift a value and mask a byte or gather bytes with
shifts and disjunctions, are related to these two functions once and for all here.
-/

namespace LittleEndian

/-- The `width` low bytes of a number, least significant byte first. -/
def bytes : ℕ → ℕ → List UInt8
  | 0, _ => []
  | width + 1, v => UInt8.ofNat v :: bytes width (v / 256)

/-- The number written by a little-endian byte string. -/
def value : List UInt8 → ℕ
  | [] => 0
  | b :: bs => b.toNat + 256 * value bs

@[simp] theorem length_bytes (width v : ℕ) : (bytes width v).length = width := by
  induction width generalizing v with
  | zero => rfl
  | succ width ih => simp only [bytes, List.length_cons, ih]

/-- A byte string of length `n` writes a number below `256 ^ n`. -/
theorem value_lt (bs : List UInt8) : value bs < 256 ^ bs.length := by
  induction bs with
  | nil => simp [value]
  | cons b bs ih =>
    have hb : b.toNat < 256 := b.toNat_lt
    simp only [value, List.length_cons, pow_succ]
    omega

/-- Decoding an encoding keeps the low bytes of the number. -/
theorem value_bytes (width v : ℕ) : value (bytes width v) = v % 256 ^ width := by
  induction width generalizing v with
  | zero => simp [bytes, value, Nat.mod_one]
  | succ width ih =>
    have hb : (UInt8.ofNat v).toNat = v % 256 := UInt8.toNat_ofNat'
    rw [bytes, value, ih, hb, pow_succ', Nat.mod_mul]

/-- Decoding an encoding gives back every number that fits in the width. -/
theorem value_bytes_of_lt {width v : ℕ} (h : v < 256 ^ width) : value (bytes width v) = v := by
  rw [value_bytes, Nat.mod_eq_of_lt h]

/-- Encoding a decoded byte string gives back the byte string. -/
theorem bytes_value (bs : List UInt8) : bytes bs.length (value bs) = bs := by
  induction bs with
  | nil => rfl
  | cons b bs ih =>
    have hb : b.toNat < 256 := b.toNat_lt
    have hhead : UInt8.ofNat (b.toNat + 256 * value bs) = b := by
      apply UInt8.toNat.inj
      rw [UInt8.toNat_ofNat']
      omega
    have htail : (b.toNat + 256 * value bs) / 256 = value bs := by omega
    rw [List.length_cons, value, bytes, hhead, htail, ih]

/-- `bytes_value` at a string whose length is known. -/
theorem bytes_value_of_length {width : ℕ} {bs : List UInt8} (h : bs.length = width) :
    bytes width (value bs) = bs := by
  subst h
  exact bytes_value bs

/-- The encoding of zero is all zeros, and no other number that fits in the width has it. -/
theorem bytes_eq_replicate {width v : ℕ} (h : v < 256 ^ width) :
    bytes width v = List.replicate width 0 ↔ v = 0 := by
  have hzero (width : ℕ) : bytes width 0 = List.replicate width 0 := by
    induction width with
    | zero => rfl
    | succ width ih => simp [bytes, ih, List.replicate_succ]
  constructor
  · intro hbytes
    rw [← value_bytes_of_lt h, hbytes, ← hzero, value_bytes, Nat.zero_mod]
  · rintro rfl
    exact hzero width

/-- Byte `i` of an encoding is the number shifted right by `8 * i` bits. -/
theorem bytes_eq_map_range (width v : ℕ) :
    bytes width v = (List.range width).map (fun i => UInt8.ofNat (v >>> (8 * i))) := by
  induction width generalizing v with
  | zero => rfl
  | succ width ih =>
    rw [bytes, ih, List.range_succ_eq_map, List.map_cons, List.map_map]
    congr 1
    apply List.map_congr_left
    intro i _
    have hdiv : v / 256 = v >>> 8 := by rw [Nat.shiftRight_eq_div_pow]
    rw [Function.comp_apply, hdiv, ← Nat.shiftRight_add]
    congr 2
    omega

/-- A string longer than the width splits off its first `width` bytes. -/
theorem value_append (as bs : List UInt8) :
    value (as ++ bs) = value as + 256 ^ as.length * value bs := by
  induction as with
  | nil => simp [value]
  | cons a as ih =>
    rw [List.cons_append, value, value, ih, List.length_cons, pow_succ]
    ring

/-- Gathering bytes with a left shift and a disjunction, as a decoding loop does, computes the
value of the byte string. The accumulator holds the bytes already read. -/
theorem foldl_or_eq_value (data : ℕ → UInt8) (width : ℕ) :
    (List.range width).foldl (fun acc i => acc ||| (data i).toNat <<< (8 * i)) 0 =
      value ((List.range width).map data) := by
  induction width with
  | zero => rfl
  | succ width ih =>
    rw [List.range_succ, List.foldl_append, ih, List.map_append, value_append]
    simp only [List.foldl_cons, List.foldl_nil, List.map_cons, List.map_nil, value,
      List.length_map, List.length_range]
    have hlt := value_lt ((List.range width).map data)
    rw [List.length_map, List.length_range] at hlt
    have hpow : 256 ^ width = 2 ^ (8 * width) := by
      rw [pow_mul, show (2 : ℕ) ^ 8 = 256 from rfl]
    rw [hpow] at hlt ⊢
    rw [Nat.or_comm, ← Nat.shiftLeft_add_eq_or_of_lt hlt, Nat.shiftLeft_eq]
    ring

end LittleEndian
