import Hpblr.Lib.ShiftRegister

/-!
# The CRC-32 of the log format

The code computes the checksum a byte at a time from a table of 256 words. This file states the
table loop and the checksum loop as the code has them, and proves that they run the feedback
shift register of `ShiftRegister`, from which the detection results follow.
-/

namespace Hpblr

open ShiftRegister

/-- `kPolynomial`: the feedback word of the reflected CRC-32. -/
def kPolynomial : UInt32 := 0xEDB88320

/-- The body of the inner loop of `make_table`. -/
def tableBit (crc : UInt32) : UInt32 :=
  if crc &&& 1 ≠ 0 then (crc >>> 1) ^^^ kPolynomial else crc >>> 1

/-- `make_table`: entry `i` is `i` after eight rounds of the inner loop. -/
def makeTable : Vector UInt32 256 :=
  Vector.ofFn (fun i => tableBit^[8] (UInt32.ofNat i.val))

/-- `kTable`. -/
def kTable : Vector UInt32 256 := makeTable

/-- The body of the loop of `crc32`. -/
def crcByte (crc : UInt32) (byte : UInt8) : UInt32 :=
  let index := ((crc ^^^ byte.toUInt32) &&& 0xFF).toUInt8
  (crc >>> 8) ^^^ kTable[index.toFin]

/-- `crc32` on a byte span. -/
def crc32 (data : List UInt8) : UInt32 :=
  data.foldl crcByte 0xFFFFFFFF ^^^ 0xFFFFFFFF

/-! ## The table runs the shift register -/

/-- The feedback word as a register. -/
def polynomialWord : BitVec 32 := kPolynomial.toBitVec

theorem polynomialWord_msb : polynomialWord.msb = true := by decide

private theorem and_one_ne_zero (crc : UInt32) :
    crc &&& 1 ≠ 0 ↔ crc.toBitVec.getLsbD 0 = true := by
  have hbit : (crc &&& 1).toBitVec = BitVec.setWidth 32 (BitVec.ofBool (crc.toBitVec.getLsbD 0)) :=
    BitVec.and_one_eq_setWidth_ofBool_getLsbD
  cases hlow : crc.toBitVec.getLsbD 0 <;> rw [hlow] at hbit
  · have hzero : crc &&& 1 = 0 := UInt32.toBitVec_inj.mp hbit
    simp [hzero]
  · have hone : crc &&& 1 = 1 := UInt32.toBitVec_inj.mp hbit
    simp [hone]

/-- One round of the inner loop is one clock of the register. -/
theorem tableBit_toBitVec (crc : UInt32) :
    (tableBit crc).toBitVec = shift polynomialWord crc.toBitVec := by
  unfold tableBit shift
  by_cases hlow : crc.toBitVec.getLsbD 0 = true
  · rw [if_pos ((and_one_ne_zero crc).mpr hlow), if_pos hlow]
    rfl
  · rw [if_neg (fun h => hlow ((and_one_ne_zero crc).mp h)), if_neg hlow]
    rfl

theorem tableBit_iterate_toBitVec (n : ℕ) (crc : UInt32) :
    (tableBit^[n] crc).toBitVec = shiftN polynomialWord n crc.toBitVec := by
  induction n generalizing crc with
  | zero => rfl
  | succ n ih => rw [Function.iterate_succ_apply, ih, tableBit_toBitVec, shiftN_succ]

/-- Every table entry is eight clocks of its index. -/
theorem kTable_get (index : UInt8) :
    kTable[index.toFin].toBitVec = shiftN polynomialWord 8 (index.toBitVec.setWidth 32) := by
  have hentry : kTable[index.toFin] = tableBit^[8] (UInt32.ofNat index.toNat) := by
    simp [kTable, makeTable]
  have hword : (UInt32.ofNat index.toNat).toBitVec = index.toBitVec.setWidth 32 := by
    apply BitVec.eq_of_toNat_eq
    have := index.toNat_lt
    simp
  rw [hentry, tableBit_iterate_toBitVec, hword]

/-- Eight clocks move the three high bytes down and replace the low byte by its table entry. -/
theorem shiftN_eight_eq (c : BitVec 32) :
    shiftN polynomialWord 8 c =
      (c >>> 8) ^^^ shiftN polynomialWord 8 ((c.setWidth 8).setWidth 32) := by
  have hlow (i : ℕ) (hi : i < 32) : ((c.setWidth 8).setWidth 32).getLsbD i =
      (decide (i < 8) && c.getLsbD i) := by
    simp [hi]
  have hsplit : c = ((c >>> 8) <<< 8) ^^^ (c.setWidth 8).setWidth 32 := by
    apply BitVec.eq_of_getLsbD_eq
    intro i hi
    rw [BitVec.getLsbD_xor, hlow i hi]
    by_cases h8 : i < 8
    · simp [h8]
    · simp [h8, hi, show 8 + (i - 8) = i by omega]
  have hhigh : ((c >>> 8) <<< 8) >>> 8 = c >>> 8 := by
    apply BitVec.eq_of_getLsbD_eq
    intro i hi
    by_cases h24 : 8 + i < 32
    · simp [h24]
    · simp [h24, BitVec.getLsbD_of_ge c (8 + i) (by omega)]
  conv_lhs => rw [hsplit, shiftN_xor]
  rw [shiftN_of_low_clear _ (fun i hi => by simp [hi]), hhigh]

/-- The loop body of `crc32` feeds the eight bits of its byte to the register. -/
theorem crcByte_toBitVec (crc : UInt32) (byte : UInt8) :
    (crcByte crc byte).toBitVec = absorb polynomialWord crc.toBitVec (byteBits byte) := by
  let c : BitVec 32 := crc.toBitVec ^^^ byte.toBitVec.setWidth 32
  have hword : word 32 (byteBits byte) = byte.toBitVec.setWidth 32 := by
    have h := word_bits 32 [byte]
    simp only [bits_cons, bits_nil, List.append_nil, LittleEndian.value] at h
    rw [h]
    apply BitVec.eq_of_toNat_eq
    simp
  have hindex : (((crc ^^^ byte.toUInt32) &&& 0xFF).toUInt8).toBitVec = c.setWidth 8 := by
    rw [UInt32.toBitVec_toUInt8, UInt32.toBitVec_and, UInt32.toBitVec_xor,
      UInt8.toBitVec_toUInt32]
    apply BitVec.eq_of_getLsbD_eq
    intro i hi
    have hmask : (UInt32.toBitVec 0xFF).getLsbD i = true := by
      change (BitVec.ofNat 32 (2 ^ 8 - 1)).getLsbD i = true
      rw [BitVec.getLsbD_ofNat, Nat.testBit_two_pow_sub_one]
      simp [hi, show i < 32 by omega]
    rw [BitVec.getLsbD_setWidth, BitVec.getLsbD_setWidth, BitVec.getLsbD_and, hmask, Bool.and_true]
  have hbyte : c >>> 8 = crc.toBitVec >>> 8 := by
    have hclear : byte.toBitVec.setWidth 32 >>> 8 = 0#32 := by
      apply BitVec.eq_of_getLsbD_eq
      intro i hi
      simp
    rw [BitVec.ushiftRight_xor_distrib, hclear, BitVec.xor_zero]
  have hlen : (byteBits byte).length ≤ 32 := by simp
  rw [absorb_eq_shiftN _ _ hlen, length_byteBits, hword, shiftN_eight_eq]
  change (crc.toBitVec >>> 8) ^^^ kTable[UInt8.toFin _].toBitVec = _
  rw [kTable_get, hindex, hbyte]

/-- The checksum is the register fed with the whole message, from all ones, and complemented. -/
theorem crc32_toBitVec (data : List UInt8) :
    (crc32 data).toBitVec =
      absorb polynomialWord (BitVec.allOnes 32) (bits data) ^^^ BitVec.allOnes 32 := by
  have hfold (crc : UInt32) :
      (data.foldl crcByte crc).toBitVec = absorb polynomialWord crc.toBitVec (bits data) := by
    induction data generalizing crc with
    | nil => rfl
    | cons b bs ih => rw [List.foldl_cons, ih, crcByte_toBitVec, bits_cons, absorb_append]
  rw [crc32, UInt32.toBitVec_xor, hfold]
  rfl

example : crc32 [49, 50, 51, 52, 53, 54, 55, 56, 57] = 0xCBF43926 := by decide +kernel

/-! ## What the checksum detects -/

/-- Two messages of one length that differ inside a window of 32 bits have different checksums. -/
theorem eq_of_crc32_eq {xs ys : List UInt8} (hlen : xs.length = ys.length) {s : ℕ}
    (hdiff : ∀ i, (bits xs)[i]? ≠ (bits ys)[i]? → s ≤ i ∧ i < s + 32)
    (h : crc32 xs = crc32 ys) : xs = ys := by
  have hword := congrArg UInt32.toBitVec h
  rw [crc32_toBitVec, crc32_toBitVec, BitVec.xor_left_inj] at hword
  exact bits_injective (eq_of_absorb_eq polynomialWord_msb _ (by simp [hlen]) hdiff hword)

/-- A message followed by its checksum drives the register to one fixed word. -/
theorem absorb_sealed (data : List UInt8) :
    absorb polynomialWord (BitVec.allOnes 32)
        (bits (data ++ LittleEndian.bytes 4 (crc32 data).toNat)) =
      shiftN polynomialWord 32 (BitVec.allOnes 32) := by
  have hlen : (bits (LittleEndian.bytes 4 (crc32 data).toNat)).length = 32 := by simp
  have hword : word 32 (bits (LittleEndian.bytes 4 (crc32 data).toNat)) =
      (crc32 data).toBitVec := by
    rw [word_bits, LittleEndian.value_bytes_of_lt (crc32 data).toNat_lt]
    simp
  rw [bits_append, absorb_append, absorb_eq_shiftN _ _ hlen.le, hlen, hword, crc32_toBitVec,
    ← BitVec.xor_assoc, BitVec.xor_self, BitVec.zero_xor]

/-- Two messages of one length, each followed by its checksum, that differ inside a window of 32
bits are equal: here the window may straddle the message and the checksum. -/
theorem eq_of_sealed {xs ys : List UInt8} (hlen : xs.length = ys.length) {s : ℕ}
    (hdiff : ∀ i, (bits (xs ++ LittleEndian.bytes 4 (crc32 xs).toNat))[i]? ≠
      (bits (ys ++ LittleEndian.bytes 4 (crc32 ys).toNat))[i]? → s ≤ i ∧ i < s + 32) :
    xs = ys := by
  have hregister := (absorb_sealed xs).trans (absorb_sealed ys).symm
  have hbits := eq_of_absorb_eq polynomialWord_msb _ (by simp [hlen]) hdiff hregister
  exact (List.append_inj (bits_injective hbits) hlen).1

/-- Replacing one 32-bit word in the middle of a message changes the checksum by a linear function
of the change alone. -/
theorem crc32_xor_crc32 (front back : List UInt8) (u v : UInt32) :
    (crc32 (front ++ LittleEndian.bytes 4 u.toNat ++ back)).toBitVec ^^^
        (crc32 (front ++ LittleEndian.bytes 4 v.toNat ++ back)).toBitVec =
      shiftN polynomialWord (8 * back.length + 32) (u.toBitVec ^^^ v.toBitVec) := by
  have hlen (x : UInt32) : (bits (LittleEndian.bytes 4 x.toNat)).length = 32 := by simp
  have hword (x : UInt32) : word 32 (bits (LittleEndian.bytes 4 x.toNat)) = x.toBitVec := by
    rw [word_bits, LittleEndian.value_bytes_of_lt x.toNat_lt]
    simp
  have hcancel (a b c : BitVec 32) : (a ^^^ c) ^^^ (b ^^^ c) = a ^^^ b := by
    rw [BitVec.xor_comm b, BitVec.xor_assoc, ← BitVec.xor_assoc c, BitVec.xor_self,
      BitVec.zero_xor]
  have hcancel' (a b c : BitVec 32) : (c ^^^ a) ^^^ (c ^^^ b) = a ^^^ b := by
    rw [BitVec.xor_comm c, BitVec.xor_comm c, hcancel]
  simp only [crc32_toBitVec, hcancel, bits_append, absorb_append]
  rw [absorb_xor_absorb, absorb_eq_shiftN _ _ (hlen u).le, absorb_eq_shiftN _ _ (hlen v).le,
    hlen, hlen, hword, hword, ← shiftN_xor, hcancel', length_bits, shiftN_add]

end Hpblr
