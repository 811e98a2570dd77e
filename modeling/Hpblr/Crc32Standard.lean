import Hpblr.Lib.Remainder
import Hpblr.Crc32

/-!
# The checksum is the standard CRC-32

The standard describes the reflected CRC-32 in two ways: by a shift register that reads the message
one bit at a time, and by the remainder of the message polynomial modulo a generator over GF(2). The
table-driven loop of the code computes both, for messages of any length.
-/

namespace Hpblr

open ShiftRegister Polynomial

/-- The generator of CRC-32. -/
noncomputable def crc32Generator : Polynomial (ZMod 2) :=
  X ^ 32 + X ^ 26 + X ^ 23 + X ^ 22 + X ^ 16 + X ^ 12 + X ^ 11 + X ^ 10 + X ^ 8 + X ^ 7 + X ^ 5 +
    X ^ 4 + X ^ 2 + X + 1

/-- The mask that is added to the front of the message and to the remainder: 32 ones. -/
noncomputable def crc32Mask : Polynomial (ZMod 2) := ∑ j ∈ Finset.range 32, X ^ j

theorem reversed_allOnes : reversed (BitVec.allOnes 32) = crc32Mask := by
  refine Finset.sum_congr rfl ?_
  intro j hj
  have hbit : (BitVec.allOnes 32).getLsbD (32 - 1 - j) = true := by
    rw [BitVec.getLsbD_allOnes]
    exact decide_eq_true (by omega)
  rw [hbit, ← C_mul_X_pow_eq_monomial, coefficient, if_pos rfl, map_one, one_mul]

/-- The feedback word of the code is the generator, with its bits reversed and without its leading
power. -/
theorem generator_polynomialWord : generator polynomialWord = crc32Generator := by
  have hbits : ∀ j < 32, polynomialWord.getLsbD (32 - 1 - j) =
      decide (j ∈ [0, 1, 2, 4, 5, 7, 8, 10, 11, 12, 16, 22, 23, 26]) := by decide
  have hreversed : reversed polynomialWord = ∑ j ∈ Finset.range 32,
      if j ∈ [0, 1, 2, 4, 5, 7, 8, 10, 11, 12, 16, 22, 23, 26] then X ^ j else 0 := by
    refine Finset.sum_congr rfl ?_
    intro j hj
    rw [hbits j (Finset.mem_range.mp hj)]
    split_ifs with hpower
    · simp [hpower, coefficient, ← C_mul_X_pow_eq_monomial]
    · simp [hpower, coefficient]
  have hpowers : (Finset.range 32).filter
      (· ∈ [0, 1, 2, 4, 5, 7, 8, 10, 11, 12, 16, 22, 23, 26]) =
        {0, 1, 2, 4, 5, 7, 8, 10, 11, 12, 16, 22, 23, 26} := by decide
  rw [generator, hreversed, ← Finset.sum_filter, hpowers, crc32Generator]
  repeat rw [Finset.sum_insert (by decide)]
  rw [Finset.sum_singleton]
  ring

/-- **The checksum is the standard one.** For every message, `crc32` is the complement of what the
shift register with feedback word `0xEDB88320` holds after the bits of the message, least significant
bit first, from all ones on. With its bits reversed it is the remainder of the message polynomial
modulo the generator of CRC-32, with 32 ones added to the front of the message and to the
remainder. -/
theorem crc32_standard (data : List UInt8) :
    (crc32 data).toBitVec = ~~~absorb 0xEDB88320#32 0xFFFFFFFF#32 (bits data) ∧
    reversed (crc32 data).toBitVec =
      (X ^ (8 * data.length) * crc32Mask + X ^ 32 * messagePolynomial (bits data)) %ₘ
        crc32Generator + crc32Mask := by
  have hregister := crc32_toBitVec data
  constructor
  · rw [hregister, BitVec.xor_allOnes]
    rfl
  · rw [hregister, reversed_xor, reversed_absorb (by decide), reversed_allOnes,
      generator_polynomialWord, length_bits]

end Hpblr
