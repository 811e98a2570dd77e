import Mathlib.Tactic.NormNum.Prime
import Hpblr.Lib.Period
import Hpblr.Crc32

/-!
# Two flipped bits under the checksum

The register of the checksum runs through all 4294967295 words but zero before it comes back, so the
checksum detects two flipped bits anywhere in a message of less than half a gigabyte.
-/

namespace Hpblr

open ShiftRegister

/-! ## The period of the feedback word -/

/-- The word after `n` clocks from the word of one message bit. -/
def clocks (n : ℕ) : BitVec 32 :=
  jump polynomialWord 32 n (shift polynomialWord (top 32)) (bit 32 true)

theorem clocks_eq {n : ℕ} (hn : n < 2 ^ 32) :
    clocks n = (shift polynomialWord)^[n] (bit 32 true) :=
  (shiftN_eq_jump (by decide) polynomialWord hn _).symm

theorem clocks_period : clocks 4294967295 = bit 32 true := by decide +kernel

/-- The primes of the period, and no quotient by one of them is a period. -/
theorem clocks_quotient : ∀ q ∈ [3, 5, 17, 257, 65537], clocks (4294967295 / q) ≠ bit 32 true := by
  decide +kernel

theorem prime_of_dvd_period {q : ℕ} (hq : q.Prime) (hdvd : q ∣ 4294967295) :
    q ∈ [3, 5, 17, 257, 65537] := by
  have hfactors : 4294967295 = 3 * (5 * (17 * (257 * 65537))) := by norm_num
  have hself {p : ℕ} (hp : p.Prime) (h : q ∣ p) : q = p := (Nat.prime_dvd_prime_iff_eq hq hp).mp h
  rw [hfactors] at hdvd
  rcases hq.dvd_mul.mp hdvd with h | hdvd
  · simp [hself (by norm_num) h]
  rcases hq.dvd_mul.mp hdvd with h | hdvd
  · simp [hself (by norm_num) h]
  rcases hq.dvd_mul.mp hdvd with h | hdvd
  · simp [hself (by norm_num) h]
  rcases hq.dvd_mul.mp hdvd with h | h
  · simp [hself (by norm_num) h]
  · simp [hself (by norm_num) h]

/-- The register of the checksum has the longest period there is. -/
theorem noReturn_polynomialWord : NoReturn polynomialWord 4294967295 := by
  intro k hk hlt hreturn
  have hdvd : 4294967295 ∣ k := by
    refine dvd_of_iterate_eq ?_ (fun q hq hdvd => ?_) hreturn
    · rw [← clocks_eq (by norm_num), clocks_period]
    · have hsmall : 4294967295 / q < 2 ^ 32 :=
        (Nat.div_le_self _ _).trans_lt (by norm_num)
      rw [← clocks_eq hsmall]
      exact clocks_quotient q (prime_of_dvd_period hq hdvd)
  have hle := Nat.le_of_dvd hk hdvd
  omega

/-! ## What the checksum detects -/

section TwoFlips

variable {xs ys : List UInt8} {p q : ℕ}

/-- Two messages of one length that differ in two bits at most have different checksums. -/
theorem eq_of_crc32_eq_of_two (hlen : xs.length = ys.length) (hshort : 8 * xs.length < 2 ^ 32)
    (hdiff : ∀ i, (bits xs)[i]? ≠ (bits ys)[i]? → i = p ∨ i = q) (h : crc32 xs = crc32 ys) :
    xs = ys := by
  have hword := congrArg UInt32.toBitVec h
  rw [crc32_toBitVec, crc32_toBitVec, BitVec.xor_left_inj] at hword
  exact bits_injective (eq_of_absorb_eq_of_two polynomialWord_msb noReturn_polynomialWord _
    (by simp [hlen]) (by rw [length_bits]; omega) hdiff hword)

/-- Two messages of one length, each followed by its checksum, that differ in two bits at most are
equal: here a flip may be in the checksum. -/
theorem eq_of_sealed_of_two (hlen : xs.length = ys.length) (hshort : 8 * xs.length + 32 < 2 ^ 32)
    (hdiff : ∀ i, (bits (xs ++ LittleEndian.bytes 4 (crc32 xs).toNat))[i]? ≠
      (bits (ys ++ LittleEndian.bytes 4 (crc32 ys).toNat))[i]? → i = p ∨ i = q) :
    xs = ys := by
  have hregister := (absorb_sealed xs).trans (absorb_sealed ys).symm
  have hbits := eq_of_absorb_eq_of_two polynomialWord_msb noReturn_polynomialWord _
    (by simp [hlen]) (by rw [length_bits, List.length_append, LittleEndian.length_bytes]; omega)
    hdiff hregister
  exact (List.append_inj (bits_injective hbits) hlen).1

end TwoFlips

end Hpblr
