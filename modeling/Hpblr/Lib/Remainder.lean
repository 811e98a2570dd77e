import Mathlib
import Hpblr.Lib.ShiftRegister

/-!
# Shift registers and division over GF(2)

The bits of a message, in transmission order, are the coefficients of a polynomial over GF(2) from
the highest power down. The register reads its bits in the same order: its low bit belongs to the
highest power. One clock then multiplies by `X` modulo the generator, the polynomial of the feedback
word with `X ^ w` added. So a register that has absorbed a message holds a remainder.
-/

namespace ShiftRegister

open Polynomial

variable {w : ℕ}

/-! ## Words and messages as polynomials -/

/-- The coefficient of a bit. -/
def coefficient (b : Bool) : ZMod 2 := if b then 1 else 0

theorem coefficient_xor (a b : Bool) : coefficient (a ^^ b) = coefficient a + coefficient b := by
  revert a b
  decide

/-- The polynomial of a message: the first bit belongs to the highest power. -/
noncomputable def messagePolynomial : List Bool → Polynomial (ZMod 2)
  | [] => 0
  | b :: bs => monomial bs.length (coefficient b) + messagePolynomial bs

/-- The polynomial of a word, with its bits reversed: bit `i` belongs to the power `w - 1 - i`. -/
noncomputable def reversed (c : BitVec w) : Polynomial (ZMod 2) :=
  ∑ j ∈ Finset.range w, monomial j (coefficient (c.getLsbD (w - 1 - j)))

theorem coeff_reversed (c : BitVec w) (j : ℕ) :
    (reversed c).coeff j = coefficient (decide (j < w) && c.getLsbD (w - 1 - j)) := by
  simp only [reversed, finsetSum_coeff, coeff_monomial, Finset.sum_ite_eq', Finset.mem_range]
  by_cases hj : j < w
  · simp [hj]
  · simp [hj, coefficient]

theorem reversed_xor (a b : BitVec w) : reversed (a ^^^ b) = reversed a + reversed b := by
  ext j
  rw [coeff_add, coeff_reversed, coeff_reversed, coeff_reversed, ← coefficient_xor,
    BitVec.getLsbD_xor, Bool.and_xor_distrib_left]

theorem degree_reversed_lt (c : BitVec w) : (reversed c).degree < w := by
  rw [degree_lt_iff_coeff_zero]
  intro j hj
  rw [coeff_reversed]
  simp [Nat.not_lt.mpr hj, coefficient]

/-- The polynomial by which a register with feedback word `P` divides. -/
noncomputable def generator (P : BitVec w) : Polynomial (ZMod 2) := X ^ w + reversed P

theorem generator_monic (P : BitVec w) : (generator P).Monic :=
  monic_X_pow_add (degree_reversed_lt P)

theorem degree_generator (P : BitVec w) : (generator P).degree = w := by
  rw [generator, degree_add_eq_left_of_degree_lt] <;> rw [degree_X_pow]
  exact degree_reversed_lt P

/-! ## Clocks multiply by `X` -/

/-- A word that moves down by one has lost its highest power and gained a factor `X`. -/
theorem X_mul_reversed (hw : 0 < w) (c : BitVec w) :
    X * reversed c = monomial w (coefficient (c.getLsbD 0)) + reversed (c >>> 1) := by
  ext j
  rw [coeff_add, coeff_monomial, coeff_reversed]
  cases j with
  | zero =>
    rw [coeff_X_mul_zero]
    have hhigh : (c >>> 1).getLsbD (w - 1 - 0) = false := by
      rw [BitVec.getLsbD_ushiftRight]
      exact BitVec.getLsbD_of_ge _ _ (by omega)
    rw [hhigh]
    simp [coefficient]
    omega
  | succ j =>
    rw [coeff_X_mul, coeff_reversed, BitVec.getLsbD_ushiftRight]
    rcases Nat.lt_trichotomy (j + 1) w with hlt | rfl | hgt
    · rw [if_neg (by omega), zero_add]
      simp [hlt, show j < w by omega, show 1 + (w - 1 - (j + 1)) = w - 1 - j by omega]
    · simp [coefficient]
    · rw [if_neg (by omega), zero_add]
      simp [show ¬ j < w by omega, show ¬ j + 1 < w by omega]

/-- A clock multiplies by `X`, up to a multiple of the generator. -/
theorem reversed_shift (hw : 0 < w) (P c : BitVec w) :
    reversed (shift P c) + generator P * C (coefficient (c.getLsbD 0)) = X * reversed c := by
  rw [X_mul_reversed hw, shift, generator]
  cases hlow : c.getLsbD 0 with
  | false => simp [coefficient]
  | true =>
    have hcancel : reversed P + reversed P = 0 := CharTwo.add_self_eq_zero (reversed P)
    rw [if_pos rfl, reversed_xor, coefficient, if_pos rfl, map_one, mul_one,
      ← C_mul_X_pow_eq_monomial, map_one, one_mul]
    linear_combination hcancel

/-- A message bit enters at the highest power. -/
theorem reversed_bit (hw : 0 < w) (b : Bool) :
    reversed (bit w b) = monomial (w - 1) (coefficient b) := by
  ext j
  rw [coeff_reversed, coeff_monomial]
  by_cases hj : j < w
  · rw [getLsbD_bit (by omega)]
    by_cases htop : w - 1 = j
    · simp [hj, htop]
    · rw [if_neg htop]
      have hlow : ¬ w - 1 - j = 0 := by omega
      simp [hlow, coefficient]
  · rw [if_neg (by omega)]
    simp [hj, coefficient]

/-! ## The remainder -/

/-- What a register holds after a message, up to a multiple of the generator. -/
theorem exists_reversed_absorb (hw : 0 < w) (P c : BitVec w) (bs : List Bool) :
    ∃ q, reversed (absorb P c bs) + generator P * q =
      X ^ bs.length * reversed c + X ^ w * messagePolynomial bs := by
  induction bs generalizing c with
  | nil => exact ⟨0, by simp [messagePolynomial]⟩
  | cons b bs ih =>
    obtain ⟨q, hq⟩ := ih (shift P (c ^^^ bit w b))
    have hclock := reversed_shift hw P (c ^^^ bit w b)
    have hbit : X * monomial (w - 1) (coefficient b) = C (coefficient b) * X ^ w := by
      rw [X_mul_monomial, Nat.sub_add_cancel hw, C_mul_X_pow_eq_monomial]
    rw [reversed_xor, reversed_bit hw, mul_add, hbit] at hclock
    rw [absorb_cons, List.length_cons, messagePolynomial, ← C_mul_X_pow_eq_monomial]
    refine ⟨q + X ^ bs.length * C (coefficient ((c ^^^ bit w b).getLsbD 0)), ?_⟩
    linear_combination hq + X ^ bs.length * hclock

/-- **The register divides.** After a message the register holds, with its bits reversed, the
remainder of the message polynomial moved up by the width of the register, with the initial word
added to its front. -/
theorem reversed_absorb (hw : 0 < w) (P c : BitVec w) (bs : List Bool) :
    reversed (absorb P c bs) =
      (X ^ bs.length * reversed c + X ^ w * messagePolynomial bs) %ₘ generator P := by
  obtain ⟨q, hq⟩ := exists_reversed_absorb hw P c bs
  have hdegree : (reversed (absorb P c bs)).degree < (generator P).degree := by
    rw [degree_generator]
    exact degree_reversed_lt _
  exact (div_modByMonic_unique q _ (generator_monic P) ⟨hq, hdegree⟩).2.symm

end ShiftRegister
