import Mathlib.Dynamics.PeriodicPts.Defs
import Mathlib.Data.Nat.Prime.Basic
import Hpblr.Lib.ShiftRegister

/-!
# The period of a shift register

A register with feedback comes back to a word after a number of clocks, its period. Two flipped bits
of a message that are less than a period apart never cancel, so a checksum computed by the register
detects them. The period is far too long to be counted clock by clock. Since a clock is a
multiplication, the word that the register reaches from its top bit says how to jump ahead by as
many clocks, and jumps of doubled length are found by squaring.
-/

namespace ShiftRegister

variable {w : ℕ}

/-! ## Jumping ahead -/

/-- The word `v` as a sum of clocks: bit `i` below `n` stands for `n - 1 - i` clocks. -/
def act (P v : BitVec w) : ℕ → BitVec w → BitVec w
  | 0, _ => 0#w
  | n + 1, x => (if v.getLsbD n then x else 0#w) ^^^ act P v n (shift P x)

theorem act_xor (P v : BitVec w) (n : ℕ) (a b : BitVec w) :
    act P v n (a ^^^ b) = act P v n a ^^^ act P v n b := by
  have hswap (p q r s : BitVec w) : (p ^^^ q) ^^^ (r ^^^ s) = (p ^^^ r) ^^^ (q ^^^ s) := by
    rw [BitVec.xor_assoc, ← BitVec.xor_assoc q, BitVec.xor_comm q, BitVec.xor_assoc r,
      ← BitVec.xor_assoc]
  induction n generalizing a b with
  | zero => simp [act]
  | succ n ih =>
    rw [act, act, act, shift_xor, ih]
    split
    · exact hswap ..
    · rw [BitVec.zero_xor, BitVec.zero_xor, BitVec.zero_xor]

theorem act_shift (P v : BitVec w) (n : ℕ) (x : BitVec w) :
    act P v n (shift P x) = shift P (act P v n x) := by
  induction n generalizing x with
  | zero => simp [act]
  | succ n ih =>
    rw [act, act, shift_xor, ih]
    split
    · rfl
    · rw [shift_zero]

theorem act_shiftN (P v : BitVec w) (n m : ℕ) (x : BitVec w) :
    act P v n (shiftN P m x) = shiftN P m (act P v n x) := by
  induction m generalizing x with
  | zero => rfl
  | succ m ih => rw [shiftN_succ, ih, act_shift, ← shiftN_succ]

/-- A single bit moves down. -/
theorem shiftN_twoPow (P : BitVec w) {j n : ℕ} (hj : j ≤ n) (hn : n < w) :
    shiftN P j (BitVec.twoPow w n) = BitVec.twoPow w (n - j) := by
  have hclear (i : ℕ) (hi : i < j) : (BitVec.twoPow w n).getLsbD i = false := by
    rw [BitVec.getLsbD_twoPow]
    simp [show n ≠ i by omega]
  rw [shiftN_of_low_clear P hclear]
  apply BitVec.eq_of_getLsbD_eq
  intro i hi
  rw [BitVec.getLsbD_ushiftRight, BitVec.getLsbD_twoPow, BitVec.getLsbD_twoPow]
  by_cases heq : n - j = i
  · have hsum : n = j + i := by omega
    simp [hsum, show j + i < w by omega, hi]
  · have hne : n ≠ j + i := by omega
    simp [hne, heq]

/-- A word sends the top bit to itself. -/
private theorem getLsbD_act (P v : BitVec w) {n i : ℕ} (hn : n < w) :
    (act P v (n + 1) (BitVec.twoPow w n)).getLsbD i = (decide (i ≤ n) && v.getLsbD i) := by
  induction n with
  | zero =>
    rw [act, act, BitVec.xor_zero]
    by_cases hi : i = 0
    · subst hi
      cases hbit : v.getLsbD 0 <;> simp [hn]
    · have hne : ¬ 0 = i := Ne.symm hi
      cases hbit : v.getLsbD 0 <;> simp [BitVec.getLsbD_twoPow, hi, hne]
  | succ n ih =>
    have hdown : shift P (BitVec.twoPow w (n + 1)) = BitVec.twoPow w n :=
      shiftN_twoPow P (j := 1) (by omega) hn
    rw [act, hdown, BitVec.getLsbD_xor, ih (by omega)]
    by_cases hi : i = n + 1
    · subst hi
      cases hbit : v.getLsbD (n + 1) <;> simp [hn]
    · have hne : ¬ n + 1 = i := Ne.symm hi
      have hle : i ≤ n + 1 ↔ i ≤ n := by omega
      cases hbit : v.getLsbD (n + 1) <;> simp [BitVec.getLsbD_twoPow, hne, hle]

/-- The word with the top bit alone. -/
def top (w : ℕ) : BitVec w := BitVec.twoPow w (w - 1)

theorem act_top (hw : 0 < w) (P v : BitVec w) : act P v w (top w) = v := by
  cases w with
  | zero => omega
  | succ n =>
    apply BitVec.eq_of_getLsbD_eq
    intro i hi
    have hle : i ≤ n := by omega
    rw [top, Nat.add_sub_cancel, getLsbD_act P v (by omega), decide_eq_true hle, Bool.true_and]

/-- **Jumping ahead.** The word that the register reaches from the top bit says how to get as far
from any other word. -/
theorem shiftN_eq_act (hw : 0 < w) (P : BitVec w) (m : ℕ) (x : BitVec w) :
    shiftN P m x = act P (shiftN P m (top w)) w x := by
  apply BitVec.eq_of_getLsbD_eq
  intro i _
  let difference (c : BitVec w) : Bool :=
    (shiftN P m c ^^^ act P (shiftN P m (top w)) w c).getLsbD i
  have hlinear (a b : BitVec w) : difference (a ^^^ b) = (difference a ^^ difference b) := by
    simp only [difference, shiftN_xor, act_xor, BitVec.getLsbD_xor]
    cases (shiftN P m a).getLsbD i <;> cases (shiftN P m b).getLsbD i <;>
      cases (act P (shiftN P m (top w)) w a).getLsbD i <;>
      cases (act P (shiftN P m (top w)) w b).getLsbD i <;> rfl
  -- Every single bit is reached from the top bit, and clocks commute.
  have hunit (j : ℕ) (hj : j < w) : difference (BitVec.twoPow w j) = false := by
    have hreach : BitVec.twoPow w j = shiftN P (w - 1 - j) (top w) := by
      rw [top, shiftN_twoPow P (by omega) (by omega)]
      congr 1
      omega
    have hcommute : shiftN P m (shiftN P (w - 1 - j) (top w)) =
        shiftN P (w - 1 - j) (shiftN P m (top w)) := by
      rw [← shiftN_add, ← shiftN_add, Nat.add_comm]
    simp only [difference]
    rw [hreach, act_shiftN, act_top hw, hcommute, BitVec.xor_self]
    simp
  have hzero : difference x = false :=
    linear_eq_false_of_units (n := w) hlinear (fun j hj _ => hunit j hj)
      (fun j hj => BitVec.getLsbD_of_ge x j hj)
  simp only [difference, BitVec.getLsbD_xor] at hzero
  simpa using hzero

/-- `n` clocks in `k` squarings, given the word `v` for the first jump. -/
def jump (P : BitVec w) : ℕ → ℕ → BitVec w → BitVec w → BitVec w
  | 0, _, _, x => x
  | k + 1, n, v, x => jump P k (n / 2) (act P v w v) (if n % 2 = 1 then act P v w x else x)

theorem jump_eq (hw : 0 < w) {P v : BitVec w} {k n m : ℕ} (hn : n < 2 ^ k)
    (hv : v = shiftN P m (top w)) (x : BitVec w) : jump P k n v x = shiftN P (m * n) x := by
  induction k generalizing n m v x with
  | zero =>
    have hzero : n = 0 := by simpa using hn
    subst hzero
    rfl
  | succ k ih =>
    have hsquare : act P v w v = shiftN P (2 * m) (top w) := by
      conv_lhs => rw [hv, ← shiftN_eq_act hw]
      rw [← shiftN_add, Nat.two_mul]
    have hhalf : n / 2 < 2 ^ k := by
      rw [pow_succ] at hn
      omega
    have hstep : (if n % 2 = 1 then act P v w x else x) = shiftN P (m * (n % 2)) x := by
      rcases Nat.mod_two_eq_zero_or_one n with heven | hodd
      · rw [heven, if_neg (by omega), Nat.mul_zero, shiftN_zero]
      · rw [hodd, if_pos rfl, Nat.mul_one, hv, ← shiftN_eq_act hw]
    have hsum : 2 * m * (n / 2) + m * (n % 2) = m * n := by
      calc 2 * m * (n / 2) + m * (n % 2) = m * (2 * (n / 2) + n % 2) := by ring
        _ = m * n := by rw [Nat.div_add_mod]
    rw [jump, ih hhalf hsquare, hstep, ← shiftN_add, hsum]

/-- `n` clocks, computed by squaring. -/
theorem shiftN_eq_jump (hw : 0 < w) (P : BitVec w) {k n : ℕ} (hn : n < 2 ^ k) (x : BitVec w) :
    shiftN P n x = jump P k n (shift P (top w)) x := by
  have hjump := jump_eq hw (m := 1) hn (v := shift P (top w)) rfl x
  rw [hjump, Nat.one_mul]

/-! ## Periods -/

/-- A number of steps that leads back, while no quotient of it by a prime does, divides every other
such number. -/
theorem dvd_of_iterate_eq {α : Type*} {f : α → α} {x : α} {N k : ℕ}
    (hperiod : f^[N] x = x) (hprimes : ∀ q, q.Prime → q ∣ N → f^[N / q] x ≠ x)
    (h : f^[k] x = x) : N ∣ k := by
  have hminimal : Function.minimalPeriod f x = N := by
    obtain ⟨c, hc⟩ : Function.minimalPeriod f x ∣ N :=
      Function.IsPeriodicPt.minimalPeriod_dvd hperiod
    by_contra hne
    have hc1 : c ≠ 1 := by
      rintro rfl
      exact hne (by rw [hc, Nat.mul_one])
    obtain ⟨q, hq, d, rfl⟩ := Nat.exists_prime_and_dvd hc1
    refine hprimes q hq ⟨Function.minimalPeriod f x * d, by rw [hc]; ring⟩ ?_
    have hquotient : N / q = Function.minimalPeriod f x * d := by
      rw [hc]
      exact Nat.div_eq_of_eq_mul_right hq.pos (by ring)
    have hdvd : Function.minimalPeriod f x ∣ N / q := ⟨d, hquotient⟩
    exact Function.isPeriodicPt_iff_minimalPeriod_dvd.mpr hdvd
  rw [← hminimal]
  exact Function.IsPeriodicPt.minimalPeriod_dvd h

/-! ## Two flipped bits -/

/-- The register does not come back to the word of one message bit in fewer than `N` clocks. -/
def NoReturn (P : BitVec w) (N : ℕ) : Prop :=
  ∀ k, 0 < k → k < N → shiftN P k (bit w true) ≠ bit w true

section TwoFlips

variable {P c d : BitVec w} {N : ℕ}

theorem bit_ne_zero (hw : 0 < w) : bit w true ≠ 0#w := by
  intro hzero
  have hbit := getLsbD_bit hw true
  rw [hzero] at hbit
  simp at hbit

/-- The two message bits differ. -/
private theorem feed_xor_feed (P c d : BitVec w) {x y : Bool} (hne : x ≠ y) :
    feed P c x ^^^ feed P d y = shift P ((c ^^^ d) ^^^ bit w true) := by
  have hbits : bit w x ^^^ bit w y = bit w true := by
    cases x <;> cases y
    · exact absurd rfl hne
    · simp [bit]
    · simp [bit]
    · exact absurd rfl hne
  have hswap : (c ^^^ bit w x) ^^^ (d ^^^ bit w y) = (c ^^^ d) ^^^ (bit w x ^^^ bit w y) := by
    rw [BitVec.xor_assoc, ← BitVec.xor_assoc (bit w x), BitVec.xor_comm (bit w x) d,
      BitVec.xor_assoc d, ← BitVec.xor_assoc]
  rw [feed, feed, ← shift_xor, hswap, hbits]

/-- After the first flip the registers differ by a word that one more flip does not cancel within
the period. -/
private theorem absorb_ne_of_flip (hP : P.msb = true) (hw : 0 < w) (hnoReturn : NoReturn P N) {k q : ℕ}
    (hk : 0 < k) {xs ys : List Bool} (hlen : xs.length = ys.length) (hN : k + xs.length ≤ N)
    (hdiff : ∀ i, xs[i]? ≠ ys[i]? → i = q) (hcd : c ^^^ d = shiftN P k (bit w true)) :
    absorb P c xs ≠ absorb P d ys := by
  have hapart (n : ℕ) : shiftN P n (bit w true) ≠ 0#w := by
    intro hzero
    rw [← shiftN_zero_right P n] at hzero
    exact bit_ne_zero hw (shiftN_injective hP n hzero)
  induction q generalizing c d k xs ys with
  | zero =>
    cases xs with
    | nil =>
      have hnil := List.length_eq_zero_iff.mp hlen.symm
      subst hnil
      intro heq
      have hsame : c = d := heq
      rw [hsame, BitVec.xor_self] at hcd
      exact hapart k hcd.symm
    | cons x xs =>
      cases ys with
      | nil => simp at hlen
      | cons y ys =>
        have htails : xs = ys := by
          apply List.ext_getElem?
          intro i
          by_contra hne
          have hzero := hdiff (i + 1) (by simpa using hne)
          omega
        subst htails
        intro heq
        have hstate := BitVec.xor_eq_zero_iff.mpr (absorb_left_injective hP xs heq)
        by_cases hxy : x = y
        · subst hxy
          have hsame : feed P c x ^^^ feed P d x = shift P (c ^^^ d) := by
            have h := absorb_xor_absorb P c d [x]
            exact h
          rw [hsame, hcd] at hstate
          exact hapart k (shift_eq_zero hP hstate)
        · rw [feed_xor_feed P c d hxy, hcd] at hstate
          have hreturn := BitVec.xor_eq_zero_iff.mp (shift_eq_zero hP hstate)
          rw [List.length_cons] at hN
          exact hnoReturn k hk (by omega) hreturn
  | succ q ih =>
    cases xs with
    | nil =>
      have hnil := List.length_eq_zero_iff.mp hlen.symm
      subst hnil
      intro heq
      have hsame : c = d := heq
      rw [hsame, BitVec.xor_self] at hcd
      exact hapart k hcd.symm
    | cons x xs =>
      cases ys with
      | nil => simp at hlen
      | cons y ys =>
        have hxy : x = y := by
          by_contra hne
          have hzero := hdiff 0 (by simpa using hne)
          omega
        subst hxy
        have hnext : feed P c x ^^^ feed P d x = shiftN P (k + 1) (bit w true) := by
          have h := absorb_xor_absorb P c d [x]
          rw [hcd] at h
          rw [Nat.add_comm, shiftN_add]
          exact h
        rw [List.length_cons] at hN
        change absorb P (feed P c x) xs ≠ absorb P (feed P d x) ys
        refine ih (k := k + 1) (by omega) (by simpa using hlen) (by omega) (fun i hi => ?_) hnext
        have hsucc := hdiff (i + 1) (by simpa using hi)
        omega

/-- **Two flipped bits are detected.** Two messages of one length, shorter than the period, that
differ in two bits at most, wherever they are, leave different registers unless they are equal. -/
theorem eq_of_absorb_eq_of_two (hP : P.msb = true) (hnoReturn : NoReturn P N) (c : BitVec w)
    {xs ys : List Bool} (hlen : xs.length = ys.length) (hN : xs.length ≤ N) {p q : ℕ}
    (hdiff : ∀ i, xs[i]? ≠ ys[i]? → i = p ∨ i = q) (h : absorb P c xs = absorb P c ys) :
    xs = ys := by
  have hw : 0 < w := by
    rcases Nat.eq_zero_or_pos w with rfl | hw
    · simp [BitVec.msb] at hP
    · exact hw
  wlog hpq : p ≤ q generalizing p q
  · exact this (fun i hi => (hdiff i hi).symm) (by omega)
  induction p generalizing c xs ys q with
  | zero =>
    cases xs with
    | nil => exact (List.length_eq_zero_iff.mp hlen.symm).symm
    | cons x xs =>
      cases ys with
      | nil => simp at hlen
      | cons y ys =>
        have htail (i : ℕ) (hi : xs[i]? ≠ ys[i]?) : i = q - 1 := by
          have hsucc := hdiff (i + 1) (by simpa using hi)
          omega
        by_cases hxy : x = y
        · subst hxy
          have hburst := eq_of_absorb_eq hP (feed P c x) (by simpa using hlen) (s := q - 1)
            (fun i hi => by have := htail i hi; omega) h
          rw [hburst]
        · exfalso
          rw [List.length_cons] at hN
          refine absorb_ne_of_flip hP hw hnoReturn (k := 1) Nat.one_pos (by simpa using hlen)
            (by omega) htail ?_ h
          rw [feed_xor_feed P c c hxy, BitVec.xor_self, BitVec.zero_xor]
          rfl
  | succ p ih =>
    cases xs with
    | nil => exact (List.length_eq_zero_iff.mp hlen.symm).symm
    | cons x xs =>
      cases ys with
      | nil => simp at hlen
      | cons y ys =>
        have hxy : x = y := by
          by_contra hne
          have hzero := hdiff 0 (by simpa using hne)
          omega
        subst hxy
        rw [List.length_cons] at hN
        have htail (i : ℕ) (hi : xs[i]? ≠ ys[i]?) : i = p ∨ i = q - 1 := by
          have hsucc := hdiff (i + 1) (by simpa using hi)
          omega
        have hrest : xs = ys :=
          ih (feed P c x) (by simpa using hlen) (by omega) h htail (by omega)
        rw [hrest]

end TwoFlips

end ShiftRegister
