import Mathlib.Data.Nat.Bitwise
import Mathlib.Logic.Function.Iterate
import Hpblr.Lib.LittleEndian

/-!
# Linear feedback shift registers

A register of `w` bits shifts right and adds the feedback word `P` whenever a one leaves it.
Messages enter one bit at a time at the low end, least significant bit of each byte first. The
register is linear over exclusive or, and it is reversible when the top bit of `P` is set. A
difference between two messages that fits in a window of `w` bits therefore never cancels: this
is the burst detection property of a checksum computed by such a register.
-/

namespace ShiftRegister

variable {w : ℕ}

/-! ## The register -/

/-- One clock of the register: the low bit leaves, and feeds back through `P` when it is one. -/
def shift (P c : BitVec w) : BitVec w :=
  if c.getLsbD 0 then (c >>> 1) ^^^ P else c >>> 1

/-- `n` clocks of the register. -/
def shiftN (P : BitVec w) (n : ℕ) (c : BitVec w) : BitVec w := (shift P)^[n] c

@[simp] theorem shiftN_zero (P c : BitVec w) : shiftN P 0 c = c := rfl

theorem shiftN_succ (P : BitVec w) (n : ℕ) (c : BitVec w) :
    shiftN P (n + 1) c = shiftN P n (shift P c) := rfl

/-- Consecutive clocks add up. -/
theorem shiftN_add (P : BitVec w) (m n : ℕ) (c : BitVec w) :
    shiftN P (m + n) c = shiftN P m (shiftN P n c) :=
  Function.iterate_add_apply (shift P) m n c

/-- The register is linear: a clock of a sum is the sum of the clocks. -/
theorem shift_xor (P a b : BitVec w) : shift P (a ^^^ b) = shift P a ^^^ shift P b := by
  unfold shift
  rw [BitVec.getLsbD_xor, BitVec.ushiftRight_xor_distrib]
  cases a.getLsbD 0 <;> cases b.getLsbD 0
  · rfl
  · exact BitVec.xor_assoc ..
  · simp only [Bool.xor_false, if_true, Bool.false_eq_true, if_false]
    rw [BitVec.xor_assoc, BitVec.xor_assoc, BitVec.xor_comm P]
  · simp only [Bool.xor_self, Bool.false_eq_true, if_false, if_true]
    rw [BitVec.xor_assoc, BitVec.xor_comm P, BitVec.xor_assoc, BitVec.xor_self, BitVec.xor_zero]

theorem shiftN_xor (P : BitVec w) (n : ℕ) (a b : BitVec w) :
    shiftN P n (a ^^^ b) = shiftN P n a ^^^ shiftN P n b := by
  induction n generalizing a b with
  | zero => rfl
  | succ n ih => rw [shiftN_succ, shift_xor, ih, ← shiftN_succ, ← shiftN_succ]

@[simp] theorem shift_zero (P : BitVec w) : shift P 0#w = 0#w := by
  simp [shift]

@[simp] theorem shiftN_zero_right (P : BitVec w) (n : ℕ) : shiftN P n 0#w = 0#w := by
  induction n with
  | zero => rfl
  | succ n ih => rw [shiftN_succ, shift_zero, ih]

/-- A register whose `n` low bits are clear only moves down during `n` clocks. -/
theorem shiftN_of_low_clear (P : BitVec w) {n : ℕ} {c : BitVec w}
    (h : ∀ i < n, c.getLsbD i = false) : shiftN P n c = c >>> n := by
  induction n with
  | zero => simp
  | succ n ih =>
    have hlow : (c >>> n).getLsbD 0 = false := by simpa using h n (Nat.lt_succ_self n)
    rw [Nat.add_comm, shiftN_add, ih (fun i hi => h i (by omega)), Nat.add_comm,
      BitVec.shiftRight_add]
    simp [shiftN_succ, shift, hlow]

/-- With the top bit of `P` set, only the zero register is clocked to zero. -/
theorem shift_eq_zero {P c : BitVec w} (hP : P.msb = true) (h : shift P c = 0#w) : c = 0#w := by
  have hw : 0 < w := by
    rcases Nat.eq_zero_or_pos w with rfl | hw
    · simp [BitVec.msb] at hP
    · exact hw
  have htop : P.getLsbD (w - 1) = true := by rwa [BitVec.msb_eq_getLsbD_last] at hP
  have hshift : (c >>> 1).getLsbD (w - 1) = false := by
    rw [BitVec.getLsbD_ushiftRight]
    exact BitVec.getLsbD_of_ge _ _ (by omega)
  unfold shift at h
  by_cases hlow : c.getLsbD 0 = true
  · rw [if_pos hlow] at h
    have hbit := congrArg (fun x => x.getLsbD (w - 1)) h
    simp [hshift, htop] at hbit
  · rw [if_neg hlow] at h
    apply BitVec.eq_of_getLsbD_eq
    intro i hi
    cases i with
    | zero => simpa using hlow
    | succ i =>
      have hbit := congrArg (fun x => x.getLsbD i) h
      simpa [Nat.add_comm] using hbit

/-- With the top bit of `P` set, the clock is injective. -/
theorem shiftN_injective {P : BitVec w} (hP : P.msb = true) (n : ℕ) :
    Function.Injective (shiftN P n) := by
  apply Function.Injective.iterate
  intro a b h
  have hzero : shift P (a ^^^ b) = 0#w := by rw [shift_xor, h, BitVec.xor_self]
  exact BitVec.xor_eq_zero_iff.mp (shift_eq_zero hP hzero)

/-! ## Messages as bits -/

/-- The eight bits of a byte, least significant first. -/
def byteBits (b : UInt8) : List Bool := (List.range 8).map (fun i => b.toNat.testBit i)

/-- The bits of a byte string in transmission order. -/
def bits (bs : List UInt8) : List Bool := bs.flatMap byteBits

@[simp] theorem length_byteBits (b : UInt8) : (byteBits b).length = 8 := by simp [byteBits]

@[simp] theorem bits_nil : bits [] = [] := rfl

@[simp] theorem bits_cons (b : UInt8) (bs : List UInt8) : bits (b :: bs) = byteBits b ++ bits bs :=
  rfl

@[simp] theorem bits_append (as bs : List UInt8) : bits (as ++ bs) = bits as ++ bits bs :=
  List.flatMap_append

@[simp] theorem length_bits (bs : List UInt8) : (bits bs).length = 8 * bs.length := by
  induction bs with
  | nil => rfl
  | cons b bs ih => rw [bits_cons, List.length_append, ih, length_byteBits, List.length_cons]; ring

/-- Bit `i` of a byte string is a bit of the number that the string writes. -/
theorem testBit_value (bs : List UInt8) (i : ℕ) :
    (LittleEndian.value bs).testBit i = (bits bs).getD i false := by
  induction bs generalizing i with
  | nil => simp [LittleEndian.value]
  | cons b bs ih =>
    have hb : b.toNat < 2 ^ 8 := b.toNat_lt
    have hsplit : LittleEndian.value (b :: bs) = 2 ^ 8 * LittleEndian.value bs + b.toNat := by
      rw [LittleEndian.value, Nat.add_comm, show (2 : ℕ) ^ 8 = 256 from rfl]
    rw [hsplit, Nat.testBit_two_pow_mul_add _ hb, bits_cons, ih]
    by_cases hi : i < 8
    · rw [if_pos hi, List.getD_append _ _ _ _ (by simpa using hi)]
      simp [byteBits, hi]
    · rw [if_neg hi, List.getD_append_right _ _ _ _ (by simpa using hi), length_byteBits]

/-- A byte string is determined by its bits. -/
theorem bits_injective {as bs : List UInt8} (h : bits as = bits bs) : as = bs := by
  have hlen : as.length = bs.length := by
    have := congrArg List.length h
    simp only [length_bits] at this
    omega
  have hvalue : LittleEndian.value as = LittleEndian.value bs := by
    apply Nat.eq_of_testBit_eq
    intro i
    rw [testBit_value, testBit_value, h]
  rw [← LittleEndian.bytes_value as, ← LittleEndian.bytes_value bs, hlen, hvalue]

/-- A single bit at the low end of the register. -/
def bit (w : ℕ) (b : Bool) : BitVec w := (BitVec.ofBool b).setWidth w

theorem getLsbD_bit {i : ℕ} (hi : i < w) (b : Bool) :
    (bit w b).getLsbD i = (decide (i = 0) && b) := by
  cases i with
  | zero => simp [bit, hi]
  | succ i => simp [bit]

/-- The register word with the given low bits. -/
def word (w : ℕ) : List Bool → BitVec w
  | [] => 0#w
  | b :: bs => bit w b ^^^ (word w bs <<< 1)

theorem getLsbD_word {i : ℕ} (hi : i < w) (bs : List Bool) :
    (word w bs).getLsbD i = bs.getD i false := by
  induction bs generalizing i with
  | nil => simp [word]
  | cons b bs ih =>
    rw [word, BitVec.getLsbD_xor, getLsbD_bit hi]
    cases i with
    | zero => simp
    | succ i =>
      have hlow := ih (show i < w by omega)
      rw [BitVec.getLsbD_shiftLeft, Nat.add_sub_cancel, hlow]
      simp [hi]

/-- Words of at most `w` bits determine the bits. -/
theorem word_injective {xs ys : List Bool} (hlen : xs.length = ys.length) (hw : xs.length ≤ w)
    (h : word w xs = word w ys) : xs = ys := by
  apply List.ext_getElem hlen
  intro i hx hy
  have hbit := congrArg (fun c => c.getLsbD i) h
  simp only [getLsbD_word (show i < w by omega)] at hbit
  rwa [List.getD_eq_getElem _ _ hx, List.getD_eq_getElem _ _ hy] at hbit

/-- The register word of a byte string is the number the string writes. -/
theorem word_bits (w : ℕ) (bs : List UInt8) :
    word w (bits bs) = BitVec.ofNat w (LittleEndian.value bs) := by
  apply BitVec.eq_of_getLsbD_eq
  intro i hi
  rw [getLsbD_word hi, ← testBit_value, BitVec.getLsbD_ofNat]
  simp [hi]

/-! ## Feeding a message -/

/-- One message bit enters the register. -/
def feed (P c : BitVec w) (b : Bool) : BitVec w := shift P (c ^^^ bit w b)

/-- A whole message enters the register. -/
def absorb (P c : BitVec w) (bs : List Bool) : BitVec w := bs.foldl (feed P) c

@[simp] theorem absorb_nil (P c : BitVec w) : absorb P c [] = c := rfl

theorem absorb_cons (P c : BitVec w) (b : Bool) (bs : List Bool) :
    absorb P c (b :: bs) = absorb P (shift P (c ^^^ bit w b)) bs := rfl

theorem absorb_append (P c : BitVec w) (xs ys : List Bool) :
    absorb P c (xs ++ ys) = absorb P (absorb P c xs) ys :=
  List.foldl_append

/-- A message no longer than the register may enter all at once before the clocks: its later
bits reach the low end just when they would have been fed. -/
theorem absorb_eq_shiftN (P c : BitVec w) {bs : List Bool} (h : bs.length ≤ w) :
    absorb P c bs = shiftN P bs.length (c ^^^ word w bs) := by
  induction bs generalizing c with
  | nil => simp [word]
  | cons b bs ih =>
    have hlen : bs.length + 1 ≤ w := by simpa using h
    have hback : shift P (word w bs <<< 1) = word w bs := by
      have hlow : (word w bs <<< 1).getLsbD 0 = false := by simp
      unfold shift
      rw [hlow, if_neg Bool.false_ne_true]
      apply BitVec.eq_of_getLsbD_eq
      intro i hi
      rw [BitVec.getLsbD_ushiftRight, BitVec.getLsbD_shiftLeft]
      by_cases htop : 1 + i < w
      · simp [htop]
      · rw [getLsbD_word hi, List.getD_eq_default _ _ (by omega)]
        simp [htop]
    rw [absorb_cons, ih _ (by omega), List.length_cons, shiftN_succ, word, ← BitVec.xor_assoc,
      shift_xor P (c ^^^ bit w b), hback]

/-- The same message keeps the difference of two registers moving as a free register would. -/
theorem absorb_xor_absorb (P c d : BitVec w) (bs : List Bool) :
    absorb P c bs ^^^ absorb P d bs = shiftN P bs.length (c ^^^ d) := by
  induction bs generalizing c d with
  | nil => rfl
  | cons b bs ih =>
    have hsum : (c ^^^ bit w b) ^^^ (d ^^^ bit w b) = c ^^^ d := by
      rw [BitVec.xor_comm d, BitVec.xor_assoc, ← BitVec.xor_assoc (bit w b), BitVec.xor_self,
        BitVec.zero_xor]
    rw [absorb_cons, absorb_cons, ih, ← shift_xor, hsum, List.length_cons, shiftN_succ]

/-- With the top bit of `P` set, different registers stay different under the same message. -/
theorem absorb_left_injective {P : BitVec w} (hP : P.msb = true) (bs : List Bool) {c d : BitVec w}
    (h : absorb P c bs = absorb P d bs) : c = d := by
  apply BitVec.xor_eq_zero_iff.mp
  apply shiftN_injective hP bs.length
  rw [← absorb_xor_absorb, h, BitVec.xor_self, shiftN_zero_right]

/-! ## Burst detection -/

/-- Two messages that differ only among their first `w` bits leave different registers. -/
private theorem eq_of_absorb_eq_of_head {P : BitVec w} (hP : P.msb = true) (c : BitVec w)
    {xs ys : List Bool} (hlen : xs.length = ys.length)
    (hdiff : ∀ i, xs[i]? ≠ ys[i]? → i < w) (h : absorb P c xs = absorb P c ys) : xs = ys := by
  have htail : xs.drop w = ys.drop w := by
    apply List.ext_getElem?
    intro i
    rw [List.getElem?_drop, List.getElem?_drop]
    by_contra hne
    have := hdiff _ hne
    omega
  have hhead : xs.take w = ys.take w := by
    rw [← List.take_append_drop w xs, ← List.take_append_drop w ys, htail, absorb_append,
      absorb_append] at h
    have hstate := absorb_left_injective hP _ h
    have hlens : (xs.take w).length = (ys.take w).length := by simp [hlen]
    have hle : (xs.take w).length ≤ w := by simp
    rw [absorb_eq_shiftN P c hle, absorb_eq_shiftN P c (hlens ▸ hle), ← hlens] at hstate
    exact word_injective hlens hle ((BitVec.xor_right_inj c).mp (shiftN_injective hP _ hstate))
  rw [← List.take_append_drop w xs, ← List.take_append_drop w ys, hhead, htail]

/-- **Burst detection.** Two messages of one length whose differences lie in a window of `w`
consecutive bits, wherever it is, leave different registers unless they are equal. -/
theorem eq_of_absorb_eq {P : BitVec w} (hP : P.msb = true) (c : BitVec w) {xs ys : List Bool}
    (hlen : xs.length = ys.length) {s : ℕ} (hdiff : ∀ i, xs[i]? ≠ ys[i]? → s ≤ i ∧ i < s + w)
    (h : absorb P c xs = absorb P c ys) : xs = ys := by
  induction s generalizing c xs ys with
  | zero => exact eq_of_absorb_eq_of_head hP c hlen (fun i hi => by have := hdiff i hi; omega) h
  | succ s ih =>
    cases xs with
    | nil => exact (List.length_eq_zero_iff.mp hlen.symm).symm
    | cons x xs =>
      cases ys with
      | nil => simp at hlen
      | cons y ys =>
        have hxy : x = y := by
          by_contra hne
          have := hdiff 0 (by simpa using hne)
          omega
        subst hxy
        have hlen' : xs.length = ys.length := by simpa using hlen
        have htail := ih (shift P (c ^^^ bit w x)) hlen'
          (fun i hi => by have := hdiff (i + 1) (by simpa using hi); omega) h
        rw [htail]

/-! ## Linear tests on the register -/

/-- The parity of the bits of `c` selected by `mask`. -/
def parity (mask c : BitVec w) : Bool :=
  (List.range w).foldl (fun acc i => acc ^^ (mask.getLsbD i && c.getLsbD i)) false

theorem parity_xor (mask a b : BitVec w) :
    parity mask (a ^^^ b) = (parity mask a ^^ parity mask b) := by
  have hfold (is : List ℕ) (p q : Bool) :
      is.foldl (fun acc i => acc ^^ (mask.getLsbD i && (a ^^^ b).getLsbD i)) (p ^^ q) =
        (is.foldl (fun acc i => acc ^^ (mask.getLsbD i && a.getLsbD i)) p ^^
          is.foldl (fun acc i => acc ^^ (mask.getLsbD i && b.getLsbD i)) q) := by
    induction is generalizing p q with
    | nil => rfl
    | cons i is ih =>
      have hstep : ((p ^^ q) ^^ (mask.getLsbD i && (a ^^^ b).getLsbD i)) =
          ((p ^^ (mask.getLsbD i && a.getLsbD i)) ^^ (q ^^ (mask.getLsbD i && b.getLsbD i))) := by
        rw [BitVec.getLsbD_xor]
        cases p <;> cases q <;> cases mask.getLsbD i <;> cases a.getLsbD i <;>
          cases b.getLsbD i <;> rfl
      rw [List.foldl_cons, List.foldl_cons, List.foldl_cons, hstep, ih]
  exact hfold (List.range w) false false

/-- A mask whose bits avoid the bits of the word has parity zero on it. -/
theorem parity_eq_false {mask c : BitVec w}
    (h : ∀ i < w, mask.getLsbD i = true → c.getLsbD i = false) : parity mask c = false := by
  have hfold (is : List ℕ) (his : ∀ i ∈ is, i < w) :
      is.foldl (fun acc i => acc ^^ (mask.getLsbD i && c.getLsbD i)) false = false := by
    induction is with
    | nil => rfl
    | cons i is ih =>
      have hzero : (mask.getLsbD i && c.getLsbD i) = false := by
        cases hm : mask.getLsbD i
        · rfl
        · simpa using h i (his i List.mem_cons_self) hm
      rw [List.foldl_cons, hzero]
      exact ih (fun j hj => his j (List.mem_cons_of_mem i hj))
  exact hfold _ (fun i hi => List.mem_range.mp hi)

/-- A linear test that vanishes on the unit words `i < n` vanishes on every word made of them. -/
theorem linear_eq_false_of_units {φ : BitVec w → Bool}
    (hφ : ∀ a b, φ (a ^^^ b) = (φ a ^^ φ b)) {n : ℕ} {c : BitVec w}
    (hunit : ∀ i < n, c.getLsbD i = true → φ (BitVec.twoPow w i) = false)
    (hc : ∀ i, n ≤ i → c.getLsbD i = false) : φ c = false := by
  have hzero : φ 0#w = false := by
    have := hφ 0#w 0#w
    rwa [BitVec.xor_self, Bool.xor_self] at this
  induction n generalizing c with
  | zero =>
    have : c = 0#w := by
      apply BitVec.eq_of_getLsbD_eq
      intro i _
      simpa using hc i (Nat.zero_le i)
    rw [this, hzero]
  | succ n ih =>
    cases hbit : c.getLsbD n with
    | false =>
      apply ih (fun i hi => hunit i (by omega))
      intro i hi
      rcases Nat.eq_or_lt_of_le hi with rfl | hlt
      · exact hbit
      · exact hc i hlt
    | true =>
      have hn : n < w := BitVec.lt_of_getLsbD hbit
      have hrest : φ (c ^^^ BitVec.twoPow w n) = false := by
        apply ih
        · intro i hi hci
          have hne : i ≠ n := by omega
          apply hunit i (by omega)
          simpa [BitVec.getLsbD_twoPow, hne, hne.symm] using hci
        · intro i hi
          rcases Nat.eq_or_lt_of_le hi with rfl | hlt
          · simp [hbit, hn]
          · have hne : n ≠ i := by omega
            simp [BitVec.getLsbD_twoPow, hc i hlt, hne]
      rw [hφ, hunit n (Nat.lt_succ_self n) hbit, Bool.xor_false] at hrest
      exact hrest

end ShiftRegister
