import Hpblr.Lib.ShiftRegister

/-!
# Where two byte strings differ

The positions of the bits in which two byte strings differ, numbered from the least significant
bit of the first byte. The lemmas place the flips of a part inside the whole, and read the flips
of a 32-bit field off the difference of its two values.
-/

namespace ShiftRegister

/-- Bit `i` is not the same in the two byte strings. -/
def Flips (xs ys : List UInt8) (i : ℕ) : Prop := (bits xs)[i]? ≠ (bits ys)[i]?

/-- `p` is the first flip, and all flips lie in a window of `w` bits. -/
structure Burst (w : ℕ) (xs ys : List UInt8) (p : ℕ) : Prop where
  flip : Flips xs ys p
  window : ∀ i, Flips xs ys i → p ≤ i ∧ i < p + w

theorem Flips.lt {xs ys : List UInt8} {i : ℕ} (hlen : xs.length = ys.length)
    (h : Flips xs ys i) : i < 8 * xs.length := by
  by_contra hge
  apply h
  rw [List.getElem?_eq_none (by rw [length_bits]; omega),
    List.getElem?_eq_none (by rw [length_bits]; omega)]

/-- Byte strings without a flip are equal. -/
theorem eq_of_no_flips {xs ys : List UInt8} (h : ∀ i, ¬ Flips xs ys i) : xs = ys :=
  bits_injective (List.ext_getElem? (fun i => not_not.mp (h i)))

/-- Different byte strings have a flip. -/
theorem exists_flips {xs ys : List UInt8} (h : xs ≠ ys) : ∃ i, Flips xs ys i := by
  by_contra hnone
  exact h (eq_of_no_flips (fun i hi => hnone ⟨i, hi⟩))

/-- A flip in the front part is a flip of the whole. -/
theorem Flips.append {xs ys : List UInt8} {i : ℕ} (hlen : xs.length = ys.length)
    (h : Flips xs ys i) (as bs : List UInt8) : Flips (xs ++ as) (ys ++ bs) i := by
  have hi := h.lt hlen
  unfold Flips
  rwa [bits_append, bits_append, List.getElem?_append_left (by rw [length_bits]; omega),
    List.getElem?_append_left (by rw [length_bits]; omega)]

/-- A flip in the back part is a flip of the whole, further up by the bits of the front part. -/
theorem flips_append_right {xs ys as bs : List UInt8} {i : ℕ} (hlen : xs.length = ys.length) :
    Flips (xs ++ as) (ys ++ bs) (8 * xs.length + i) ↔ Flips as bs i := by
  unfold Flips
  rw [bits_append, bits_append, List.getElem?_append_right (by rw [length_bits]; omega),
    List.getElem?_append_right (by rw [length_bits]; omega), length_bits, length_bits, hlen,
    Nat.add_sub_cancel_left]

/-- A flip of the whole is in the front part or in the back part. -/
theorem flips_append {xs ys as bs : List UInt8} {i : ℕ} (hlen : xs.length = ys.length)
    (h : Flips (xs ++ as) (ys ++ bs) i) :
    Flips xs ys i ∨ ∃ j, i = 8 * xs.length + j ∧ Flips as bs j := by
  rcases Nat.lt_or_ge i (8 * xs.length) with hlt | hge
  · left
    unfold Flips at h ⊢
    rwa [bits_append, bits_append, List.getElem?_append_left (by rwa [length_bits]),
      List.getElem?_append_left (by rw [length_bits]; omega)] at h
  · obtain ⟨j, rfl⟩ := Nat.exists_eq_add_of_le hge
    exact Or.inr ⟨j, rfl, (flips_append_right hlen).mp h⟩

/-- Behind a common front there is no flip before its end. -/
theorem le_of_flips_append {xs as bs : List UInt8} {i : ℕ} (h : Flips (xs ++ as) (xs ++ bs) i) :
    8 * xs.length ≤ i := by
  rcases flips_append rfl h with hsame | ⟨j, rfl, _⟩
  · exact absurd rfl hsame
  · omega

/-- Differences that lie within `w` bits are a burst that starts at the first of them. -/
theorem exists_burst {xs ys : List UInt8} {s w : ℕ} (hne : xs ≠ ys)
    (hwindow : ∀ i, Flips xs ys i → s ≤ i ∧ i < s + w) : ∃ p, Burst w xs ys p := by
  classical
  have hexists := exists_flips hne
  refine ⟨Nat.find hexists, Nat.find_spec hexists, fun i hi => ?_⟩
  have hfirst := Nat.find_min' hexists hi
  have hspec := hwindow _ (Nat.find_spec hexists)
  have hbound := hwindow i hi
  omega

/-- A burst that starts behind a front part leaves it alone. -/
theorem Burst.behind {w p : ℕ} {xs as ys : List UInt8} (h : Burst w (xs ++ as) ys p)
    (hlen : xs.length ≤ ys.length) (hp : 8 * xs.length ≤ p) :
    ∃ bs q, ys = xs ++ bs ∧ p = 8 * xs.length + q ∧ Burst w as bs q := by
  have hfront : (ys.take xs.length).length = xs.length := by
    rw [List.length_take]
    omega
  obtain ⟨q, rfl⟩ := Nat.exists_eq_add_of_le hp
  have hsplit := List.take_append_drop xs.length ys
  have hsame : xs = ys.take xs.length := by
    refine eq_of_no_flips (fun i hi => ?_)
    have hlt := hi.lt hfront.symm
    have hwhole := hi.append hfront.symm as (ys.drop xs.length)
    rw [hsplit] at hwhole
    have hwindow := (h.window i hwhole).1
    omega
  rw [← hsame] at hsplit
  refine ⟨ys.drop xs.length, q, hsplit.symm, rfl, ?_, fun i hi => ?_⟩
  · rw [← flips_append_right (Eq.refl xs.length), hsplit]
    exact h.flip
  · rw [← flips_append_right (Eq.refl xs.length), hsplit] at hi
    have hwindow := h.window _ hi
    omega

/-- The flips of a 32-bit field are the bits of the difference of its values. -/
theorem flips_bytes {u v : UInt32} {i : ℕ} :
    Flips (LittleEndian.bytes 4 u.toNat) (LittleEndian.bytes 4 v.toNat) i ↔
      (u.toBitVec ^^^ v.toBitVec).getLsbD i = true := by
  have hbit (x : UInt32) : (bits (LittleEndian.bytes 4 x.toNat)).getD i false =
      x.toBitVec.getLsbD i := by
    rw [← testBit_value, LittleEndian.value_bytes_of_lt x.toNat_lt]
    rfl
  have hlen (x : UInt32) : (bits (LittleEndian.bytes 4 x.toNat)).length = 32 := by simp
  rw [BitVec.getLsbD_xor, bne_iff_ne, ← hbit u, ← hbit v]
  unfold Flips
  rcases Nat.lt_or_ge i 32 with hlt | hge
  · rw [List.getD_eq_getElem _ _ (by rwa [hlen]), List.getD_eq_getElem _ _ (by rwa [hlen]),
      List.getElem?_eq_getElem (by rwa [hlen]), List.getElem?_eq_getElem (by rwa [hlen]), ne_eq,
      Option.some.injEq]
  · rw [List.getD_eq_default _ _ (by rwa [hlen]), List.getD_eq_default _ _ (by rwa [hlen]),
      List.getElem?_eq_none (by rwa [hlen]), List.getElem?_eq_none (by rwa [hlen])]
    simp

/-! ## Two flips -/

/-- At most two of the `n` bits from `start` on are flipped. -/
def TwoFlips (xs ys : List UInt8) (start n : ℕ) : Prop :=
  ∃ p q, ∀ i < n, Flips xs ys (start + i) → i = p ∨ i = q

theorem twoFlips_append_right {xs ys as bs : List UInt8} {start n : ℕ}
    (hlen : xs.length = ys.length) :
    TwoFlips (xs ++ as) (ys ++ bs) (8 * xs.length + start) n ↔ TwoFlips as bs start n := by
  unfold TwoFlips
  simp only [Nat.add_assoc, flips_append_right hlen]

end ShiftRegister
