import Mathlib.Data.List.Lex
import Mathlib.Order.Lattice
import Mathlib.Algebra.Ring.Nat

/-!
# Numbers of a fixed width

Words that write numbers with a fixed number of digits. The order of such words, and of words that are
put together from them, is the order of the numbers.
-/

namespace FixedWidth

variable {α : Type*} [LinearOrder α]

/-- The last `width` digits of a number. -/
def word (digit : ℕ → α) (base : ℕ) : ℕ → ℕ → List α
  | 0, _ => []
  | width + 1, n => word digit base width (n / base) ++ [digit (n % base)]

omit [LinearOrder α] in
@[simp] theorem length_word (digit : ℕ → α) (base width n : ℕ) :
    (word digit base width n).length = width := by
  induction width generalizing n with
  | zero => rfl
  | succ width ih => simp [word, ih]

/-- Words that begin with words of the same length are ordered by these first. -/
theorem append_lt_append_iff {a b x y : List α} (h : a.length = b.length) :
    a ++ x < b ++ y ↔ a < b ∨ a = b ∧ x < y := by
  induction a generalizing b with
  | nil =>
    obtain rfl : b = [] := List.eq_nil_of_length_eq_zero h.symm
    simp
  | cons c a ih =>
    cases b with
    | nil => simp at h
    | cons d b =>
      have hlength : a.length = b.length := by simpa using h
      rw [List.cons_append, List.cons_append, List.cons_lt_cons_iff, List.cons_lt_cons_iff,
        ih hlength, List.cons.injEq]
      tauto

/-- Digits in the order of their values. -/
def Increasing (digit : ℕ → α) (base : ℕ) : Prop := ∀ a b, a < b → b < base → digit a < digit b

theorem Increasing.lt_iff {digit : ℕ → α} {base a b : ℕ} (h : Increasing digit base)
    (ha : a < base) (hb : b < base) : digit a < digit b ↔ a < b := by
  constructor
  · intro hlt
    by_contra hle
    rcases Nat.lt_or_eq_of_le (Nat.le_of_not_lt hle) with hba | rfl
    · exact lt_asymm hlt (h b a hba ha)
    · exact lt_irrefl _ hlt
  · exact fun hlt => h a b hlt hb

/-- Different numbers of the width have different words. -/
theorem word_eq_iff {digit : ℕ → α} {base : ℕ} (h : Increasing digit base) {width a b : ℕ}
    (ha : a < base ^ width) (hb : b < base ^ width) :
    word digit base width a = word digit base width b ↔ a = b := by
  refine ⟨fun heq => ?_, fun heq => by rw [heq]⟩
  induction width generalizing a b with
  | zero =>
    rw [pow_zero] at ha hb
    omega
  | succ width ih =>
    have hbase : 0 < base := by
      rcases Nat.eq_zero_or_pos base with rfl | hpos
      · simp at ha
      · exact hpos
    rw [pow_succ'] at ha hb
    obtain ⟨hfront, hlast⟩ := List.append_inj' heq rfl
    have hdiv := ih (Nat.div_lt_of_lt_mul ha) (Nat.div_lt_of_lt_mul hb) hfront
    have hmod : a % base = b % base := by
      have hdigit : digit (a % base) = digit (b % base) := by simpa using hlast
      rcases Nat.lt_trichotomy (a % base) (b % base) with hlt | heq | hlt
      · exact absurd hdigit (h _ _ hlt (Nat.mod_lt b hbase)).ne
      · exact heq
      · exact absurd hdigit (h _ _ hlt (Nat.mod_lt a hbase)).ne'
    rw [← Nat.div_add_mod a base, ← Nat.div_add_mod b base, hdiv, hmod]

/-- The order of words is the order of the numbers. -/
theorem word_lt_iff {digit : ℕ → α} {base : ℕ} (h : Increasing digit base) {width a b : ℕ}
    (ha : a < base ^ width) (hb : b < base ^ width) :
    word digit base width a < word digit base width b ↔ a < b := by
  induction width generalizing a b with
  | zero =>
    rw [pow_zero] at ha hb
    simp only [word, List.not_lt_nil, false_iff]
    omega
  | succ width ih =>
    have hbase : 0 < base := by
      rcases Nat.eq_zero_or_pos base with rfl | hpos
      · simp at ha
      · exact hpos
    rw [pow_succ'] at ha hb
    have hda := Nat.div_lt_of_lt_mul ha
    have hdb := Nat.div_lt_of_lt_mul hb
    rw [word, word, append_lt_append_iff (by simp), ih hda hdb, word_eq_iff h hda hdb,
      List.cons_lt_cons_iff, h.lt_iff (Nat.mod_lt a hbase) (Nat.mod_lt b hbase)]
    simp only [List.not_lt_nil, and_false, or_false]
    have ha' := Nat.div_add_mod a base
    have hb' := Nat.div_add_mod b base
    constructor
    · rintro (hlt | ⟨heq, hlt⟩)
      · by_contra hle
        exact absurd (Nat.div_le_div_right (c := base) (Nat.le_of_not_lt hle)) (by omega)
      · rw [heq] at ha'
        omega
    · intro hlt
      rcases Nat.lt_or_eq_of_le (Nat.div_le_div_right (c := base) hlt.le) with hdiv | hdiv
      · exact Or.inl hdiv
      · refine Or.inr ⟨hdiv, ?_⟩
        rw [hdiv] at ha'
        omega

end FixedWidth
