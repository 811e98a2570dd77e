import Mathlib.Tactic.Positivity
import Hpblr.Lib.LittleEndian

/-!
# Integer fields of the log format

The byte loops of `binary_log.cpp` that append, patch and read unsigned integers, and their
meaning in terms of little-endian byte strings.
-/

namespace Hpblr

open LittleEndian

/-! ## Cutting byte strings -/

theorem drop_append_ge {α : Type*} {front : List α} {n : ℕ} (h : front.length ≤ n)
    (back : List α) : (front ++ back).drop n = back.drop (n - front.length) := by
  rw [List.drop_append, List.drop_eq_nil_of_le h, List.nil_append]

theorem exists_append {α : Type*} {l : List α} {m n : ℕ} (h : l.length = m + n) :
    ∃ a b, l = a ++ b ∧ a.length = m ∧ b.length = n :=
  ⟨l.take m, l.drop m, (List.take_append_drop m l).symm, by simp [h], by simp [h]⟩

/-! ## Appending -/

def appendU16 (out : List UInt8) (value : UInt16) : List UInt8 :=
  out ++ [(value &&& 0xFF).toUInt8] ++ [((value >>> 8) &&& 0xFF).toUInt8]

def appendU32 (out : List UInt8) (value : UInt32) : List UInt8 :=
  (List.range 4).foldl
    (fun out i => out ++ [((value >>> UInt32.ofNat (8 * i)) &&& 0xFF).toUInt8]) out

def appendU64 (out : List UInt8) (value : UInt64) : List UInt8 :=
  (List.range 8).foldl
    (fun out i => out ++ [((value >>> UInt64.ofNat (8 * i)) &&& 0xFF).toUInt8]) out

/-- `write_u32_at`. Both callers patch four bytes that exist, so `at` does not throw. -/
def writeU32At (out : List UInt8) (offset : ℕ) (value : UInt32) : List UInt8 :=
  (List.range 4).foldl
    (fun out i => out.set (offset + i) ((value >>> UInt32.ofNat (8 * i)) &&& 0xFF).toUInt8) out

private theorem mod_and_255 (n : ℕ) : n % 256 &&& 255 = n % 256 := by
  rw [show (255 : ℕ) = 2 ^ 8 - 1 from rfl, Nat.and_two_pow_sub_one_eq_mod, Nat.mod_mod]

/-- The byte that the loops take from a 32-bit value. -/
private theorem byte_u32 (value : UInt32) {i : ℕ} (hi : i < 4) :
    ((value >>> UInt32.ofNat (8 * i)) &&& 0xFF).toUInt8 =
      UInt8.ofNat (value.toNat >>> (8 * i)) := by
  have hcount : 8 * i % 32 = 8 * i := by omega
  apply UInt8.toNat.inj
  simp [UInt32.toNat_shiftRight, hcount, mod_and_255]

private theorem byte_u64 (value : UInt64) {i : ℕ} (hi : i < 8) :
    ((value >>> UInt64.ofNat (8 * i)) &&& 0xFF).toUInt8 =
      UInt8.ofNat (value.toNat >>> (8 * i)) := by
  have hcount : 8 * i % 64 = 8 * i := by omega
  apply UInt8.toNat.inj
  simp [UInt64.toNat_shiftRight, hcount, mod_and_255]

private theorem foldl_push {ι : Type*} (f : ι → UInt8) (is : List ι) (out : List UInt8) :
    is.foldl (fun out i => out ++ [f i]) out = out ++ is.map f := by
  induction is generalizing out with
  | nil => simp
  | cons i is ih => rw [List.foldl_cons, ih, List.append_assoc, List.map_cons]; rfl

theorem appendU16_eq (out : List UInt8) (value : UInt16) :
    appendU16 out value = out ++ bytes 2 value.toNat := by
  have hlow : (value &&& 0xFF).toUInt8 = UInt8.ofNat value.toNat := by
    apply UInt8.toNat.inj
    simp [mod_and_255]
  have hhigh : ((value >>> 8) &&& 0xFF).toUInt8 = UInt8.ofNat (value.toNat / 256) := by
    apply UInt8.toNat.inj
    simp [UInt16.toNat_shiftRight, mod_and_255, Nat.shiftRight_eq_div_pow]
  rw [appendU16, hlow, hhigh, List.append_assoc]
  rfl

theorem appendU32_eq (out : List UInt8) (value : UInt32) :
    appendU32 out value = out ++ bytes 4 value.toNat := by
  rw [appendU32, foldl_push, bytes_eq_map_range]
  congr 1
  exact List.map_congr_left (fun i hi => byte_u32 value (List.mem_range.mp hi))

theorem appendU64_eq (out : List UInt8) (value : UInt64) :
    appendU64 out value = out ++ bytes 8 value.toNat := by
  rw [appendU64, foldl_push, bytes_eq_map_range]
  congr 1
  exact List.map_congr_left (fun i hi => byte_u64 value (List.mem_range.mp hi))

/-- Patching replaces the four bytes at the offset and nothing else. -/
theorem writeU32At_eq (front old back : List UInt8) (value : UInt32) (hold : old.length = 4) :
    writeU32At (front ++ (old ++ back)) front.length value =
      front ++ (bytes 4 value.toNat ++ back) := by
  have hset (i : ℕ) (b : UInt8) (mid : List UInt8) (hi : i < mid.length) :
      (front ++ (mid ++ back)).set (front.length + i) b = front ++ (mid.set i b ++ back) := by
    rw [List.set_append_right _ _ (by omega), Nat.add_sub_cancel_left, List.set_append_left _ _ hi]
  obtain ⟨b₀, b₁, b₂, b₃, rfl⟩ : ∃ b₀ b₁ b₂ b₃, old = [b₀, b₁, b₂, b₃] := by
    match old, hold with
    | [b₀, b₁, b₂, b₃], _ => exact ⟨b₀, b₁, b₂, b₃, rfl⟩
  have hrange : List.range 4 = [0, 1, 2, 3] := rfl
  rw [writeU32At, bytes_eq_map_range, hrange]
  simp only [List.foldl_cons, List.foldl_nil, List.map_cons, List.map_nil]
  rw [hset 0 _ _ (by simp), hset 1 _ _ (by simp), hset 2 _ _ (by simp), hset 3 _ _ (by simp),
    byte_u32 value (show 0 < 4 by omega), byte_u32 value (show 1 < 4 by omega),
    byte_u32 value (show 2 < 4 by omega), byte_u32 value (show 3 < 4 by omega)]
  rfl

/-! ## Reading

The reading functions take the bytes from a pointer on, which is a suffix of the header here. -/

def readU16 (data : List UInt8) : UInt16 :=
  (data.getD 0 0).toUInt16 ||| ((data.getD 1 0).toUInt16 <<< 8)

def readU32 (data : List UInt8) : UInt32 :=
  (List.range 4).foldl
    (fun value i => value ||| ((data.getD i 0).toUInt32 <<< UInt32.ofNat (8 * i))) 0

def readU64 (data : List UInt8) : UInt64 :=
  (List.range 8).foldl
    (fun value i => value ||| ((data.getD i 0).toUInt64 <<< UInt64.ofNat (8 * i))) 0

private theorem map_range_getD (front back : List UInt8) :
    (List.range front.length).map (fun i => (front ++ back).getD i 0) = front := by
  apply List.ext_getElem
  · simp
  · intro i _ h
    rw [List.getElem_map, List.getElem_range, List.getD_append _ _ _ _ h,
      List.getD_eq_getElem _ _ h]

private theorem foldl_toNat {ι α : Type*} (toNat : α → ℕ) (f : α → ι → α) (g : ℕ → ι → ℕ)
    (is : List ι) (a : α) (h : ∀ a, ∀ i ∈ is, toNat (f a i) = g (toNat a) i) :
    toNat (is.foldl f a) = is.foldl g (toNat a) := by
  induction is generalizing a with
  | nil => rfl
  | cons i is ih =>
    rw [List.foldl_cons, List.foldl_cons, ← h a i List.mem_cons_self]
    exact ih _ (fun a j hj => h a j (List.mem_cons_of_mem i hj))

private theorem shiftLeft_mod {b : UInt8} {i k : ℕ} (h : 8 * i + 8 ≤ k) :
    b.toNat <<< (8 * i) % 2 ^ k = b.toNat <<< (8 * i) := by
  apply Nat.mod_eq_of_lt
  have hb : b.toNat < 2 ^ 8 := b.toNat_lt
  calc b.toNat <<< (8 * i) = b.toNat * 2 ^ (8 * i) := Nat.shiftLeft_eq ..
    _ < 2 ^ 8 * 2 ^ (8 * i) := Nat.mul_lt_mul_of_pos_right hb (by positivity)
    _ = 2 ^ (8 * i + 8) := by rw [← pow_add, Nat.add_comm]
    _ ≤ 2 ^ k := Nat.pow_le_pow_right (by omega) h

/-- Reading a field reads the number its bytes write. -/
theorem toNat_readU32 {front : List UInt8} (h : front.length = 4) (back : List UInt8) :
    (readU32 (front ++ back)).toNat = value front := by
  rw [readU32, foldl_toNat UInt32.toNat _
    (fun acc i => acc ||| ((front ++ back).getD i 0).toNat <<< (8 * i))]
  · rw [UInt32.toNat_zero, foldl_or_eq_value, ← h, map_range_getD]
  · intro a i hi
    have hi4 : i < 4 := List.mem_range.mp hi
    have hcount : 8 * i % 2 ^ 32 % 32 = 8 * i := by omega
    rw [UInt32.toNat_or, UInt32.toNat_shiftLeft, UInt8.toNat_toUInt32, UInt32.toNat_ofNat', hcount,
      shiftLeft_mod (by omega)]

theorem toNat_readU64 {front : List UInt8} (h : front.length = 8) (back : List UInt8) :
    (readU64 (front ++ back)).toNat = value front := by
  rw [readU64, foldl_toNat UInt64.toNat _
    (fun acc i => acc ||| ((front ++ back).getD i 0).toNat <<< (8 * i))]
  · rw [UInt64.toNat_zero, foldl_or_eq_value, ← h, map_range_getD]
  · intro a i hi
    have hi8 : i < 8 := List.mem_range.mp hi
    have hcount : 8 * i % 2 ^ 64 % 64 = 8 * i := by omega
    rw [UInt64.toNat_or, UInt64.toNat_shiftLeft, UInt8.toNat_toUInt64, UInt64.toNat_ofNat', hcount,
      shiftLeft_mod (by omega)]

theorem toNat_readU16 {front : List UInt8} (h : front.length = 2) (back : List UInt8) :
    (readU16 (front ++ back)).toNat = value front := by
  have hfold := foldl_or_eq_value (fun i => (front ++ back).getD i 0) 2
  rw [← h, map_range_getD, h] at hfold
  rw [← hfold, readU16, UInt16.toNat_or, UInt16.toNat_shiftLeft, UInt8.toNat_toUInt16,
    UInt8.toNat_toUInt16]
  have hshift := shiftLeft_mod (b := (front ++ back).getD 1 0) (i := 1) (k := 16) (by omega)
  have hmod : ((front ++ back).getD 1 0).toNat <<< 8 % 2 ^ 16 =
      ((front ++ back).getD 1 0).toNat <<< 8 := hshift
  rw [show UInt16.toNat 8 % 16 = 8 from rfl, hmod]
  simp [List.range_succ]

/-! Reading undoes writing, and writing undoes reading. -/

@[simp] theorem readU16_bytes (v : UInt16) (back : List UInt8) :
    readU16 (bytes 2 v.toNat ++ back) = v := by
  apply UInt16.toNat.inj
  rw [toNat_readU16 (length_bytes ..), value_bytes_of_lt v.toNat_lt]

@[simp] theorem readU32_bytes (v : UInt32) (back : List UInt8) :
    readU32 (bytes 4 v.toNat ++ back) = v := by
  apply UInt32.toNat.inj
  rw [toNat_readU32 (length_bytes ..), value_bytes_of_lt v.toNat_lt]

@[simp] theorem readU64_bytes (v : UInt64) (back : List UInt8) :
    readU64 (bytes 8 v.toNat ++ back) = v := by
  apply UInt64.toNat.inj
  rw [toNat_readU64 (length_bytes ..), value_bytes_of_lt v.toNat_lt]

theorem bytes_readU16 {front : List UInt8} (h : front.length = 2) (back : List UInt8) :
    bytes 2 (readU16 (front ++ back)).toNat = front := by
  rw [toNat_readU16 h, bytes_value_of_length h]

theorem bytes_readU32 {front : List UInt8} (h : front.length = 4) (back : List UInt8) :
    bytes 4 (readU32 (front ++ back)).toNat = front := by
  rw [toNat_readU32 h, bytes_value_of_length h]

theorem bytes_readU64 {front : List UInt8} (h : front.length = 8) (back : List UInt8) :
    bytes 8 (readU64 (front ++ back)).toNat = front := by
  rw [toNat_readU64 h, bytes_value_of_length h]

end Hpblr
