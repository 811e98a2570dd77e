import Mathlib.Data.List.Nodup
import Mathlib.Logic.Function.Basic
import Mathlib.Logic.Relation

/-!
# Numbers drawn from a shared counter

Workers draw consecutive numbers from one counter. A worker that holds a number files it, or drops
it when it is past the limit, and draws the next one only afterwards. Whatever the order of the
steps, each drawn number is filed once, held by one worker or past the limit, and every worker
files its numbers in increasing order.
-/

namespace Tickets

/-- How many numbers have been drawn, the number that each worker holds, and the filed ones. -/
@[ext] structure Desk (W : Type*) where
  drawn : ℕ
  hand : W → Option ℕ
  filed : List (W × ℕ)

variable {W : Type*}

/-- The desk before the first number is drawn. -/
def Desk.empty : Desk W := ⟨0, fun _ => none, []⟩

/-- What a worker can do. -/
inductive Move [DecidableEq W] (past : ℕ → Prop) (d : Desk W) : Desk W → Prop
  | draws {w : W} (hfree : d.hand w = none) :
      Move past d { d with
        drawn := d.drawn + 1, hand := Function.update d.hand w (some d.drawn) }
  | files {w : W} {i : ℕ} (hheld : d.hand w = some i) (hwithin : ¬ past i) :
      Move past d { d with
        hand := Function.update d.hand w none, filed := d.filed ++ [(w, i)] }
  | drops {w : W} {i : ℕ} (hheld : d.hand w = some i) (hpast : past i) :
      Move past d { d with hand := Function.update d.hand w none }

/-- Every number is where it belongs. -/
structure Accounted [DecidableEq W] (past : ℕ → Prop) (d : Desk W) : Prop where
  held_lt : ∀ w i, d.hand w = some i → i < d.drawn
  held_inj : ∀ w w' i, d.hand w = some i → d.hand w' = some i → w = w'
  held_fresh : ∀ w i, d.hand w = some i → i ∉ d.filed.map Prod.snd
  /-- A worker holds a number above those it has filed. -/
  held_above : ∀ w i, d.hand w = some i → ∀ x ∈ d.filed, x.1 = w → x.2 < i
  filed_lt : ∀ x ∈ d.filed, x.2 < d.drawn
  filed_within : ∀ x ∈ d.filed, ¬ past x.2
  nodup : (d.filed.map Prod.snd).Nodup
  complete : ∀ i < d.drawn, i ∈ d.filed.map Prod.snd ∨ (∃ w, d.hand w = some i) ∨ past i
  increasing : ∀ w, ((d.filed.filter (fun x => x.1 = w)).map Prod.snd).Pairwise (· < ·)

variable [DecidableEq W] {past : ℕ → Prop} {d d' : Desk W} {w : W} {i : ℕ}

/-! ## The invariant -/

/-- Who holds a number after a worker has taken or given up one. -/
theorem update_hand {f : W → Option ℕ} {taken : Option ℕ} {w' : W}
    (h : Function.update f w taken w' = some i) :
    (w' = w ∧ taken = some i) ∨ (w' ≠ w ∧ f w' = some i) := by
  by_cases heq : w' = w
  · subst heq
    exact Or.inl ⟨rfl, by simpa using h⟩
  · exact Or.inr ⟨heq, by simpa [heq] using h⟩

/-- A worker that has given up its number holds none, and the others hold theirs. -/
theorem held_of_update {f : W → Option ℕ} {w' : W}
    (h : Function.update f w none w' = some i) : w' ≠ w ∧ f w' = some i :=
  (update_hand h).resolve_left (by simp)

theorem Accounted.empty : Accounted past (Desk.empty : Desk W) where
  held_lt := by simp [Desk.empty]
  held_inj := by simp [Desk.empty]
  held_fresh := by simp [Desk.empty]
  held_above := by simp [Desk.empty]
  filed_lt := by simp [Desk.empty]
  filed_within := by simp [Desk.empty]
  nodup := List.nodup_nil
  complete := by simp [Desk.empty]
  increasing := by simp [Desk.empty]

private theorem Accounted.draws (h : Accounted past d) (hfree : d.hand w = none) :
    Accounted past { d with
      drawn := d.drawn + 1, hand := Function.update d.hand w (some d.drawn) } where
  held_lt w' i hheld := by
    rcases update_hand hheld with ⟨_, hnew⟩ | ⟨_, hold⟩
    · rw [← Option.some.inj hnew]
      exact Nat.lt_succ_self _
    · exact Nat.lt_succ_of_lt (h.held_lt w' i hold)
  held_inj w₁ w₂ i h₁ h₂ := by
    rcases update_hand h₁ with ⟨rfl, hnew₁⟩ | ⟨_, hold₁⟩ <;>
      rcases update_hand h₂ with ⟨rfl, hnew₂⟩ | ⟨_, hold₂⟩
    · rfl
    · exact absurd (h.held_lt w₂ i hold₂) (by simp [Option.some.inj hnew₁])
    · exact absurd (h.held_lt w₁ i hold₁) (by simp [Option.some.inj hnew₂])
    · exact h.held_inj w₁ w₂ i hold₁ hold₂
  held_fresh w' i hheld := by
    rcases update_hand hheld with ⟨_, hnew⟩ | ⟨_, hold⟩
    · intro hmem
      obtain ⟨x, hx, rfl⟩ := List.mem_map.mp hmem
      exact absurd (h.filed_lt x hx) (by simp [Option.some.inj hnew])
    · exact h.held_fresh w' i hold
  held_above w' i hheld x hx howner := by
    rcases update_hand hheld with ⟨_, hnew⟩ | ⟨_, hold⟩
    · rw [← Option.some.inj hnew]
      exact h.filed_lt x hx
    · exact h.held_above w' i hold x hx howner
  filed_lt x hx := Nat.lt_succ_of_lt (h.filed_lt x hx)
  filed_within := h.filed_within
  nodup := h.nodup
  complete i hi := by
    rcases Nat.lt_succ_iff_lt_or_eq.mp hi with hlt | rfl
    · refine (h.complete i hlt).imp_right (Or.imp_left ?_)
      rintro ⟨w', hheld⟩
      refine ⟨w', ?_⟩
      dsimp only
      rwa [Function.update_of_ne]
      rintro rfl
      rw [hfree] at hheld
      cases hheld
    · exact Or.inr (Or.inl ⟨w, Function.update_self ..⟩)
  increasing := h.increasing

/-- Whoever holds another number keeps it while a worker gives up its own. -/
private theorem Accounted.complete_of_update (h : Accounted past d) (hheld : d.hand w = some i)
    {j : ℕ} (hj : j < d.drawn) (hne : j ≠ i) :
    j ∈ d.filed.map Prod.snd ∨ (∃ w', Function.update d.hand w none w' = some j) ∨ past j := by
  refine (h.complete j hj).imp_right (Or.imp_left ?_)
  rintro ⟨w', hj⟩
  refine ⟨w', ?_⟩
  rwa [Function.update_of_ne]
  rintro rfl
  rw [hheld] at hj
  exact hne (Option.some.inj hj).symm

private theorem Accounted.files (h : Accounted past d) (hheld : d.hand w = some i)
    (hwithin : ¬ past i) :
    Accounted past { d with
      hand := Function.update d.hand w none, filed := d.filed ++ [(w, i)] } where
  held_lt w' j hj := h.held_lt w' j (held_of_update hj).2
  held_inj w₁ w₂ j h₁ h₂ := h.held_inj w₁ w₂ j (held_of_update h₁).2 (held_of_update h₂).2
  held_fresh w' j hj := by
    obtain ⟨hne, hold⟩ := held_of_update hj
    have hother : j ≠ i := by
      rintro rfl
      exact hne (h.held_inj w' w j hold hheld)
    simpa [hother] using h.held_fresh w' j hold
  held_above w' j hj x hx howner := by
    obtain ⟨hne, hold⟩ := held_of_update hj
    rcases List.mem_append.mp hx with hx | hlast
    · exact h.held_above w' j hold x hx howner
    · rw [List.mem_singleton.mp hlast] at howner
      exact absurd howner.symm hne
  filed_lt x hx := by
    rcases List.mem_append.mp hx with hx | hlast
    · exact h.filed_lt x hx
    · rw [List.mem_singleton.mp hlast]
      exact h.held_lt w i hheld
  filed_within x hx := by
    rcases List.mem_append.mp hx with hx | hlast
    · exact h.filed_within x hx
    · rwa [List.mem_singleton.mp hlast]
  nodup := by
    rw [List.map_append, List.map_singleton, ← List.concat_eq_append]
    exact h.nodup.concat (h.held_fresh w i hheld)
  complete j hj := by
    rw [List.map_append, List.map_singleton, List.mem_append, List.mem_singleton]
    by_cases heq : j = i
    · exact Or.inl (Or.inr heq)
    · exact (h.complete_of_update hheld hj heq).imp_left Or.inl
  increasing w' := by
    rw [List.filter_append, List.map_append]
    by_cases heq : w = w'
    · subst heq
      simp only [decide_true, List.filter_cons_of_pos, List.filter_nil, List.map_singleton]
      refine List.pairwise_append.mpr ⟨h.increasing w, List.pairwise_singleton _ _, ?_⟩
      intro j hj k hk
      obtain ⟨x, hx, rfl⟩ := List.mem_map.mp hj
      obtain ⟨hfiled, howner⟩ := List.mem_filter.mp hx
      rw [List.mem_singleton.mp hk]
      exact h.held_above w i hheld x hfiled (by simpa using howner)
    · simpa [heq] using h.increasing w'

private theorem Accounted.drops (h : Accounted past d) (hheld : d.hand w = some i)
    (hpast : past i) : Accounted past { d with hand := Function.update d.hand w none } where
  held_lt w' j hj := h.held_lt w' j (held_of_update hj).2
  held_inj w₁ w₂ j h₁ h₂ := h.held_inj w₁ w₂ j (held_of_update h₁).2 (held_of_update h₂).2
  held_fresh w' j hj := h.held_fresh w' j (held_of_update hj).2
  held_above w' j hj := h.held_above w' j (held_of_update hj).2
  filed_lt := h.filed_lt
  filed_within := h.filed_within
  nodup := h.nodup
  complete j hj := by
    by_cases heq : j = i
    · subst heq
      exact Or.inr (Or.inr hpast)
    · exact h.complete_of_update hheld hj heq
  increasing := h.increasing

/-- Every move keeps the numbers accounted for. -/
theorem Accounted.move (h : Accounted past d) (hmove : Move past d d') : Accounted past d' := by
  cases hmove with
  | draws hfree => exact h.draws hfree
  | files hheld hwithin => exact h.files hheld hwithin
  | drops hheld hpast => exact h.drops hheld hpast

/-- They are accounted for after any moves. -/
theorem Accounted.of_moves (h : Relation.ReflTransGen (Move past) Desk.empty d) :
    Accounted past d := by
  induction h with
  | refl => exact .empty
  | tail _ hmove ih => exact ih.move hmove

/-! ## When no number is held -/

/-- A number is filed exactly if it has been drawn and is within the limit. -/
theorem Accounted.mem_filed_iff (h : Accounted past d) (hfree : ∀ w, d.hand w = none) :
    i ∈ d.filed.map Prod.snd ↔ i < d.drawn ∧ ¬ past i := by
  constructor
  · intro hmem
    obtain ⟨x, hx, rfl⟩ := List.mem_map.mp hmem
    exact ⟨h.filed_lt x hx, h.filed_within x hx⟩
  · rintro ⟨hdrawn, hwithin⟩
    rcases h.complete i hdrawn with hfiled | ⟨w, hheld⟩ | hpast
    · exact hfiled
    · rw [hfree w] at hheld
      cases hheld
    · exact absurd hpast hwithin

/-- **No gap and no duplicate.** If the drawn numbers from `k` on are those past the limit, the
filed numbers are `0` to `k - 1`, each once. -/
theorem Accounted.filed_perm (h : Accounted past d) (hfree : ∀ w, d.hand w = none) {k : ℕ}
    (hk : k ≤ d.drawn) (hpast : ∀ i < d.drawn, past i ↔ k ≤ i) :
    (d.filed.map Prod.snd).Perm (List.range k) := by
  refine (List.perm_ext_iff_of_nodup h.nodup List.nodup_range).mpr fun i => ?_
  rw [h.mem_filed_iff hfree, List.mem_range]
  constructor
  · rintro ⟨hdrawn, hwithin⟩
    exact Nat.not_le.mp (mt (hpast i hdrawn).mpr hwithin)
  · intro hi
    have hdrawn := Nat.lt_of_lt_of_le hi hk
    exact ⟨hdrawn, mt (hpast i hdrawn).mp (Nat.not_le.mpr hi)⟩

end Tickets
