import Mathlib.Data.Finset.Card

/-!
# Condition variables

A condition variable as the threads asleep on it and the threads that were woken and have not yet
resumed. A notification wakes one sleeper, or all of them; a sleeper may also wake by itself.

A condition variable covers a number of units (free slots, stored elements) when nobody sleeps, or
there are at least as many woken threads as units. This is what it takes to lose no wake-up. The
rules say how each operation changes the number that is covered.
-/

/-- A condition variable. -/
structure CondVar (τ : Type*) where
  /-- The threads asleep. -/
  sleeping : Finset τ := ∅
  /-- The threads woken but not yet resumed. -/
  woken : Finset τ := ∅
  deriving DecidableEq

namespace CondVar

variable {τ : Type*} [DecidableEq τ]

/-! ## Operations -/

/-- A thread goes to sleep. -/
def wait (c : CondVar τ) (t : τ) : CondVar τ := { c with sleeping := insert t c.sleeping }

/-- A thread goes on, whether it was woken or has only just come. -/
def resume (c : CondVar τ) (t : τ) : CondVar τ := { c with woken := c.woken.erase t }

/-- A sleeper is woken. -/
def wake (c : CondVar τ) (t : τ) : CondVar τ :=
  { sleeping := c.sleeping.erase t, woken := insert t c.woken }

/-- `notify_one`: wakes the chosen sleeper. There is no choice only if nobody sleeps. -/
def notifyOne (c : CondVar τ) : Option τ → Option (CondVar τ)
  | none => if c.sleeping = ∅ then some c else none
  | some t => if t ∈ c.sleeping then some (c.wake t) else none

/-- `notify_all`. -/
def notifyAll (c : CondVar τ) : CondVar τ :=
  { sleeping := ∅, woken := c.woken ∪ c.sleeping }

/-- Some notification is always possible. -/
theorem exists_notifyOne (c : CondVar τ) : ∃ choice c', c.notifyOne choice = some c' := by
  rcases c.sleeping.eq_empty_or_nonempty with hempty | ⟨t, ht⟩
  · exact ⟨none, c, if_pos hempty⟩
  · exact ⟨some t, c.wake t, if_pos ht⟩

theorem notifyOne_cases {c c' : CondVar τ} {choice : Option τ}
    (h : c.notifyOne choice = some c') :
    (c.sleeping = ∅ ∧ c' = c) ∨ ∃ t ∈ c.sleeping, c' = c.wake t := by
  cases choice with
  | none =>
    by_cases hempty : c.sleeping = ∅
    · rw [notifyOne, if_pos hempty] at h
      exact Or.inl ⟨hempty, (Option.some.inj h).symm⟩
    · rw [notifyOne, if_neg hempty] at h
      cases h
  | some t =>
    by_cases hmem : t ∈ c.sleeping
    · rw [notifyOne, if_pos hmem] at h
      exact Or.inr ⟨t, hmem, (Option.some.inj h).symm⟩
    · rw [notifyOne, if_neg hmem] at h
      cases h

/-! ## Who is on the condition variable -/

/-- The threads on the condition variable, asleep or woken, all satisfy `p`, and none is both. -/
structure OnlyWaiters (c : CondVar τ) (p : τ → Prop) : Prop where
  sleeping : ∀ t ∈ c.sleeping, p t
  woken : ∀ t ∈ c.woken, p t
  disjoint : Disjoint c.sleeping c.woken

namespace OnlyWaiters

variable {c c' : CondVar τ} {p q : τ → Prop} {t : τ}

omit [DecidableEq τ] in
theorem empty (p : τ → Prop) : OnlyWaiters ({} : CondVar τ) p :=
  ⟨by simp, by simp, by simp⟩

/-- Threads other than `t` keep satisfying the condition, and `t` is no longer there. -/
theorem resume (h : c.OnlyWaiters p) (ht : t ∉ c.sleeping) (hpq : ∀ u, u ≠ t → p u → q u) :
    (c.resume t).OnlyWaiters q := by
  refine ⟨fun u hu => hpq u ?_ (h.sleeping u hu), fun u hu => ?_, ?_⟩
  · rintro rfl
    exact ht hu
  · obtain ⟨hne, hmem⟩ := Finset.mem_erase.mp hu
    exact hpq u hne (h.woken u hmem)
  · exact h.disjoint.mono_right (Finset.erase_subset t c.woken)

/-- A thread that was awake goes to sleep. -/
theorem wait (h : c.OnlyWaiters p) (ht : p t) (hwoken : t ∉ c.woken) :
    (c.wait t).OnlyWaiters p := by
  refine ⟨fun u hu => ?_, h.woken, ?_⟩
  · rcases Finset.mem_insert.mp hu with rfl | hmem
    · exact ht
    · exact h.sleeping u hmem
  · exact Finset.disjoint_insert_left.mpr ⟨hwoken, h.disjoint⟩

theorem wake (h : c.OnlyWaiters p) (ht : t ∈ c.sleeping) : (c.wake t).OnlyWaiters p := by
  refine ⟨fun u hu => h.sleeping u (Finset.mem_of_mem_erase hu), fun u hu => ?_, ?_⟩
  · rcases Finset.mem_insert.mp hu with rfl | hmem
    · exact h.sleeping u ht
    · exact h.woken u hmem
  · refine Finset.disjoint_insert_right.mpr ⟨Finset.notMem_erase t c.sleeping, ?_⟩
    exact h.disjoint.mono_left (Finset.erase_subset t c.sleeping)

theorem notifyOne {choice : Option τ} (h : c.OnlyWaiters p)
    (hnotify : c.notifyOne choice = some c') : c'.OnlyWaiters p := by
  rcases notifyOne_cases hnotify with ⟨_, rfl⟩ | ⟨t, ht, rfl⟩
  · exact h
  · exact h.wake ht

theorem notifyAll (h : c.OnlyWaiters p) : c.notifyAll.OnlyWaiters p := by
  refine ⟨by simp [CondVar.notifyAll], fun u hu => ?_, by simp [CondVar.notifyAll]⟩
  rcases Finset.mem_union.mp hu with hmem | hmem
  · exact h.woken u hmem
  · exact h.sleeping u hmem

omit [DecidableEq τ] in
/-- Weakening the condition. -/
theorem mono (h : c.OnlyWaiters p) (hpq : ∀ u, p u → q u) : c.OnlyWaiters q :=
  ⟨fun u hu => hpq u (h.sleeping u hu), fun u hu => hpq u (h.woken u hu), h.disjoint⟩

end OnlyWaiters

/-! ## Wake-ups that cover what is available -/

/-- Nobody sleeps, or at least `n` threads are woken. -/
def Covers (c : CondVar τ) (n : ℕ) : Prop := c.sleeping.Nonempty → n ≤ c.woken.card

namespace Covers

variable {c c' : CondVar τ} {n : ℕ} {t : τ}

omit [DecidableEq τ] in
theorem empty (n : ℕ) : Covers ({} : CondVar τ) n := by
  intro hne
  simp at hne

omit [DecidableEq τ] in
theorem zero (c : CondVar τ) : c.Covers 0 := fun _ => Nat.zero_le _

/-- A thread that goes on takes a unit with it, or leaves the units to the others. -/
theorem resume (h : c.Covers n) (t : τ) : (c.resume t).Covers (n - 1) := by
  intro hne
  have hle := h hne
  have hcard : c.woken.card - 1 ≤ (c.woken.erase t).card := Finset.pred_card_le_card_erase
  exact le_trans (Nat.sub_le_sub_right hle 1) hcard

omit [DecidableEq τ] in
/-- A unit that is taken by a thread that was not woken. -/
theorem mono {m : ℕ} (h : c.Covers n) (hle : m ≤ n) : c.Covers m := fun hne => le_trans hle (h hne)

theorem wake (h : c.Covers n) (ht : t ∈ c.sleeping) (hwoken : t ∉ c.woken) :
    (c.wake t).Covers (n + 1) := by
  intro _
  have hle := h ⟨t, ht⟩
  simp only [CondVar.wake, Finset.card_insert_of_notMem hwoken]
  omega

/-- A notification covers one unit more. -/
theorem notifyOne {p : τ → Prop} {choice : Option τ} (h : c.Covers n) (hwaiters : c.OnlyWaiters p)
    (hnotify : c.notifyOne choice = some c') : c'.Covers (n + 1) := by
  rcases notifyOne_cases hnotify with ⟨hempty, rfl⟩ | ⟨t, ht, rfl⟩
  · intro hne
    rw [hempty] at hne
    exact absurd hne Finset.not_nonempty_empty
  · exact h.wake ht (Finset.disjoint_left.mp hwaiters.disjoint ht)

theorem notifyAll (c : CondVar τ) (n : ℕ) : c.notifyAll.Covers n := by
  intro hne
  simp [CondVar.notifyAll] at hne

end Covers

end CondVar
