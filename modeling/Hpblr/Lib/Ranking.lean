import Mathlib.Data.Nat.Basic
import Hpblr.Lib.Transition

/-!
# Ranking functions

A rank of the states, a cost of the labels and a credit they bring. When every step pays its cost
out of the rank it uses up and the credit of its label, the cost of a whole run is at most the rank
at its start and the credit of its labels. So a run with little credit is short.
-/

namespace Transition

variable {σ α : Type*} {I : σ → Prop} {rank : σ → ℕ}
  {cost credit : α → ℕ}

/-- The sum of a weight over the labels of a run. -/
def total (weight : α → ℕ) : List α → ℕ
  | [] => 0
  | a :: as => weight a + total weight as

@[simp] theorem total_nil (weight : α → ℕ) : total weight [] = 0 := rfl

@[simp] theorem total_cons (weight : α → ℕ) (a : α) (as : List α) :
    total weight (a :: as) = weight a + total weight as := rfl

/-- **The ranking rule.** What a run costs is paid by the rank it uses up and the credit of its
labels, provided that the steps of labels with `C` pay. -/
theorem total_add_rank_le (step : σ → α → Option σ) {C : α → Prop}
    (hinv : ∀ {s s' a}, I s → C a → step s a = some s' → I s')
    (hpays : ∀ {s s' a}, I s → C a → step s a = some s' →
      cost a + rank s' ≤ rank s + credit a)
    {s t : σ} {as : List α} (hs : I s) (hall : ∀ a ∈ as, C a)
    (hrun : run step s as = some t) :
    total cost as + rank t ≤ rank s + total credit as := by
  induction as generalizing s with
  | nil =>
    rw [← Option.some.inj hrun]
    simp
  | cons a as ih =>
    obtain ⟨s', ha, hrest⟩ := run_cons.mp hrun
    have hfirst := hpays hs (hall a List.mem_cons_self) ha
    have hremaining := ih (hinv hs (hall a List.mem_cons_self) ha)
      (fun b hb => hall b (List.mem_cons_of_mem a hb)) hrest
    rw [total_cons, total_cons]
    omega

end Transition
