import Mathlib.Data.Option.Basic

/-!
# Labelled transition systems with a partial step function

A step function takes a state and a label, and refuses labels that are not enabled. A run is a
list of labels. The label resolves every choice of a scheduler, so quantifying over runs is
quantifying over interleavings. The rules below carry invariants along runs and project the runs
of one system onto another.
-/

namespace Transition

variable {σ τ α β : Type*}

/-- Execute a list of labels; `none` when one of them is not enabled in its turn. -/
def run (step : σ → α → Option σ) : σ → List α → Option σ
  | s, [] => some s
  | s, a :: as => (step s a).bind (fun s' => run step s' as)

@[simp] theorem run_nil (step : σ → α → Option σ) (s : σ) : run step s [] = some s := rfl

/-- A nonempty run is a first step and a run from there. -/
theorem run_cons {step : σ → α → Option σ} {s t : σ} {a : α} {as : List α} :
    run step s (a :: as) = some t ↔ ∃ s', step s a = some s' ∧ run step s' as = some t := by
  simp [run, Option.bind_eq_some_iff]

/-- Runs compose. -/
theorem run_append {step : σ → α → Option σ} {s t : σ} {as bs : List α} :
    run step s (as ++ bs) = some t ↔
      ∃ s', run step s as = some s' ∧ run step s' bs = some t := by
  induction as generalizing s with
  | nil => simp
  | cons a as ih =>
    rw [List.cons_append, run_cons]
    constructor
    · rintro ⟨s₁, hstep, hrun⟩
      obtain ⟨s₂, h₁, h₂⟩ := ih.mp hrun
      exact ⟨s₂, run_cons.mpr ⟨s₁, hstep, h₁⟩, h₂⟩
    · rintro ⟨s₂, hrun, h₂⟩
      obtain ⟨s₁, hstep, h₁⟩ := run_cons.mp hrun
      exact ⟨s₁, hstep, ih.mpr ⟨s₂, h₁, h₂⟩⟩

/-- A property kept by every step holds after every run from a state that has it. -/
theorem run_invariant {step : σ → α → Option σ} {I : σ → Prop}
    (hstep : ∀ {s s' a}, I s → step s a = some s' → I s') {s t : σ} {as : List α}
    (hs : I s) (hrun : run step s as = some t) : I t := by
  induction as generalizing s with
  | nil => exact Option.some.inj hrun ▸ hs
  | cons a as ih =>
    obtain ⟨s', ha, hrest⟩ := run_cons.mp hrun
    exact ih (hstep hs ha) hrest

/-- Every step of a run, together with the state it starts from, satisfies `C`. -/
def Along (step : σ → α → Option σ) (C : σ → α → Prop) : σ → List α → Prop
  | _, [] => True
  | s, a :: as => C s a ∧ ∀ s', step s a = some s' → Along step C s' as

/-- Whether a list of labels meets a decidable condition can be computed. -/
instance decidableAlong {step : σ → α → Option σ} {C : σ → α → Prop}
    [∀ s a, Decidable (C s a)] : ∀ s as, Decidable (Along step C s as)
  | _, [] => isTrue trivial
  | s, a :: as =>
    match hstep : step s a with
    | none => decidable_of_iff (C s a) (by simp [Along, hstep])
    | some s' =>
      have : Decidable (Along step C s' as) := decidableAlong s' as
      decidable_of_iff (C s a ∧ Along step C s' as) (by simp [Along, hstep])

/-- A condition on the labels alone is met along a run when all labels meet it. -/
theorem along_of_forall {step : σ → α → Option σ} {C : α → Prop} {s : σ} {as : List α}
    (h : ∀ a ∈ as, C a) : Along step (fun _ a => C a) s as := by
  induction as generalizing s with
  | nil => trivial
  | cons a as ih =>
    exact ⟨h a List.mem_cons_self, fun s' _ => ih (fun b hb => h b (List.mem_cons_of_mem a hb))⟩

/-- A property kept by the steps that satisfy `C` holds after every run made of such steps. -/
theorem run_invariant_along {step : σ → α → Option σ} {C : σ → α → Prop} {I : σ → Prop}
    (hstep : ∀ {s s' a}, I s → C s a → step s a = some s' → I s') {s t : σ} {as : List α}
    (hs : I s) (hC : Along step C s as) (hrun : run step s as = some t) : I t := by
  induction as generalizing s with
  | nil => exact Option.some.inj hrun ▸ hs
  | cons a as ih =>
    obtain ⟨s', ha, hrest⟩ := run_cons.mp hrun
    exact ih (hstep hs hC.1 ha) (hC.2 s' ha) hrest

/-- A property that holds after a step exactly if it held before and the step satisfies `C` holds
after a run exactly if it held before and every step satisfies `C`. -/
theorem along_iff {step : σ → α → Option σ} {C : σ → α → Prop} {I J : σ → Prop}
    (hinv : ∀ {s s' a}, I s → step s a = some s' → I s')
    (hstep : ∀ {s s' a}, I s → step s a = some s' → (J s' ↔ J s ∧ C s a)) {s t : σ} {as : List α}
    (hs : I s) (hrun : run step s as = some t) : J t ↔ J s ∧ Along step C s as := by
  induction as generalizing s with
  | nil =>
    rw [← Option.some.inj hrun]
    exact ⟨fun h => ⟨h, trivial⟩, fun h => h.1⟩
  | cons a as ih =>
    obtain ⟨s', ha, hrest⟩ := run_cons.mp hrun
    have hrestIff := ih (hinv hs ha) hrest
    have hfirst : Along step C s (a :: as) ↔ C s a ∧ Along step C s' as := by
      simp [Along, ha]
    rw [hrestIff, hstep hs ha, hfirst, and_assoc]

/-- A map of states that sends every step to a run of the other system sends every run to one. -/
theorem run_project {step : σ → α → Option σ} {step' : τ → β → Option τ} (f : σ → τ)
    (hstep : ∀ {s s' a}, step s a = some s' → ∃ bs, run step' (f s) bs = some (f s'))
    {s t : σ} {as : List α} (hrun : run step s as = some t) :
    ∃ bs, run step' (f s) bs = some (f t) := by
  induction as generalizing s with
  | nil => exact ⟨[], by rw [run_nil, Option.some.inj hrun]⟩
  | cons a as ih =>
    obtain ⟨s', ha, hrest⟩ := run_cons.mp hrun
    obtain ⟨bs, hbs⟩ := hstep ha
    obtain ⟨cs, hcs⟩ := ih hrest
    exact ⟨bs ++ cs, run_append.mpr ⟨f s', hbs, hcs⟩⟩

/-! ## Observations -/

/-- What is observed along a run, step by step. -/
def observe (step : σ → α → Option σ) (f : σ → α → σ → List β) : σ → List α → List β
  | _, [] => []
  | s, a :: as =>
    match step s a with
    | none => []
    | some s' => f s a s' ++ observe step f s' as

theorem observe_cons {step : σ → α → Option σ} {f : σ → α → σ → List β} {s s' : σ} {a : α}
    (h : step s a = some s') (as : List α) :
    observe step f s (a :: as) = f s a s' ++ observe step f s' as := by
  rw [observe, h]

/-- A relation between states and what has been observed so far, kept by every step, holds after
every run. -/
theorem run_observe {step : σ → α → Option σ} {f : σ → α → σ → List β} {I : List β → σ → Prop}
    (hstep : ∀ {o s s' a}, I o s → step s a = some s' → I (o ++ f s a s') s') {o : List β}
    {s t : σ} {as : List α} (hs : I o s) (hrun : run step s as = some t) :
    I (o ++ observe step f s as) t := by
  induction as generalizing o s with
  | nil =>
    rw [observe, List.append_nil]
    exact Option.some.inj hrun ▸ hs
  | cons a as ih =>
    obtain ⟨s', ha, hrest⟩ := run_cons.mp hrun
    rw [observe_cons ha, ← List.append_assoc]
    exact ih (hstep hs ha) hrest

end Transition
