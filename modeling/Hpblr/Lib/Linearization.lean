import Mathlib.Logic.Function.Basic
import Hpblr.Lib.Transition

/-!
# Linearizability

An atomic object is what threads share when each operation takes effect in one instant. A concurrent
object behaves like it if an instant can be chosen between every call and its return, such that the
operations, taken in the order of their instants, are those of the atomic object. The rule for proving
this gives each step of the concurrent object what is seen of it and which instants it contains.
-/

namespace Linearization

variable {τ ω ρ σ χ α : Type*}

/-- What happens at an object: a thread calls an operation, the operation takes effect with a result,
and the thread returns with the result. -/
inductive Action (τ ω ρ : Type*) where
  | call (t : τ) (op : ω)
  | effect (t : τ) (op : ω) (result : ρ)
  | ret (t : τ) (result : ρ)
  deriving DecidableEq

/-- The instants are not seen from outside. -/
def Action.visible : Action τ ω ρ → Bool
  | .effect .. => false
  | _ => true

/-- Where a thread stands. -/
inductive Status (ω ρ : Type*) where
  | idle
  /-- It has called an operation that has not yet taken effect. -/
  | called (op : ω)
  /-- The operation has taken effect, and the thread has not returned. -/
  | done (result : ρ)

/-- An atomic object: the result that an operation can have in a state, and the state afterwards. -/
abbrev AtomicObject (σ ω ρ : Type*) := σ → ω → ρ → σ → Prop

section

variable [DecidableEq τ]

/-- One action of threads at an atomic object. Each operation takes effect once, between its call and
its return. -/
inductive Act (object : AtomicObject σ ω ρ) :
    (τ → Status ω ρ) × σ → Action τ ω ρ → (τ → Status ω ρ) × σ → Prop
  | call {status : τ → Status ω ρ} {s : σ} {t : τ} {op : ω} (hidle : status t = .idle) :
      Act object (status, s) (.call t op) (Function.update status t (.called op), s)
  | effect {status : τ → Status ω ρ} {s s' : σ} {t : τ} {op : ω} {result : ρ}
      (hcalled : status t = .called op) (hobject : object s op result s') :
      Act object (status, s) (.effect t op result) (Function.update status t (.done result), s')
  | ret {status : τ → Status ω ρ} {s : σ} {t : τ} {result : ρ} (hdone : status t = .done result) :
      Act object (status, s) (.ret t result) (Function.update status t .idle, s)

/-- Actions one after the other. -/
inductive Acts (object : AtomicObject σ ω ρ) :
    (τ → Status ω ρ) × σ → List (Action τ ω ρ) → (τ → Status ω ρ) × σ → Prop
  | nil {c : (τ → Status ω ρ) × σ} : Acts object c [] c
  | cons {c c' c'' : (τ → Status ω ρ) × σ} {a : Action τ ω ρ} {actions : List (Action τ ω ρ)}
      (hact : Act object c a c') (hacts : Acts object c' actions c'') :
      Acts object c (a :: actions) c''

/-- The history of calls and returns is one of the atomic object: instants can be put into it, such
that the object gets from the first state to the second. -/
def Linearizable (object : AtomicObject σ ω ρ) (s : σ) (history : List (Action τ ω ρ)) (s' : σ) :
    Prop :=
  ∃ actions status, Acts object ((fun _ => .idle), s) actions (status, s') ∧
    actions.filter Action.visible = history

variable {object : AtomicObject σ ω ρ} {c c' c'' : (τ → Status ω ρ) × σ}

theorem Acts.append {actions actions' : List (Action τ ω ρ)} (h : Acts object c actions c')
    (h' : Acts object c' actions' c'') : Acts object c (actions ++ actions') c'' := by
  induction h with
  | nil => exact h'
  | cons hact _ ih => exact .cons hact (ih h')

theorem Acts.single {a : Action τ ω ρ} (h : Act object c a c') : Acts object c [a] c' :=
  .cons h .nil

omit [DecidableEq τ] in
/-- If each step shows what is visible of its actions, so does a run. -/
theorem filter_observe {step : χ → α → Option χ} {acts seen : χ → α → χ → List (Action τ ω ρ)}
    (hseen : ∀ {x x' a}, step x a = some x' → (acts x a x').filter Action.visible = seen x a x')
    (x : χ) (labels : List α) : (Transition.observe step acts x labels).filter Action.visible =
      Transition.observe step seen x labels := by
  induction labels generalizing x with
  | nil => rfl
  | cons a labels ih =>
    cases hstep : step x a with
    | none => rw [Transition.observe, Transition.observe, hstep]; rfl
    | some x' =>
      rw [Transition.observe_cons hstep, Transition.observe_cons hstep, List.filter_append,
        hseen hstep, ih]

/-- **The rule.** Let every step of a concurrent object that keeps the invariant consist of actions
at the atomic object, of which what is seen is visible. Then what is seen along a run is linearizable,
and it takes the atomic object from the abstraction of the first state to that of the last one. -/
theorem linearizable_of_run {step : χ → α → Option χ} {acts seen : χ → α → χ → List (Action τ ω ρ)}
    {status : χ → τ → Status ω ρ} {abstract : χ → σ} {I : χ → Prop}
    (hkept : ∀ {x x' a}, I x → step x a = some x' → I x')
    (hstep : ∀ {x x' a}, I x → step x a = some x' →
      Acts object (status x, abstract x) (acts x a x') (status x', abstract x'))
    (hseen : ∀ {x x' a}, step x a = some x' → (acts x a x').filter Action.visible = seen x a x')
    {x y : χ} (hinv : I x) (hidle : status x = fun _ => .idle) {labels : List α}
    (hrun : Transition.run step x labels = some y) :
    Linearizable object (abstract x) (Transition.observe step seen x labels) (abstract y) := by
  have hacts : I y ∧ Acts object (status x, abstract x)
      ([] ++ Transition.observe step acts x labels) (status y, abstract y) :=
    Transition.run_observe
      (I := fun o y => I y ∧ Acts object (status x, abstract x) o (status y, abstract y))
      (f := acts)
      (fun hbefore hnext =>
        ⟨hkept hbefore.1 hnext, hbefore.2.append (hstep hbefore.1 hnext)⟩) ⟨hinv, .nil⟩ hrun
  rw [hidle, List.nil_append] at hacts
  exact ⟨_, _, hacts.2, filter_observe hseen x labels⟩

end

end Linearization
