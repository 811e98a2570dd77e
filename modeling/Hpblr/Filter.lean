import Hpblr.Event

/-!
# Filters

`EventFilter`: the optional criteria of the tool that reads logs.
-/

namespace Hpblr

/-- `EventFilter`. -/
structure EventFilter where
  producerId : Option UInt32 := none
  type : Option UInt16 := none
  severity : Option Severity := none
  fromTimestampNs : Option UInt64 := none
  toTimestampNs : Option UInt64 := none
  deriving DecidableEq

/-- `matches`: the criteria that are set are checked one after the other. -/
def EventFilter.matches (filter : EventFilter) (event : Event) : Bool :=
  if filter.producerId.any (fun producerId => event.producerId ≠ producerId) then false
  else if filter.type.any (fun type => event.type ≠ type) then false
  else if filter.severity.any (fun severity => event.severity ≠ severity) then false
  else if filter.fromTimestampNs.any (fun bound => event.timestampNs < bound) then false
  else if filter.toTimestampNs.any (fun bound => event.timestampNs > bound) then false
  else true

/-- The event satisfies every criterion that is set. -/
structure EventFilter.Satisfies (filter : EventFilter) (event : Event) : Prop where
  producerId : ∀ producerId ∈ filter.producerId, event.producerId = producerId
  type : ∀ type ∈ filter.type, event.type = type
  severity : ∀ severity ∈ filter.severity, event.severity = severity
  fromTimestampNs : ∀ bound ∈ filter.fromTimestampNs, bound ≤ event.timestampNs
  toTimestampNs : ∀ bound ∈ filter.toTimestampNs, event.timestampNs ≤ bound

/-- `matches` decides whether every criterion that is set is satisfied. -/
theorem EventFilter.matches_iff {filter : EventFilter} {event : Event} :
    filter.matches event = true ↔ filter.Satisfies event := by
  unfold EventFilter.matches
  constructor
  · intro h
    split_ifs at h with h₁ h₂ h₃ h₄ h₅
    simp only [Option.any_eq_true, decide_eq_true_eq, not_exists, not_and, not_not, gt_iff_lt,
      UInt64.not_lt] at h₁ h₂ h₃ h₄ h₅
    exact ⟨h₁, h₂, h₃, h₄, h₅⟩
  · rintro ⟨h₁, h₂, h₃, h₄, h₅⟩
    simp only [Option.any_eq_true, decide_eq_true_eq]
    rw [if_neg, if_neg, if_neg, if_neg, if_neg]
    · rintro ⟨bound, hbound, hlt⟩
      exact absurd hlt (UInt64.not_lt.mpr (h₅ bound hbound))
    · rintro ⟨bound, hbound, hlt⟩
      exact absurd hlt (UInt64.not_lt.mpr (h₄ bound hbound))
    · rintro ⟨severity, hseverity, hne⟩
      exact hne (h₃ severity hseverity)
    · rintro ⟨type, htype, hne⟩
      exact hne (h₂ type htype)
    · rintro ⟨producerId, hproducer, hne⟩
      exact hne (h₁ producerId hproducer)

end Hpblr
