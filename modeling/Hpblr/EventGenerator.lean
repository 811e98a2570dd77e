import Mathlib.Data.List.Basic
import Hpblr.Event

/-!
# The event generator

`EventGenerator` over any random engine: `std::mt19937_64` is a seeding function and a function
that draws a value. The clock is an argument of `next`.
-/

namespace Hpblr

/-- A random engine with states in `R`. -/
structure RandomEngine (R : Type*) where
  seed : UInt64 → R
  draw : R → UInt64 × R

/-- `GeneratorConfig`. -/
structure GeneratorConfig where
  producerId : UInt32 := 0
  eventTypeBase : UInt16 := 100
  payloadSize : UInt64 := 64
  seed : UInt64 := 0xBADC0FFEE
  deriving DecidableEq

/-- `EventGenerator`. -/
structure EventGenerator (R : Type*) where
  config : GeneratorConfig
  rng : R

/-- The bytes of a 64-bit value in the order in which `next` stores them. -/
def valueBytes (value : UInt64) : List UInt8 :=
  (List.range 8).map (fun byte => ((value >>> UInt64.ofNat (byte * 8)) &&& 0xFF).toUInt8)

@[simp] theorem length_valueBytes (value : UInt64) : (valueBytes value).length = 8 := by
  simp [valueBytes]

namespace EventGenerator

variable {R : Type*} (engine : RandomEngine R)

/-- The constructor. -/
def new (config : GeneratorConfig) : EventGenerator R :=
  { config := config, rng := engine.seed (config.seed ^^^ (config.producerId.toUInt64 <<< 32)) }

/-- The loop that fills the last `n` bytes of the payload with drawn values. -/
def fill : ℕ → R → List UInt8 × R
  | 0, rng => ([], rng)
  | n + 1, rng =>
    let (value, rng) := engine.draw rng
    let (rest, rng) := fill (n + 1 - 8) rng
    ((valueBytes value).take (n + 1) ++ rest, rng)
termination_by n => n

/-- `next`. A payload that no vector can hold is refused when the vector is resized. -/
def next (g : EventGenerator R) (sequence now : UInt64) :
    Except Exception Event × EventGenerator R :=
  if g.config.payloadSize > vectorMaxSize then
    (.error (.lengthError "vector::_M_default_append"), g)
  else
    let metadata := [sequence, g.config.producerId.toUInt64, now].flatMap valueBytes
    let stored := metadata.take g.config.payloadSize.toNat
    let filled := fill engine (g.config.payloadSize.toNat - stored.length) g.rng
    (.ok {
      timestampNs := now
      sequence := sequence
      producerId := g.config.producerId
      type := (g.config.eventTypeBase.toUInt64 + sequence % 8).toUInt16
      severity := ⟨(sequence % 6).toUInt16⟩
      payload := stored ++ filled.1 }, { g with rng := filled.2 })

@[simp] theorem length_fill (n : ℕ) (rng : R) : (fill engine n rng).1.length = n := by
  induction n, rng using fill.induct engine with
  | case1 rng => simp [fill]
  | case2 n rng value rng' hdraw _ _ _ ih =>
    rw [Nat.succ_eq_add_one, fill, hdraw]
    simp only [List.length_append, List.length_take, length_valueBytes, ih]
    omega

/-- The sequence number modulo six is one of the six severities. -/
theorem isEnumerator_severity (sequence : UInt64) :
    Severity.IsEnumerator ⟨(sequence % 6).toUInt16⟩ := by
  have hlt : (sequence % 6).toNat < 6 := by
    rw [UInt64.toNat_mod]
    exact Nat.mod_lt _ (by decide)
  rw [Severity.isEnumerator_iff, severityToU16, UInt64.toNat_toUInt16]
  omega

/-- What `next` returns: an event with the given number, one of the six severities and a payload of
the configured size. It throws only when no vector can hold the payload. -/
theorem next_cases (g : EventGenerator R) (sequence now : UInt64) :
    (g.config.payloadSize > vectorMaxSize ∧ ∃ e, g.next engine sequence now = (.error e, g)) ∨
    (g.config.payloadSize ≤ vectorMaxSize ∧ ∃ event rng,
      g.next engine sequence now = (.ok event, { g with rng := rng }) ∧
      event.sequence = sequence ∧ event.producerId = g.config.producerId ∧
      event.severity.IsEnumerator ∧ event.payload.length = g.config.payloadSize.toNat) := by
  unfold next
  by_cases hsize : g.config.payloadSize > vectorMaxSize
  · exact Or.inl ⟨hsize, _, if_pos hsize⟩
  · refine Or.inr ⟨UInt64.not_lt.mp hsize, _, _, if_neg hsize, rfl, rfl,
      isEnumerator_severity sequence, ?_⟩
    simp only [List.length_append, length_fill, List.length_take]
    omega

/-- The event that `next` has returned. -/
theorem next_ok {g g' : EventGenerator R} {sequence now : UInt64} {event : Event}
    (h : g.next engine sequence now = (.ok event, g')) :
    g'.config = g.config ∧ event.sequence = sequence ∧ event.producerId = g.config.producerId ∧
      event.severity.IsEnumerator := by
  rcases g.next_cases engine sequence now with ⟨_, e, hthrows⟩ |
    ⟨_, event', rng, hreturns, hsequence, hproducer, hseverity, _⟩
  · rw [hthrows] at h
    cases h
  · rw [hreturns] at h
    cases h
    exact ⟨rfl, hsequence, hproducer, hseverity⟩

end EventGenerator

end Hpblr
