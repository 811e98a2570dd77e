import Hpblr.EventGenerator

/-!
# Reproducible events

Two generators with one configuration, called with the same sequence numbers, draw the same values
from their engines, whatever the clock returns to each. What the clock returns goes into the time
stamp of an event and, with the other metadata, into the bytes 16 to 23 of its payload. Everything
else of the events is the same.
-/

namespace Hpblr

namespace EventGenerator

variable {R : Type*} (engine : RandomEngine R)

/-- Consecutive calls of `next`: their results, and the generator they leave. The clock returns
`clock k` to the `k`-th of them. -/
def run (g : EventGenerator R) (clock : ℕ → UInt64) :
    List UInt64 → List (Except Exception Event) × EventGenerator R
  | [] => ([], g)
  | sequence :: sequences =>
    let (result, g) := g.next engine sequence (clock 0)
    let (results, g) := g.run (fun k => clock (k + 1)) sequences
    (result :: results, g)

/-! ## The payload -/

/-- The metadata in front of what the clock returned. -/
def fixedMetadata (producerId : UInt32) (sequence : UInt64) : List UInt8 :=
  valueBytes sequence ++ valueBytes producerId.toUInt64

@[simp] theorem length_fixedMetadata (producerId : UInt32) (sequence : UInt64) :
    (fixedMetadata producerId sequence).length = 16 := by
  simp [fixedMetadata]

/-- The payload of the next event: the metadata as far as there is room for it, and drawn values. -/
def payloadAt (g : EventGenerator R) (sequence now : UInt64) : List UInt8 :=
  (fixedMetadata g.config.producerId sequence).take g.config.payloadSize.toNat ++
    (valueBytes now).take (g.config.payloadSize.toNat - 16) ++
    (fill engine (g.config.payloadSize.toNat - 24) g.rng).1

/-- The event that `next` returns, if a vector can hold its payload. -/
theorem next_eq {g : EventGenerator R} (hsize : ¬ g.config.payloadSize > vectorMaxSize)
    (sequence now : UInt64) :
    g.next engine sequence now =
      (.ok {
        timestampNs := now
        sequence := sequence
        producerId := g.config.producerId
        type := (g.config.eventTypeBase.toUInt64 + sequence % 8).toUInt16
        severity := ⟨(sequence % 6).toUInt16⟩
        payload := g.payloadAt engine sequence now },
      { g with rng := (fill engine (g.config.payloadSize.toNat - 24) g.rng).2 }) := by
  have hmetadata : [sequence, g.config.producerId.toUInt64, now].flatMap valueBytes =
      fixedMetadata g.config.producerId sequence ++ valueBytes now := by
    simp [fixedMetadata]
  have hroom (size : ℕ) : size - (min size 16 + min (size - 16) 8) = size - 24 := by omega
  rw [next, if_neg hsize]
  simp only [hmetadata, List.length_take, List.length_append, length_fixedMetadata,
    length_valueBytes, List.take_append, payloadAt, hroom]

/-! ## What two runs have in common -/

/-- The bytes 16 to 23 of the payload, as far as it reaches, are the time stamp. -/
def CarriesTimestamp (event : Event) : Prop :=
  ∀ i < 8, 16 + i < event.payload.length →
    event.payload[16 + i]? = (valueBytes event.timestampNs)[i]?

/-- Two events differ only in what the clock has put into them: the time stamp, and the bytes 16 to
23 of the payload. -/
structure AgreeExceptClock (a b : Event) : Prop where
  sequence : a.sequence = b.sequence
  producerId : a.producerId = b.producerId
  type : a.type = b.type
  severity : a.severity = b.severity
  length : a.payload.length = b.payload.length
  outside : ∀ i, i < 16 ∨ 24 ≤ i → a.payload[i]? = b.payload[i]?
  clock : CarriesTimestamp a ∧ CarriesTimestamp b

/-- The payloads agree altogether exactly if the time stamps agree in the bytes that fit. -/
theorem AgreeExceptClock.payload_eq_iff {a b : Event} (h : AgreeExceptClock a b) :
    a.payload = b.payload ↔ ∀ i < 8, 16 + i < a.payload.length →
      (valueBytes a.timestampNs)[i]? = (valueBytes b.timestampNs)[i]? := by
  obtain ⟨hleft, hright⟩ := h.clock
  constructor
  · intro heq i hi hfits
    rw [← hleft i hi hfits, ← hright i hi (h.length ▸ hfits), heq]
  · intro hbytes
    apply List.ext_getElem?
    intro i
    by_cases houtside : i < 16 ∨ 24 ≤ i
    · exact h.outside i houtside
    · obtain ⟨j, rfl⟩ := Nat.exists_eq_add_of_le (show 16 ≤ i by omega)
      by_cases hfits : 16 + j < a.payload.length
      · rw [hleft j (by omega) hfits, hright j (by omega) (h.length ▸ hfits),
          hbytes j (by omega) hfits]
      · have hlength := h.length
        rw [List.getElem?_eq_none (by omega), List.getElem?_eq_none (by omega)]

/-- The results of two calls: events that agree except for the clock, or the same exception. -/
def ResultsAgree : Except Exception Event → Except Exception Event → Prop
  | .ok a, .ok b => AgreeExceptClock a b
  | .error e, .error e' => e = e'
  | _, _ => False

variable {g : EventGenerator R}

@[simp] theorem length_payloadAt (sequence now : UInt64) :
    (g.payloadAt engine sequence now).length = g.config.payloadSize.toNat := by
  simp only [payloadAt, List.length_append, List.length_take, length_fixedMetadata,
    length_valueBytes, length_fill]
  omega

/-- The front of a payload, before the time stamp. -/
theorem payloadAt_front (sequence now : UInt64) {i : ℕ} (hi : i < 16) :
    (g.payloadAt engine sequence now)[i]? =
      if i < g.config.payloadSize.toNat then (fixedMetadata g.config.producerId sequence)[i]?
      else none := by
  split_ifs with hfits
  · rw [payloadAt, List.append_assoc, List.getElem?_append_left (by simp; omega),
      List.getElem?_take_of_lt hfits]
  · exact List.getElem?_eq_none (by simp; omega)

/-- The time stamp in a payload. -/
theorem payloadAt_clock (sequence now : UInt64) {i : ℕ} (hi : i < 8)
    (hfits : 16 + i < g.config.payloadSize.toNat) :
    (g.payloadAt engine sequence now)[16 + i]? = (valueBytes now)[i]? := by
  have hfront : ((fixedMetadata g.config.producerId sequence).take
      g.config.payloadSize.toNat).length = 16 := by
    simp
    omega
  rw [payloadAt, List.append_assoc, List.getElem?_append_right (by omega), hfront,
    Nat.add_sub_cancel_left, List.getElem?_append_left (by simp; omega),
    List.getElem?_take_of_lt (by omega)]

/-- The rest of a payload, behind the time stamp, is drawn. -/
theorem payloadAt_back (sequence now : UInt64) {i : ℕ} (hi : 24 ≤ i) :
    (g.payloadAt engine sequence now)[i]? =
      (fill engine (g.config.payloadSize.toNat - 24) g.rng).1[i - 24]? := by
  by_cases hfits : 24 ≤ g.config.payloadSize.toNat
  · have hfront : ((fixedMetadata g.config.producerId sequence).take g.config.payloadSize.toNat ++
        (valueBytes now).take (g.config.payloadSize.toNat - 16)).length = 24 := by
      simp
      omega
    rw [payloadAt, List.getElem?_append_right (by omega), hfront]
  · rw [List.getElem?_eq_none (by simp; omega), List.getElem?_eq_none (by simp; omega)]

/-- Two calls of one generator at different times agree, and leave the same generator. -/
theorem next_agree (g : EventGenerator R) (sequence now now' : UInt64) :
    ResultsAgree (g.next engine sequence now).1 (g.next engine sequence now').1 ∧
      (g.next engine sequence now).2 = (g.next engine sequence now').2 := by
  by_cases hsize : g.config.payloadSize > vectorMaxSize
  · rw [next, next, if_pos hsize, if_pos hsize]
    exact ⟨rfl, rfl⟩
  · rw [next_eq engine hsize, next_eq engine hsize]
    refine ⟨⟨rfl, rfl, rfl, rfl, ?_, ?_, ?_, ?_⟩, rfl⟩
    · simp
    · rintro i (hfront | hback)
      · rw [payloadAt_front engine _ _ hfront, payloadAt_front engine _ _ hfront]
      · rw [payloadAt_back engine _ _ hback, payloadAt_back engine _ _ hback]
    · intro i hi hfits
      exact payloadAt_clock engine _ _ hi (by simpa using hfits)
    · intro i hi hfits
      exact payloadAt_clock engine _ _ hi (by simpa using hfits)

/-- **Synthetic events are reproducible.** Two generators with one configuration, called with the
same sequence numbers, return the same events except for what the clock has put into them, and their
engines stay aligned, for every engine, every payload size and every two clocks. -/
theorem run_reproducible (config : GeneratorConfig) (sequences : List UInt64)
    (clock clock' : ℕ → UInt64) :
    List.Forall₂ ResultsAgree ((new engine config).run engine clock sequences).1
      ((new engine config).run engine clock' sequences).1 ∧
    ((new engine config).run engine clock sequences).2 =
      ((new engine config).run engine clock' sequences).2 := by
  generalize new engine config = g
  induction sequences generalizing g clock clock' with
  | nil => exact ⟨.nil, rfl⟩
  | cons sequence sequences ih =>
    obtain ⟨hresult, hleft⟩ := next_agree engine g sequence (clock 0) (clock' 0)
    obtain ⟨hrest, hfinal⟩ := ih (fun k => clock (k + 1)) (fun k => clock' (k + 1))
      (g.next engine sequence (clock 0)).2
    simp only [run]
    rw [← hleft]
    exact ⟨.cons hresult hrest, hfinal⟩

/-! ## A payload that depends on the clock -/

/-- An engine that counts. -/
def countingEngine : RandomEngine UInt64 := { seed := id, draw := fun state => (state, state + 1) }

def stampedConfig : GeneratorConfig := { payloadSize := 24 }

/-- With room for the time stamp, two clocks give two payloads. -/
theorem payload_depends_on_clock :
    ∃ a b, ((new countingEngine stampedConfig).run countingEngine (fun _ => 0) [0]).1 = [.ok a] ∧
      ((new countingEngine stampedConfig).run countingEngine (fun _ => 1) [0]).1 = [.ok b] ∧
      a.payload ≠ b.payload := by
  have hsize : ¬ (new countingEngine stampedConfig).config.payloadSize > vectorMaxSize := by decide
  simp only [run, next_eq countingEngine hsize]
  refine ⟨_, _, rfl, rfl, ?_⟩
  intro hsame
  have hbyte := congrArg (fun payload => payload[16 + 0]?) hsame
  simp only [payloadAt_clock countingEngine (g := new countingEngine stampedConfig) 0 _
    (show 0 < 8 by omega) (by decide)] at hbyte
  exact absurd hbyte (by decide)

end EventGenerator

end Hpblr
