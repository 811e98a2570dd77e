import Hpblr.Text

/-!
# A buffered output file

The stream of an exported file. Insertions go into the buffer of the stream, a full buffer goes to
the device, and what is left in the buffer leaves when the stream is destroyed. The device may start
to fail behind any number of bytes, and what it took until then stays in the file.
-/

namespace Hpblr

/-- What a stream meets when it opens a file for writing. -/
structure OutputDevice where
  /-- Whether the file can be opened. -/
  opens : Bool := true
  /-- How many bytes the device takes before it starts to fail, if it ever does. -/
  room : Option ℕ := none
  /-- The size of the buffer of the stream. -/
  bufferSize : ℕ
  deriving DecidableEq

/-- `std::ofstream`, with its buffer. -/
structure OutputFile where
  content : Text := []
  pending : Text := []
  room : Option ℕ
  bufferSize : ℕ
  failed : Bool := false
  deriving DecidableEq

/-- What a device stores of a text. -/
def stored (room : Option ℕ) (text : Text) : Text :=
  match room with
  | none => text
  | some room => text.take room

/-- A device stores the whole text exactly if it has room for it. -/
theorem stored_eq_iff {room : Option ℕ} {text : Text} :
    stored room text = text ↔ ∀ k ∈ room, text.length ≤ k := by
  cases room with
  | none => simp [stored]
  | some k =>
    simp only [stored, Option.mem_some_iff, forall_eq']
    constructor
    · intro h
      have hlength := congrArg List.length h
      rw [List.length_take] at hlength
      omega
    · exact List.take_of_length_le

/-- A device stores a beginning of a text. -/
theorem stored_front (room : Option ℕ) (text : Text) : stored room text <+: text := by
  cases room with
  | none => exact List.prefix_rfl
  | some k => exact List.take_prefix k text

namespace OutputFile

/-- An opened file. -/
def create (device : OutputDevice) : OutputFile :=
  { room := device.room, bufferSize := device.bufferSize }

/-- The buffer goes to the device, which takes as much of it as it has room for. -/
def drain (out : OutputFile) : OutputFile :=
  match out.room with
  | none => { out with content := out.content ++ out.pending, pending := [] }
  | some room =>
    { out with
      content := out.content ++ out.pending.take room
      pending := []
      room := some (room - out.pending.length)
      failed := out.failed || decide (room < out.pending.length) }

/-- A formatted insertion: a stream that has failed ignores it. -/
def insert (out : OutputFile) (text : Text) : OutputFile :=
  if out.failed then out
  else
    let out := { out with pending := out.pending ++ text }
    if out.pending.length > out.bufferSize then out.drain else out

/-- A stream that keeps nothing in its buffer still keeps nothing after an insertion. -/
theorem insert_unbuffered {out : OutputFile} (h : out.pending = [] ∧ out.bufferSize = 0)
    (text : Text) : (out.insert text).pending = [] ∧ (out.insert text).bufferSize = 0 := by
  obtain ⟨hpending, hsize⟩ := h
  unfold insert drain
  cases text <;> cases out.room <;> by_cases hfailed : out.failed <;>
    simp [hpending, hsize, hfailed]

instance : OStream OutputFile := ⟨insert⟩

/-- The destructor. -/
def destroy (out : OutputFile) : OutputFile := out.drain

/-- The stream has been given `text` for a device with `room`: it has not failed and holds the text,
partly in its buffer, or it has failed and what the device takes of the text is in the file. -/
def Received (room : Option ℕ) (text : Text) (out : OutputFile) : Prop :=
  (out.failed = false ∧ out.content ++ out.pending = text ∧
    out.room = room.map (fun k => k - out.content.length) ∧ ∀ k ∈ room, out.content.length ≤ k) ∨
  (out.failed = true ∧ out.content = stored room text ∧ out.pending = [] ∧
    ∃ k, room = some k ∧ k < text.length)

theorem create_received (device : OutputDevice) : Received device.room [] (create device) := by
  left
  refine ⟨rfl, rfl, ?_, fun k _ => Nat.zero_le k⟩
  simp [create]

/-- Draining the buffer changes nothing about the text. -/
theorem Received.drain {room : Option ℕ} {text : Text} {out : OutputFile}
    (h : Received room text out) : Received room text out.drain ∧ out.drain.pending = [] := by
  rcases h with ⟨hgood, htext, hroom, hle⟩ | ⟨hfailed, hcontent, hpending, hover⟩
  · cases room with
    | none =>
      have hnone : out.room = none := hroom
      simp only [OutputFile.drain, hnone]
      exact ⟨Or.inl ⟨hgood, by simpa using htext, by simp, by simp⟩, trivial⟩
    | some k =>
      have hk : out.content.length ≤ k := hle k rfl
      have hleft : out.room = some (k - out.content.length) := hroom
      have hlength : out.content.length + out.pending.length = text.length := by
        rw [← htext, List.length_append]
      simp only [OutputFile.drain, hleft]
      refine ⟨?_, trivial⟩
      by_cases hfits : out.pending.length ≤ k - out.content.length
      · left
        refine ⟨by simp [hgood]; omega, ?_, ?_, ?_⟩
        · rw [List.take_of_length_le hfits, List.append_nil]
          exact htext
        · simp only [List.take_of_length_le hfits, List.length_append, Option.map_some]
          congr 1
          omega
        · intro j hj
          obtain rfl : k = j := by simpa using hj
          simp only [List.take_of_length_le hfits, List.length_append]
          omega
      · right
        refine ⟨by simp [hgood]; omega, ?_, rfl, k, rfl, by omega⟩
        rw [stored, ← htext, List.take_append, List.take_of_length_le hk]
  · refine ⟨Or.inr ⟨?_, ?_, ?_, hover⟩, ?_⟩
    all_goals
      unfold OutputFile.drain
      cases out.room <;> simp [hfailed, hcontent, hpending]

/-- A file whose stream has nothing in its buffer holds what the device stores of the text. -/
theorem Received.content_eq {room : Option ℕ} {text : Text} {out : OutputFile}
    (h : Received room text out) (hpending : out.pending = []) :
    out.content = stored room text := by
  rcases h with ⟨_, htext, _, hle⟩ | ⟨_, hcontent, _⟩
  · rw [hpending, List.append_nil] at htext
    rw [htext] at hle
    rw [stored_eq_iff.mpr hle, htext]
  · exact hcontent

/-- An insertion hands its text to the stream. -/
theorem Received.insert {room : Option ℕ} {text : Text} {out : OutputFile}
    (h : Received room text out) (more : Text) : Received room (text ++ more) (out.insert more) := by
  rcases h with ⟨hgood, htext, hroom, hle⟩ | ⟨hfailed, hcontent, hpending, k, hk, hover⟩
  · have hgrown : Received room (text ++ more) { out with pending := out.pending ++ more } :=
      Or.inl ⟨hgood, by rw [← htext, List.append_assoc], hroom, hle⟩
    unfold OutputFile.insert
    rw [if_neg (by simp [hgood])]
    simp only
    split
    · exact hgrown.drain.1
    · exact hgrown
  · unfold OutputFile.insert
    rw [hfailed, if_pos rfl]
    refine Or.inr ⟨hfailed, ?_, hpending, k, hk, ?_⟩
    · rw [hcontent, hk, stored, stored, List.take_append_of_le_length (by omega)]
    · rw [List.length_append]
      omega

/-- A stream that has failed misses nothing when it is given no more. -/
theorem Received.skip {room : Option ℕ} {text : Text} {out : OutputFile}
    (h : Received room text out) (hfailed : out.failed = true) (more : Text) :
    Received room (text ++ more) out := by
  have hinsert := h.insert more
  rw [OutputFile.insert, if_pos hfailed] at hinsert
  exact hinsert

theorem Received.insertAll {room : Option ℕ} {text : Text} {out : OutputFile}
    (h : Received room text out) (pieces : List Text) :
    Received room (text ++ pieces.flatten) (insertAll out pieces) := by
  induction pieces generalizing text out with
  | nil => simpa [Hpblr.insertAll] using h
  | cons piece pieces ih =>
    have htail := ih (h.insert piece)
    rw [List.append_assoc] at htail
    exact htail

/-- **What an output file holds in the end.** Whatever the size of the buffer and wherever the device
starts to fail, the file holds what the device has room for of the text that was inserted. -/
theorem content_destroy (device : OutputDevice) (pieces : List Text) :
    (insertAll (create device) pieces).destroy.content = stored device.room pieces.flatten := by
  have hreceived := (create_received device).insertAll pieces
  rw [List.nil_append] at hreceived
  obtain ⟨hdrained, hpending⟩ := hreceived.drain
  change (insertAll (create device) pieces).drain.content = _
  rcases hdrained with ⟨_, htext, _, hle⟩ | ⟨_, hcontent, _⟩
  · rw [hpending, List.append_nil] at htext
    rw [htext] at hle
    rw [stored_eq_iff.mpr hle, htext]
  · exact hcontent

end OutputFile

end Hpblr
