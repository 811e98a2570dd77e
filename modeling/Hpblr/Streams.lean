import Mathlib.Data.List.Basic

/-!
# File streams

The two file streams the log code uses. An output stream has a buffer and runs against a device, which
settles the fate of each operation on the file; an input stream runs over the bytes of a file, which
end either with the end of the file or with a fault of the device.
-/

namespace Hpblr

/-- What an output stream meets: what the file system does to its coming operations on the file, in
their order, and how many bytes the buffer of the stream holds. -/
structure Device where
  /-- `none` carries the operation out, and `some k` lets it fail after it has stored `k` bytes. -/
  fate : ℕ → Option ℕ
  bufferSize : ℕ := 8191

namespace Device

instance : CoeFun Device (fun _ => ℕ → Option ℕ) := ⟨fate⟩

/-- The device after some operations. -/
def after (device : Device) (operations : ℕ) : Device :=
  { device with fate := fun n => device (n + operations) }

/-- The device after one operation. -/
def next (device : Device) : Device := device.after 1

/-- A device that carries out every operation. -/
def Healthy (device : Device) : Prop := ∀ n, device n = none

theorem Healthy.next {device : Device} (h : device.Healthy) : device.next.Healthy :=
  fun n => h (n + 1)

/-- The device that carries out every operation. -/
def reliable : Device := { fate := fun _ => none }

theorem reliable_healthy : reliable.Healthy := fun _ => rfl

/-- The device on which one operation fails, after it has stored `k` bytes. -/
def failingAt (operation k : ℕ) : Device :=
  { fate := fun n => if n = operation then some k else none }

/-- The device that carries out so many operations, and then stores nothing more. -/
def lasting (operations : ℕ) : Device :=
  { fate := fun n => if n < operations then none else some 0 }

/-- The device on which a file can be created, but that has no room for a byte. -/
def full : Device := lasting 1

end Device

/-- `std::ofstream`: what the file holds, what waits in the buffer of the stream, and whether the
stream has failed. -/
structure OFStream where
  /-- The bytes stored in the file. -/
  content : List UInt8
  /-- The bytes in the buffer of the stream. -/
  pending : List UInt8 := []
  /-- `!out`: badbit or failbit is set. -/
  failed : Bool
  device : Device

namespace OFStream

/-- Opening with `std::ios::trunc`. -/
def «open» (device : Device) : OFStream :=
  { content := [], failed := (device 0).isSome, device := device.next }

/-- The bytes that the stream has taken: those in the file and those in its buffer. -/
def received (out : OFStream) : List UInt8 := out.content ++ out.pending

/-- The buffer of the stream has room for these bytes. -/
def Keeps (out : OFStream) (data : List UInt8) : Prop :=
  out.pending.length + data.length ≤ out.device.bufferSize

instance (out : OFStream) (data : List UInt8) : Decidable (out.Keeps data) := by
  unfold Keeps
  infer_instance

/-- One operation on the file: what waits in the buffer goes to the file, and these bytes behind it.
What a failed operation has not stored is lost. -/
def transfer (out : OFStream) (data : List UInt8) : OFStream :=
  match out.device 0 with
  | none =>
    { out with
      content := out.content ++ (out.pending ++ data), pending := [], device := out.device.next }
  | some k =>
    { content := out.content ++ (out.pending ++ data).take k, pending := [], failed := true,
      device := out.device.next }

/-- `write`. Bytes for which the buffer has room stay there. A stream that has failed takes nothing
more. -/
def write (out : OFStream) (data : List UInt8) : OFStream :=
  if out.failed then out
  else if out.Keeps data then { out with pending := out.pending ++ data }
  else out.transfer data

/-- `flush` and `close`: the buffer goes to the file. -/
def sync (out : OFStream) : OFStream := if out.failed then out else out.transfer []

/-- The destructor closes the file. A stream that has failed stores nothing more. -/
def destroy (out : OFStream) : OFStream := out.sync

/-- What the device does in a write of these bytes. -/
def fate (out : OFStream) (data : List UInt8) : Option ℕ :=
  if out.Keeps data then none else out.device 0

/-! ## What an operation leaves -/

theorem transfer_none {out : OFStream} (hdevice : out.device 0 = none) (data : List UInt8) :
    (out.transfer data).failed = out.failed ∧ (out.transfer data).pending = [] ∧
      (out.transfer data).content = out.received ++ data := by
  unfold transfer
  rw [hdevice]
  exact ⟨rfl, rfl, (List.append_assoc ..).symm⟩

theorem transfer_some {out : OFStream} {k : ℕ} (hdevice : out.device 0 = some k)
    (data : List UInt8) :
    (out.transfer data).failed = true ∧ (out.transfer data).pending = [] ∧
      (out.transfer data).content = out.content ++ (out.pending ++ data).take k := by
  unfold transfer
  rw [hdevice]
  exact ⟨rfl, rfl, rfl⟩

theorem transfer_device (out : OFStream) (data : List UInt8) :
    (out.transfer data).device = out.device.next := by
  unfold transfer
  split <;> rfl

/-- Nothing is taken out of the file. -/
theorem content_transfer (out : OFStream) (data : List UInt8) :
    out.content <+: (out.transfer data).content := by
  unfold transfer
  split <;> exact List.prefix_append _ _

theorem content_write (out : OFStream) (data : List UInt8) :
    out.content <+: (out.write data).content := by
  unfold write
  split_ifs
  · exact List.prefix_rfl
  · exact List.prefix_rfl
  · exact out.content_transfer data

theorem content_sync (out : OFStream) : out.content <+: out.sync.content := by
  unfold sync
  split_ifs
  · exact List.prefix_rfl
  · exact out.content_transfer []

/-- A stream that has failed ignores a write. A good one takes the bytes, or what waits and a front
part of them is stored, and then it has failed. -/
theorem write_cases (out : OFStream) (data : List UInt8) :
    (out.failed = true ∧ out.write data = out) ∨
    (out.failed = false ∧ out.fate data = none ∧ (out.write data).failed = false ∧
      (out.write data).received = out.received ++ data) ∨
    (out.failed = false ∧ ∃ k, out.fate data = some k ∧ (out.write data).failed = true ∧
      (out.write data).content = out.content ++ (out.pending ++ data).take k) := by
  unfold write fate
  by_cases hfailed : out.failed = true
  · exact Or.inl ⟨hfailed, if_pos hfailed⟩
  · have hgood : out.failed = false := by simpa using hfailed
    rw [if_neg hfailed]
    by_cases hkeeps : out.Keeps data
    · rw [if_pos hkeeps, if_pos hkeeps]
      exact Or.inr (Or.inl ⟨hgood, rfl, hgood, (List.append_assoc ..).symm⟩)
    · rw [if_neg hkeeps, if_neg hkeeps]
      cases hdevice : out.device 0 with
      | none =>
        obtain ⟨hsame, hpending, hcontent⟩ := transfer_none hdevice data
        refine Or.inr (Or.inl ⟨hgood, rfl, hsame.trans hgood, ?_⟩)
        rw [received, hpending, hcontent, List.append_nil]
      | some k =>
        obtain ⟨hbad, _, hcontent⟩ := transfer_some hdevice data
        exact Or.inr (Or.inr ⟨hgood, k, rfl, hbad, hcontent⟩)

/-- A write that leaves the stream good has taken all its bytes on a good stream. -/
theorem write_good {out : OFStream} {data : List UInt8} (h : (out.write data).failed = false) :
    out.failed = false ∧ (out.write data).received = out.received ++ data := by
  rcases out.write_cases data with ⟨hfailed, hsame⟩ | ⟨hgood, _, _, hreceived⟩ | ⟨_, k, _, hbad, _⟩
  · rw [hsame, hfailed] at h
    cases h
  · exact ⟨hgood, hreceived⟩
  · rw [hbad] at h
    cases h

/-- Such a write has put its bytes into the buffer, or has emptied the buffer. -/
theorem write_kept {out : OFStream} {data : List UInt8} (h : (out.write data).failed = false) :
    (out.Keeps data ∧ out.write data = { out with pending := out.pending ++ data }) ∨
      (out.device 0 = none ∧ (out.write data).pending = []) := by
  have hfailed : ¬ out.failed = true := by simp [(write_good h).1]
  unfold write at h ⊢
  rw [if_neg hfailed] at h ⊢
  by_cases hkeeps : out.Keeps data
  · rw [if_pos hkeeps]
    exact Or.inl ⟨hkeeps, rfl⟩
  · rw [if_neg hkeeps] at h ⊢
    cases hdevice : out.device 0 with
    | none => exact Or.inr ⟨rfl, (transfer_none hdevice data).2.1⟩
    | some k => exact absurd (h.symm.trans (transfer_some hdevice data).1) Bool.false_ne_true

/-- What waits still has room in the buffer. -/
theorem room_write {out : OFStream} {data : List UInt8} (h : (out.write data).failed = false) :
    (out.write data).pending.length ≤ (out.write data).device.bufferSize := by
  rcases write_kept h with ⟨hkeeps, hwrite⟩ | ⟨_, hempty⟩
  · rw [hwrite]
    simpa [Keeps] using hkeeps
  · simp [hempty]

/-- A device that fails in a write fails in its next operation. -/
theorem device_of_fate {out : OFStream} {data : List UInt8} {k : ℕ}
    (h : out.fate data = some k) : out.device 0 = some k := by
  unfold fate at h
  split_ifs at h
  exact h

/-- Synchronizing a good stream stores what waits in the buffer, or a front part of it, and then the
stream has failed. -/
theorem sync_cases {out : OFStream} (hgood : out.failed = false) :
    (out.device 0 = none ∧ out.sync.failed = false ∧ out.sync.pending = [] ∧
      out.sync.content = out.received) ∨
    (∃ k, out.device 0 = some k ∧ out.sync.failed = true ∧
      out.sync.content = out.content ++ out.pending.take k) := by
  unfold sync
  rw [hgood, if_neg Bool.false_ne_true]
  cases hdevice : out.device 0 with
  | none =>
    obtain ⟨hsame, hpending, hcontent⟩ := transfer_none hdevice []
    rw [List.append_nil] at hcontent
    exact Or.inl ⟨rfl, hsame.trans hgood, hpending, hcontent⟩
  | some k =>
    obtain ⟨hbad, _, hcontent⟩ := transfer_some hdevice []
    rw [List.append_nil] at hcontent
    exact Or.inr ⟨k, rfl, hbad, hcontent⟩

/-- A stream that is good after it was synchronized was good before, and its buffer is empty. -/
theorem sync_good {out : OFStream} (h : out.sync.failed = false) :
    out.failed = false ∧ out.sync.pending = [] ∧ out.sync.content = out.received := by
  by_cases hfailed : out.failed = true
  · rw [sync, if_pos hfailed, hfailed] at h
    cases h
  · have hgood : out.failed = false := by simpa using hfailed
    rcases sync_cases hgood with ⟨_, _, hpending, hcontent⟩ | ⟨k, _, hbad, _⟩
    · exact ⟨hgood, hpending, hcontent⟩
    · rw [hbad] at h
      cases h

theorem received_sync {out : OFStream} (h : out.sync.failed = false) :
    out.sync.received = out.received := by
  obtain ⟨_, hpending, hcontent⟩ := sync_good h
  rw [received, hpending, hcontent, List.append_nil]

/-! ## Devices that do not fail -/

/-- A stream that is good and whose device carries out every operation. -/
def Healthy (out : OFStream) : Prop := out.failed = false ∧ out.device.Healthy

theorem open_healthy {device : Device} (h : device.Healthy) : («open» device).Healthy :=
  ⟨by simp [«open», h 0], h.next⟩

theorem Healthy.transfer {out : OFStream} (h : out.Healthy) (data : List UInt8) :
    (out.transfer data).Healthy := by
  refine ⟨(transfer_none (h.2 0) data).1.trans h.1, ?_⟩
  rw [transfer_device]
  exact h.2.next

theorem Healthy.write {out : OFStream} (h : out.Healthy) (data : List UInt8) :
    (out.write data).Healthy := by
  unfold OFStream.write
  rw [h.1, if_neg Bool.false_ne_true]
  split
  · exact ⟨rfl, h.2⟩
  · exact h.transfer data

theorem Healthy.sync {out : OFStream} (h : out.Healthy) : out.sync.Healthy := by
  unfold OFStream.sync
  rw [h.1, if_neg Bool.false_ne_true]
  exact h.transfer []

end OFStream

/-- `std::ifstream`: the bytes not yet extracted, the state bits and `gcount()`. -/
structure IFStream where
  /-- The bytes of the file after the stream position. -/
  rest : List UInt8
  /-- Whether the device fails where `rest` ends, instead of the file ending there. -/
  fault : Bool := false
  eofbit : Bool := false
  failbit : Bool := false
  badbit : Bool := false
  gcount : ℕ := 0
  deriving DecidableEq

namespace IFStream

/-- A freshly opened file. -/
def ofBytes (file : List UInt8) : IFStream := { rest := file }

/-- `good()`. -/
def good (s : IFStream) : Bool := !s.eofbit && !s.failbit && !s.badbit

/-- `operator!`. -/
def fail (s : IFStream) : Bool := s.failbit || s.badbit

/-- `read` into a zero-filled buffer of `n` bytes: the buffer afterwards, and the stream. A stream
that is not good extracts nothing, and bytes before a fault of the device are not counted. -/
def read (s : IFStream) (n : ℕ) : List UInt8 × IFStream :=
  if s.good then
    if n ≤ s.rest.length then
      (s.rest.take n, { s with rest := s.rest.drop n, gcount := n })
    else
      let buffer := s.rest ++ List.replicate (n - s.rest.length) 0
      if s.fault then
        (buffer, { s with rest := [], gcount := 0, badbit := true })
      else
        (buffer, { s with rest := [], gcount := s.rest.length, eofbit := true, failbit := true })
  else
    (List.replicate n 0, { s with gcount := 0, failbit := true })

/-- A file whose device fails behind `position` bytes. -/
def failingAt (file : List UInt8) (position : ℕ) : IFStream :=
  { rest := file.take position, fault := true }

/-- A good stream positioned before `bytes`, after which the device fails if `fault` is set, and the
file ends otherwise. -/
structure Before (s : IFStream) (bytes : List UInt8) (fault : Bool) : Prop where
  rest : s.rest = bytes
  fault : s.fault = fault
  good : s.good = true

/-- A good stream positioned before `bytes`, after which the file ends. -/
structure At (s : IFStream) (bytes : List UInt8) : Prop where
  rest : s.rest = bytes
  fault : s.fault = false
  good : s.good = true

theorem before_false {s : IFStream} {bytes : List UInt8} : s.Before bytes false ↔ s.At bytes :=
  ⟨fun h => ⟨h.rest, h.fault, h.good⟩, fun h => ⟨h.rest, h.fault, h.good⟩⟩

theorem ofBytes_at (file : List UInt8) : (ofBytes file).At file := ⟨rfl, rfl, rfl⟩

theorem failingAt_before (file : List UInt8) (position : ℕ) :
    (failingAt file position).Before (file.take position) true := ⟨rfl, rfl, rfl⟩

/-- A read that the bytes ahead can satisfy. -/
theorem Before.read_append {s : IFStream} {front back : List UInt8} {fault : Bool}
    (h : s.Before (front ++ back) fault) :
    ∃ s', s.read front.length = (front, s') ∧ s'.Before back fault ∧ s'.gcount = front.length := by
  have hle : front.length ≤ s.rest.length := by simp [h.rest]
  refine ⟨{ s with rest := back, gcount := front.length }, ?_, ⟨rfl, h.fault, h.good⟩, rfl⟩
  unfold read
  rw [if_pos h.good, if_pos hle]
  simp [h.rest]

/-- A read that the file can satisfy. -/
theorem At.read_append {s : IFStream} {front back : List UInt8} (h : s.At (front ++ back)) :
    ∃ s', s.read front.length = (front, s') ∧ s'.At back ∧ s'.gcount = front.length := by
  obtain ⟨s', hread, hbefore, hcount⟩ := (before_false.mpr h).read_append
  exact ⟨s', hread, before_false.mp hbefore, hcount⟩

/-- A read that runs into the end of the file takes what there is and sets eofbit and failbit. -/
theorem At.read_short {s : IFStream} {bytes : List UInt8} {n : ℕ} (h : s.At bytes)
    (hn : bytes.length < n) :
    ∃ buffer s', s.read n = (buffer, s') ∧ s'.gcount = bytes.length ∧ s'.eofbit = true ∧
      s'.good = false := by
  have hlt : ¬ n ≤ s.rest.length := by simp [h.rest, hn]
  unfold read
  rw [if_pos h.good, if_neg hlt, h.fault, if_neg Bool.false_ne_true]
  exact ⟨_, _, rfl, by simp [h.rest], rfl, by simp [IFStream.good]⟩

/-- A read that runs into a fault of the device counts nothing and sets badbit alone. -/
theorem Before.read_fault {s : IFStream} {bytes : List UInt8} {n : ℕ} (h : s.Before bytes true)
    (hn : bytes.length < n) :
    ∃ buffer s', s.read n = (buffer, s') ∧ s'.gcount = 0 ∧ s'.eofbit = false ∧
      s'.badbit = true := by
  have hlt : ¬ n ≤ s.rest.length := by simp [h.rest, hn]
  have heof : s.eofbit = false := by
    have hgood := h.good
    simp only [IFStream.good, Bool.and_eq_true, Bool.not_eq_true'] at hgood
    exact hgood.1.1
  unfold read
  rw [if_pos h.good, if_neg hlt, h.fault, if_pos rfl]
  exact ⟨_, _, rfl, rfl, heof, rfl⟩

/-- A stream that is not good extracts nothing and stays so. -/
theorem read_of_not_good {s : IFStream} (h : s.good = false) (n : ℕ) :
    ∃ buffer s', s.read n = (buffer, s') ∧ s'.gcount = 0 ∧ s'.eofbit = s.eofbit ∧
      s'.good = false := by
  unfold read
  rw [h, if_neg Bool.false_ne_true]
  exact ⟨_, _, rfl, rfl, rfl, by simp [IFStream.good]⟩

end IFStream

end Hpblr
