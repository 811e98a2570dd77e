import Hpblr.BinaryLog.Batching
import Hpblr.Recorder.Crash

/-!
# How often the recorder uses the device

Whatever the threads do, the writer sees the calls of a client with one thread, which appends the
events that the queue hands out and flushes in the end. So the bounds on the operations of the stream
hold for the recorder: a device that carries out the few operations that the accepted events need
cannot make it fail.
-/

namespace Hpblr

variable {P : Type*} [DecidableEq P]

namespace BinaryLogWriter

/-- An exception of `append` on an event that fits comes from a stream that has failed. -/
theorem append_failed {w w' : BinaryLogWriter} {event : Event} {e : Exception}
    (hopen : w.closed = false) (hsmall : event.payload.length ≤ kMaxPayloadBytes)
    (h : w.append event = (.error e, w')) : w'.out.failed = true := by
  rw [append_eq hopen hsmall] at h
  by_contra hgood
  obtain ⟨_, hok, _⟩ := writeBufferIfNeeded_good h (by simpa using hgood)
  cases hok

/-- A client that only appends events that fit gets them all past the checks. -/
theorem passedEvents_map {events : List Event}
    (hfits : ∀ event ∈ events, event.payload.length ≤ kMaxPayloadBytes) (more : List WriterCall) :
    passedEvents (events.map .append ++ more) = events ++ passedEvents more := by
  induction events with
  | nil => rfl
  | cons event events ih =>
    have hsmall := hfits event List.mem_cons_self
    rw [List.map_cons, List.cons_append, passedEvents, if_neg hsmall.not_gt,
      ih fun e he => hfits e (List.mem_cons_of_mem event he), List.cons_append]

end BinaryLogWriter

namespace AsyncRecorder

open BinaryLogWriter

variable {s s₀ s' : AsyncRecorder P} {l : RecorderLabel P} {now : UInt64} {path : String}
  {queueCapacity : ℕ} {writerOptions : WriterOptions} {device : Device}
  {labels : List (RecorderLabel P)} {w₀ : BinaryLogWriter}

/-! ## The calls of the background thread -/

/-- The last call of the background thread on the writer, once it has made it: the one that failed,
or the final `flush`. -/
def finalCalls (s : AsyncRecorder P) : List WriterCall :=
  match s.failure with
  | some (.append event) => [.append event]
  | some .flush => [.flush]
  | none => if s.runAt = .ended then [.flush] else []

/-- The calls of the background thread on the writer so far. -/
def writerCalls (s : AsyncRecorder P) : List WriterCall :=
  s.appended.map .append ++ s.finalCalls

/-- What the background thread has made of the writer that the constructor has built. -/
structure Uses (s : AsyncRecorder P) (w₀ : BinaryLogWriter) : Prop where
  writer : s.writer = (w₀.run s.writerCalls).2
  failed : ∀ failure, s.failure = some failure → s.writer.out.failed = true ∨
    ∃ event, failure = .append event ∧ event.payload.length > kMaxPayloadBytes

omit [DecidableEq P] in
theorem writerCalls_none (hnone : s.failure = none) (hat : s.runAt ≠ .ended) :
    s.writerCalls = s.appended.map .append := by
  rw [writerCalls, finalCalls, hnone]
  simp only [if_neg hat, List.append_nil]

omit [DecidableEq P] in
/-- A step that leaves the writer alone. -/
theorem Uses.kept (huses : s.Uses w₀) (hwriter : s'.writer = s.writer)
    (happended : s'.appended = s.appended) (hfailure : s'.failure = s.failure)
    (hended : s.failure = none → (s'.runAt = .ended ↔ s.runAt = .ended)) : s'.Uses w₀ := by
  have hcalls : s'.writerCalls = s.writerCalls := by
    rw [writerCalls, writerCalls, happended, finalCalls, finalCalls, hfailure]
    cases hcase : s.failure with
    | none => simp only [hended hcase]
    | some failure => cases failure <;> rfl
  constructor
  · rw [hwriter, hcalls]
    exact huses.writer
  · rw [hwriter, hfailure]
    exact huses.failed

/-- Every step of the recorder is a call of that client, or leaves the writer alone. -/
theorem Uses.step (huses : s.Uses w₀) (hrecording : s.Recording now)
    (hopen : s.writer.closed = false) (h : RecorderMove s l s') : s'.Uses w₀ := by
  have hwriting := hrecording.writing
  -- Before a call on the writer, the appended events are all it has seen.
  have hbefore (hnone : s.failure = none) (hat : s.runAt ≠ .ended) (c : WriterCall) :
      (w₀.run (s.appended.map .append ++ [c])).2 = (s.writer.call c).2 := by
    have hcalls := huses.writer
    rw [writerCalls_none hnone hat] at hcalls
    rw [run_append, ← hcalls]
    rfl
  cases h with
  | @appends event writer _ hat happend =>
    have hnone := hwriting.failure_eq_none (by simp [hat])
    have hcall := hbefore hnone (by simp [hat]) (.append event)
    rw [call, happend] at hcall
    have hcalls := writerCalls_none (s := { s with
      writer := writer, runAt := .counting, appended := s.appended ++ [event] }) hnone (by simp)
    refine ⟨?_, fun failure hfailure => ?_⟩
    · rw [hcalls, List.map_append]
      exact hcall.symm
    · rw [hnone] at hfailure
      cases hfailure
  | @appendFails event e writer _ hat happend =>
    have hnone := hwriting.failure_eq_none (by simp [hat])
    have hcall := hbefore hnone (by simp [hat]) (.append event)
    rw [call, happend] at hcall
    refine ⟨hcall.symm, fun failure hfailure => ?_⟩
    obtain rfl := Option.some.inj hfailure
    by_cases hlarge : event.payload.length > kMaxPayloadBytes
    · exact Or.inr ⟨event, rfl, hlarge⟩
    · exact Or.inl (append_failed hopen (Nat.not_lt.mp hlarge) happend)
  | @flushes writer _ hat hflush =>
    have hnone := hwriting.failure_eq_none (by simp [hat])
    have hcall := hbefore hnone (by simp [hat]) .flush
    rw [call, hflush] at hcall
    refine ⟨?_, fun failure hfailure => ?_⟩
    · rw [writerCalls, finalCalls, hnone]
      exact hcall.symm
    · rw [hnone] at hfailure
      cases hfailure
  | @flushFails e writer _ hat hflush =>
    have hnone := hwriting.failure_eq_none (by simp [hat])
    have hcall := hbefore hnone (by simp [hat]) .flush
    rw [call, hflush] at hcall
    exact ⟨hcall.symm, fun failure _ => Or.inl (flush_failed hflush)⟩
  | closeReturns hat hresult =>
    obtain ⟨failure, hfailure⟩ := hwriting.exists_failure (Or.inr hat)
    exact huses.kept rfl rfl rfl (fun hnone => by rw [hfailure] at hnone; cases hnone)
  | popCalled hat | popReturns hat | popEnds hat | counts hat | setsError hat =>
    exact huses.kept rfl rfl rfl (fun _ => by simp [hat])
  | _ => exact ⟨huses.writer, huses.failed⟩

/-- In every reachable state the writer is what that client leaves. -/
theorem uses_of_run (hnew : AsyncRecorder.new path queueCapacity writerOptions device now = .ok s₀)
    (hrun : Transition.run step s₀ labels = some s) :
    ∃ w₀, BinaryLogWriter.new path writerOptions device now = .ok w₀ ∧ s.Uses w₀ := by
  obtain ⟨w₀, hwriter, rfl⟩ := AsyncRecorder.new_eq hnew
  have hstart : Uses (P := P) {
      writer := w₀
      queue := QueueState.new queueCapacity
      submitAt := fun _ => .outside } w₀ := ⟨rfl, fun failure hfailure => by cases hfailure⟩
  refine ⟨w₀, hwriter, (Transition.run_invariant
    (I := fun t => (∃ ls, Transition.run step _ ls = some t) ∧ t.Uses w₀)
    (fun {t t' l} h hstep => ?_) ⟨⟨[], rfl⟩, hstart⟩ hrun).2⟩
  obtain ⟨⟨ls, hls⟩, huses⟩ := h
  refine ⟨⟨ls ++ [l], Transition.run_append.mpr ⟨t, hls, Transition.run_cons.mpr ⟨t', hstep, rfl⟩⟩⟩, ?_⟩
  exact huses.step (recording_of_run hnew hls) (filed_of_run hnew hls).closed (step_move hstep)

/-! ## What they cost -/

omit [DecidableEq P] in
/-- The calls that get past the checks are those on the events that the writer has taken in. -/
theorem passedEvents_writerCalls (hwriting : s.Writing now) :
    passedEvents s.writerCalls = s.taken := by
  rw [writerCalls, passedEvents_map hwriting.fits, taken, finalCalls]
  congr 1
  split
  · next event hfailure =>
    rw [hfailure]
    rfl
  · next hfailure =>
    rw [hfailure]
    rfl
  · next hfailure =>
    rw [hfailure]
    split
    · rfl
    · rfl

omit [DecidableEq P] in
/-- Only the final `flush` asks for a write, and it synchronizes the stream once. -/
theorem forced_writerCalls (s : AsyncRecorder P) :
    forcedWrites s.writerCalls ≤ 1 ∧ syncCount s.writerCalls ≤ 1 := by
  have happends (events : List Event) :
      forcedWrites (events.map .append) = 0 ∧ syncCount (events.map .append) = 0 := by
    simp [forcedWrites, syncCount, List.countP_map, Function.comp_def]
  obtain ⟨hforced, hsync⟩ := happends s.appended
  rw [writerCalls, forcedWrites_append, syncCount_append, hforced, hsync, finalCalls]
  split
  · exact ⟨Nat.zero_le 1, Nat.zero_le 1⟩
  · exact ⟨Nat.le_refl 1, Nat.le_refl 1⟩
  · split
    · exact ⟨Nat.le_refl 1, Nat.le_refl 1⟩
    · exact ⟨Nat.zero_le 1, Nat.zero_le 1⟩

/-- The event on which the writer failed is an accepted one. -/
theorem lost_accepted (hrecording : s.Recording now) {event : Event}
    (hfailure : s.failure = some (.append event)) : event ∈ s.queue.accepted.map Prod.snd := by
  rw [hrecording.queue.channel.fifo, hrecording.writing.handed, hfailure]
  simp [lost]

/-- The calls that get past the checks are on events from the front of the accepted ones. -/
theorem passedEvents_front (hrecording : s.Recording now) :
    passedEvents s.writerCalls <+: s.queue.accepted.map Prod.snd := by
  rw [passedEvents_writerCalls hrecording.writing]
  exact taken_front hrecording

/-- With a device that carries out the operations that the accepted events need, the writer can have
failed only on an event that is too large. -/
theorem failure_of_device
    (hnew : AsyncRecorder.new path queueCapacity writerOptions device now = .ok s₀)
    (hrun : Transition.run step s₀ labels = some s)
    (hdevice : ∀ n < 4 + eventWrites writerOptions (s.queue.accepted.map Prod.snd),
      device n = none) :
    s.writer.out.failed = false ∧ ∀ failure, s.failure = some failure →
      ∃ event ∈ s.queue.accepted.map Prod.snd,
        failure = .append event ∧ event.payload.length > kMaxPayloadBytes := by
  have hrecording := recording_of_run hnew hrun
  obtain ⟨w₀, hw₀, huses⟩ := uses_of_run hnew hrun
  have hgood : s.writer.out.failed = false := by
    rw [huses.writer]
    have hmono : eventWrites writerOptions (passedEvents s.writerCalls) ≤
        eventWrites writerOptions (s.queue.accepted.map Prod.snd) :=
      eventWrites_mono (passedEvents_front hrecording)
    obtain ⟨hforced, hsync⟩ := s.forced_writerCalls
    exact good_of_device hw₀ fun n hn => hdevice n (by omega)
  refine ⟨hgood, fun failure hfailure => ?_⟩
  rcases huses.failed failure hfailure with hfailed | ⟨event, rfl, hlarge⟩
  · rw [hgood] at hfailed
    cases hfailed
  · exact ⟨event, lost_accepted hrecording hfailure, rfl, hlarge⟩

/-- **The device operations of a recording.** In every reachable state, whatever the threads have
done, the writer is what a client with one thread leaves that has appended events from the front of
the accepted ones, has flushed at most once, and has stopped at the first exception. If the device
carries out four operations, and one more for each threshold of bytes in the records of the accepted
events (or for each event with a flush on each event), the stream has not failed, and the writer can
have failed only on an accepted event that is too large. -/
theorem device_suffices (hnew : AsyncRecorder.new path queueCapacity writerOptions device now = .ok s₀)
    (hrun : Transition.run step s₀ labels = some s) :
    (∃ w₀, BinaryLogWriter.new path writerOptions device now = .ok w₀ ∧
      s.writer = (w₀.run s.writerCalls).2 ∧
      passedEvents s.writerCalls <+: s.queue.accepted.map Prod.snd) ∧
    ((∀ n < 4 + eventWrites writerOptions (s.queue.accepted.map Prod.snd), device n = none) →
      s.writer.out.failed = false ∧ ∀ failure, s.failure = some failure →
        ∃ event ∈ s.queue.accepted.map Prod.snd,
          failure = .append event ∧ event.payload.length > kMaxPayloadBytes) := by
  obtain ⟨w₀, hw₀, huses⟩ := uses_of_run hnew hrun
  exact ⟨⟨w₀, hw₀, huses.writer, passedEvents_front (recording_of_run hnew hrun)⟩,
    failure_of_device hnew hrun⟩

/-- A device that carries out four operations is enough for one short event. -/
theorem device_suffices_one : ∃ (s₀ s : AsyncRecorder Unit),
    AsyncRecorder.new "log" 8 {} (.lasting 4) 0 = .ok s₀ ∧
    Transition.run step s₀ lateSubmit = some s ∧ s.queue.accepted.length = 1 ∧
    s.writer.out.failed = false := by
  obtain ⟨s₀, s, hnew, hrun, haccepted, hwrites⟩ :=
    exists_run "log" 8 {} (.lasting 4) 0 lateSubmit
      (fun s => s.queue.accepted.length = 1 ∧
        eventWrites {} (s.queue.accepted.map Prod.snd) = 0) (by decide +kernel)
  have hdevice : ∀ n < 4 + eventWrites {} (s.queue.accepted.map Prod.snd),
      Device.lasting 4 n = none := by
    intro n hn
    rw [hwrites] at hn
    exact if_pos hn
  exact ⟨s₀, s, hnew, hrun, haccepted, ((device_suffices hnew hrun).2 hdevice).1⟩

end AsyncRecorder

end Hpblr
