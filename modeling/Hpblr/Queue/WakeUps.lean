import Hpblr.Queue.Channel

/-!
# Wake-ups

No thread sleeps while it could go on and nobody is on the way to use the slot or element it waits
for: as long as the queue is open, the woken producers cover the free slots and the woken
consumers cover the stored elements; and closing the queue leaves nobody asleep.
-/

namespace Hpblr

variable {τ α : Type*} [DecidableEq τ] {s s' : QueueState τ α} {t : τ}

/-- The thread is in `push`. -/
def Activity.IsPush (a : Activity α) : Prop := ∃ value, a = .push value

namespace QueueState

/-- Who sleeps, and what the woken threads cover. -/
structure WakeUps (s : QueueState τ α) : Prop where
  producers : s.notFull.OnlyWaiters (fun t => (s.activity t).IsPush)
  consumers : s.notEmpty.OnlyWaiters (fun t => s.activity t = .pop)
  slots : s.closed = false → s.notFull.Covers (s.capacity - s.queue.length)
  elements : s.closed = false → s.notEmpty.Covers s.queue.length
  /-- In a closed queue a sleeping consumer is about to be notified. -/
  closedEmpty : s.closed = true →
    s.notEmpty.sleeping = ∅ ∨ ∃ t, s.activity t = .notifyNotEmpty
  /-- In a closed queue a sleeping producer is about to be notified. -/
  closedFull : s.closed = true →
    s.notFull.sleeping = ∅ ∨ ∃ t, s.activity t = .notifyNotEmpty ∨ s.activity t = .notifyNotFull
  notified : ∀ t, s.activity t = .notifyNotFull → s.notEmpty.sleeping = ∅
  closeReturned : s.closeReturned = true → s.notEmpty.sleeping = ∅ ∧ s.notFull.sleeping = ∅

omit [DecidableEq τ] in
theorem WakeUps.new (capacity : ℕ) : (QueueState.new capacity : QueueState τ α).WakeUps where
  producers := .empty _
  consumers := .empty _
  slots := fun _ => .empty _
  elements := fun _ => .empty _
  closedEmpty := fun h => by cases h
  closedFull := fun h => by cases h
  notified := fun _ h => by cases h
  closeReturned := fun h => by cases h

/-! ## One step -/

section Step

variable {p : Activity α → Prop} {f : τ → Activity α} {a : Activity α}

/-- A move of one thread says nothing about the others. -/
private theorem update_of_ne (u : τ) (hne : u ≠ t) (h : p (f u)) :
    p (Function.update f t a u) := by
  rwa [Function.update_of_ne hne]

/-- A move of a thread that does not satisfy `p` keeps those that do. -/
private theorem update_of_not (hnot : ¬ p (f t)) (u : τ) (h : p (f u)) :
    p (Function.update f t a u) := by
  apply update_of_ne u _ h
  rintro rfl
  exact hnot h

/-- A thread that is at some stage stays there when another thread moves. -/
private theorem exists_update (hnot : ¬ p (f t)) (h : ∃ u, p (f u)) :
    ∃ u, p (Function.update f t a u) := by
  obtain ⟨u, hu⟩ := h
  exact ⟨u, update_of_not hnot u hu⟩

variable {l : QueueLabel τ α}

private theorem producers_step (hwake : s.WakeUps) (h : QueueMove s l s') :
    s'.notFull.OnlyWaiters (fun t => (s'.activity t).IsPush) := by
  have hproducers := hwake.producers
  cases h with
  | call houtside =>
    refine hproducers.mono (update_of_not (p := Activity.IsPush) ?_)
    rintro ⟨value, hvalue⟩
    exact houtside (by rw [hvalue]; trivial)
  | wakeNotFull hasleep => exact hproducers.wake hasleep
  | wakeNotEmpty => exact hproducers
  | pushWaits hactivity hawake =>
    exact (hproducers.resume hawake (fun _ _ hu => hu)).wait ⟨_, hactivity⟩
      (Finset.notMem_erase _ _)
  | pushRefused _ hawake =>
    exact hproducers.resume hawake (update_of_ne (p := Activity.IsPush))
  | pushed _ hawake => exact hproducers.resume hawake (update_of_ne (p := Activity.IsPush))
  | popWaits => exact hproducers
  | popped hactivity _ _ hnotify =>
    refine (hproducers.notifyOne hnotify).mono (update_of_not (p := Activity.IsPush) ?_)
    simp [Activity.IsPush, hactivity]
  | notifiesNotFull hactivity =>
    refine hproducers.notifyAll.mono (update_of_not (p := Activity.IsPush) ?_)
    simp [Activity.IsPush, hactivity]
  | _ hactivity =>
    refine hproducers.mono (update_of_not (p := Activity.IsPush) ?_)
    simp [Activity.IsPush, hactivity]

private theorem consumers_step (hwake : s.WakeUps) (h : QueueMove s l s') :
    s'.notEmpty.OnlyWaiters (fun t => s'.activity t = .pop) := by
  have hconsumers := hwake.consumers
  cases h with
  | call houtside =>
    refine hconsumers.mono (update_of_not (p := fun a => a = .pop) ?_)
    intro hpop
    exact houtside (by rw [hpop]; trivial)
  | wakeNotFull => exact hconsumers
  | wakeNotEmpty hasleep => exact hconsumers.wake hasleep
  | pushWaits => exact hconsumers
  | pushed hactivity _ _ _ hnotify =>
    refine (hconsumers.notifyOne hnotify).mono (update_of_not (p := fun a => a = .pop) ?_)
    simp [hactivity]
  | tryPushed hactivity _ _ hnotify =>
    refine (hconsumers.notifyOne hnotify).mono (update_of_not (p := fun a => a = .pop) ?_)
    simp [hactivity]
  | popWaits hactivity hawake =>
    exact (hconsumers.resume hawake (fun _ _ hu => hu)).wait hactivity (Finset.notMem_erase _ _)
  | popDrained _ hawake =>
    exact hconsumers.resume hawake (update_of_ne (p := fun a => a = .pop))
  | popped _ hawake => exact hconsumers.resume hawake (update_of_ne (p := fun a => a = .pop))
  | notifiesNotEmpty hactivity =>
    refine hconsumers.notifyAll.mono (update_of_not (p := fun a => a = .pop) ?_)
    simp [hactivity]
  | _ hactivity =>
    refine hconsumers.mono (update_of_not (p := fun a => a = .pop) ?_)
    simp [hactivity]

private theorem slots_step (hwake : s.WakeUps) (h : QueueMove s l s') (hopen' : s'.closed = false) :
    s'.notFull.Covers (s'.capacity - s'.queue.length) := by
  have hslots := hwake.slots
  cases h with
  | wakeNotFull hasleep =>
    have hdisjoint := hwake.producers.disjoint
    exact ((hslots hopen').wake hasleep (Finset.disjoint_left.mp hdisjoint hasleep)).mono
      (Nat.le_succ _)
  | pushWaits _ _ _ hfull =>
    have hnone : s.capacity - s.queue.length = 0 := by omega
    simp only [hnone]
    exact .zero _
  | pushRefused _ _ hclosed => exact absurd (hclosed.symm.trans hopen') (by simp)
  | pushed =>
    refine ((hslots hopen').resume _).mono ?_
    simp only [List.length_append, List.length_singleton]
    omega
  | tryPushed =>
    refine (hslots hopen').mono ?_
    simp only [List.length_append, List.length_singleton]
    omega
  | popped _ _ hqueue hnotify =>
    refine ((hslots hopen').notifyOne hwake.producers hnotify).mono ?_
    rw [hqueue, List.length_cons]
    dsimp only
    omega
  | closes => cases hopen'
  | notifiesNotFull => exact .notifyAll _ _
  | _ => exact hslots hopen'

private theorem elements_step (hwake : s.WakeUps) (h : QueueMove s l s')
    (hopen' : s'.closed = false) : s'.notEmpty.Covers s'.queue.length := by
  have helements := hwake.elements
  cases h with
  | wakeNotEmpty hasleep =>
    have hdisjoint := hwake.consumers.disjoint
    exact ((helements hopen').wake hasleep (Finset.disjoint_left.mp hdisjoint hasleep)).mono
      (Nat.le_succ _)
  | pushed _ _ _ _ hnotify =>
    simpa using (helements hopen').notifyOne hwake.consumers hnotify
  | tryPushed _ _ _ hnotify =>
    simpa using (helements hopen').notifyOne hwake.consumers hnotify
  | popWaits _ _ _ hempty =>
    simp only [hempty, List.length_nil]
    exact .zero _
  | popDrained _ _ hclosed => exact absurd (hclosed.symm.trans hopen') (by simp)
  | popped _ _ hqueue =>
    refine ((helements hopen').resume _).mono ?_
    rw [hqueue, List.length_cons]
    exact le_rfl
  | closes => cases hopen'
  | notifiesNotEmpty => exact .notifyAll _ _
  | _ => exact helements hopen'

/-- Nobody goes to sleep on a closed queue. -/
theorem sleeping_of_closed (h : QueueMove s l s') (hclosed : s.closed = true) :
    s'.notEmpty.sleeping ⊆ s.notEmpty.sleeping ∧ s'.notFull.sleeping ⊆ s.notFull.sleeping := by
  cases h with
  | wakeNotFull => exact ⟨subset_rfl, Finset.erase_subset _ _⟩
  | wakeNotEmpty => exact ⟨Finset.erase_subset _ _, subset_rfl⟩
  | pushWaits _ _ hopen => exact absurd (hclosed.symm.trans hopen) (by simp)
  | pushed _ _ hopen => exact absurd (hclosed.symm.trans hopen) (by simp)
  | tryPushed _ hopen => exact absurd (hclosed.symm.trans hopen) (by simp)
  | popWaits _ _ hopen => exact absurd (hclosed.symm.trans hopen) (by simp)
  | popped _ _ _ hnotify =>
    refine ⟨subset_rfl, ?_⟩
    rcases CondVar.notifyOne_cases hnotify with ⟨_, rfl⟩ | ⟨u, _, rfl⟩
    · exact subset_rfl
    · exact Finset.erase_subset _ _
  | notifiesNotEmpty => exact ⟨Finset.empty_subset _, subset_rfl⟩
  | notifiesNotFull => exact ⟨subset_rfl, Finset.empty_subset _⟩
  | _ => exact ⟨subset_rfl, subset_rfl⟩

omit [DecidableEq τ] in
/-- A set of sleepers that is empty stays so on a closed queue. -/
private theorem no_sleepers {x y : Finset τ} (hsub : x ⊆ y) (h : y = ∅) : x = ∅ :=
  Finset.subset_empty.mp (h ▸ hsub)

private theorem closedEmpty_step (hwake : s.WakeUps) (h : QueueMove s l s')
    (hclosed' : s'.closed = true) :
    s'.notEmpty.sleeping = ∅ ∨ ∃ t, s'.activity t = .notifyNotEmpty := by
  by_cases hclosed : s.closed = true
  · rcases hwake.closedEmpty hclosed with hnone | hnotifier
    · exact Or.inl (no_sleepers (sleeping_of_closed h hclosed).1 hnone)
    · cases h with
      | call houtside =>
        refine Or.inr (exists_update (p := fun a => a = .notifyNotEmpty) ?_ hnotifier)
        intro hstage
        exact houtside (by rw [hstage]; trivial)
      | wakeNotFull => exact Or.inr hnotifier
      | wakeNotEmpty => exact Or.inr hnotifier
      | pushWaits => exact Or.inr hnotifier
      | popWaits => exact Or.inr hnotifier
      | closes => exact Or.inr ⟨_, Function.update_self ..⟩
      | notifiesNotEmpty => exact Or.inl rfl
      | _ hactivity =>
        exact Or.inr (exists_update (p := fun a => a = .notifyNotEmpty) (by simp [hactivity])
          hnotifier)
  · cases h with
    | closes => exact Or.inr ⟨_, Function.update_self ..⟩
    | _ => exact absurd hclosed' hclosed

private theorem closedFull_step (hwake : s.WakeUps) (h : QueueMove s l s')
    (hclosed' : s'.closed = true) :
    s'.notFull.sleeping = ∅ ∨
      ∃ t, s'.activity t = .notifyNotEmpty ∨ s'.activity t = .notifyNotFull := by
  by_cases hclosed : s.closed = true
  · rcases hwake.closedFull hclosed with hnone | hnotifier
    · exact Or.inl (no_sleepers (sleeping_of_closed h hclosed).2 hnone)
    · cases h with
      | call houtside =>
        refine Or.inr (exists_update (p := fun a => a = .notifyNotEmpty ∨ a = .notifyNotFull) ?_
          hnotifier)
        rintro (hstage | hstage)
        · exact houtside (by rw [hstage]; trivial)
        · exact houtside (by rw [hstage]; trivial)
      | wakeNotFull => exact Or.inr hnotifier
      | wakeNotEmpty => exact Or.inr hnotifier
      | pushWaits => exact Or.inr hnotifier
      | popWaits => exact Or.inr hnotifier
      | closes => exact Or.inr ⟨_, Or.inl (Function.update_self ..)⟩
      | notifiesNotEmpty => exact Or.inr ⟨_, Or.inr (Function.update_self ..)⟩
      | notifiesNotFull => exact Or.inl rfl
      | _ hactivity =>
        exact Or.inr (exists_update (p := fun a => a = .notifyNotEmpty ∨ a = .notifyNotFull)
          (by simp [hactivity]) hnotifier)
  · cases h with
    | closes => exact Or.inr ⟨_, Or.inl (Function.update_self ..)⟩
    | _ => exact absurd hclosed' hclosed

private theorem notified_step (hwake : s.WakeUps) (hchannel : s.Channel) (h : QueueMove s l s')
    (u : τ) (hu : s'.activity u = .notifyNotFull) : s'.notEmpty.sleeping = ∅ := by
  by_cases hbefore : s.activity u = .notifyNotFull
  · have hclosed := hchannel.closing u (Or.inr (Or.inl hbefore))
    exact no_sleepers (sleeping_of_closed h hclosed).1 (hwake.notified u hbefore)
  · cases h with
    | notifiesNotEmpty => rfl
    | wakeNotFull => exact absurd hu hbefore
    | wakeNotEmpty => exact absurd hu hbefore
    | pushWaits => exact absurd hu hbefore
    | popWaits => exact absurd hu hbefore
    | call =>
      rename_i c _
      rcases update_eq hu with hentry | hsame
      · cases c <;> cases hentry
      · exact absurd hsame hbefore
    | _ => exact absurd ((update_eq hu).resolve_left (by simp)) hbefore

private theorem closeReturned_step (hwake : s.WakeUps) (hchannel : s.Channel)
    (h : QueueMove s l s') (hreturned : s'.closeReturned = true) :
    s'.notEmpty.sleeping = ∅ ∧ s'.notFull.sleeping = ∅ := by
  by_cases hbefore : s.closeReturned = true
  · obtain ⟨hempty, hfull⟩ := hwake.closeReturned hbefore
    obtain ⟨hsubEmpty, hsubFull⟩ := sleeping_of_closed h (hchannel.closeReturned hbefore)
    exact ⟨no_sleepers hsubEmpty hempty, no_sleepers hsubFull hfull⟩
  · cases h with
    | notifiesNotFull hstage => exact ⟨hwake.notified _ hstage, rfl⟩
    | _ => exact absurd hreturned hbefore

end Step

/-- The wake-up invariant is kept by every step. -/
theorem WakeUps.step {l : QueueLabel τ α} (hwake : s.WakeUps) (hchannel : s.Channel)
    (h : QueueMove s l s') : s'.WakeUps where
  producers := producers_step hwake h
  consumers := consumers_step hwake h
  slots := slots_step hwake h
  elements := elements_step hwake h
  closedEmpty := closedEmpty_step hwake h
  closedFull := closedFull_step hwake h
  notified := notified_step hwake hchannel h
  closeReturned := closeReturned_step hwake hchannel h

/-- All that is known of a queue in every reachable state. -/
structure Sound (s : QueueState τ α) : Prop where
  channel : s.Channel
  wakeUps : s.WakeUps

omit [DecidableEq τ] in
theorem Sound.new (capacity : ℕ) : (QueueState.new capacity : QueueState τ α).Sound :=
  ⟨.new capacity, .new capacity⟩

theorem Sound.step {l : QueueLabel τ α} (hsound : s.Sound) (h : s.step l = some s') : s'.Sound :=
  ⟨hsound.channel.step (step_move h), hsound.wakeUps.step hsound.channel (step_move h)⟩

/-- Every state that a run from a new queue reaches is sound. -/
theorem sound_of_run {capacity : ℕ} {labels : List (QueueLabel τ α)}
    (h : Transition.run step (QueueState.new capacity) labels = some s) : s.Sound :=
  Transition.run_invariant (fun hsound hstep => hsound.step hstep) (Sound.new capacity) h

/-- On a closed queue nobody goes to sleep any more. -/
theorem sleeping_of_run {labels : List (QueueLabel τ α)} (hclosed : s.closed = true)
    (hrun : Transition.run step s labels = some s') :
    s'.closed = true ∧ s'.notEmpty.sleeping ⊆ s.notEmpty.sleeping ∧
      s'.notFull.sleeping ⊆ s.notFull.sleeping := by
  refine Transition.run_invariant (I := fun s' => s'.closed = true ∧
    s'.notEmpty.sleeping ⊆ s.notEmpty.sleeping ∧ s'.notFull.sleeping ⊆ s.notFull.sleeping)
    (fun hbefore hstep => ?_) ⟨hclosed, subset_rfl, subset_rfl⟩ hrun
  obtain ⟨hclosed', hempty, hfull⟩ := hbefore
  have hmove := step_move hstep
  obtain ⟨hsubEmpty, hsubFull⟩ := sleeping_of_closed hmove hclosed'
  exact ⟨(hmove.accepted_of_closed hclosed').1, hsubEmpty.trans hempty, hsubFull.trans hfull⟩

/-! ## No lost wake-up -/

/-- A completed call of `close` is remembered. -/
private theorem closeReturned_of_completes {l : QueueLabel τ α} (h : QueueMove s l s')
    (hbefore : s.closeReturned = true ∨ ∃ c ∈ completes s l s', c.2.2 = .closed) :
    s'.closeReturned = true := by
  cases h with
  | notifiesNotFull => rfl
  | pushWaits hactivity => simpa [completes, hactivity] using hbefore
  | popWaits hactivity => simpa [completes, hactivity] using hbefore
  | call => simpa [completes] using hbefore
  | wakeNotFull => simpa [completes] using hbefore
  | wakeNotEmpty => simpa [completes] using hbefore
  | _ => simpa [completes] using hbefore

theorem closeReturned_of_run {labels : List (QueueLabel τ α)}
    (hrun : Transition.run step s labels = some s')
    (hclose : ∃ c ∈ completed s labels, c.2.2 = .closed) : s'.closeReturned = true := by
  have hremembered := Transition.run_observe (f := completes) (o := [])
    (I := fun results s' => (∃ c ∈ results, c.2.2 = .closed) → s'.closeReturned = true)
    (fun {results s₁ s₂ l} hbefore hstep => by
      rintro ⟨c, hmem, hc⟩
      refine closeReturned_of_completes (step_move hstep) ?_
      rcases List.mem_append.mp hmem with hold | hnew
      · exact Or.inl (hbefore ⟨c, hold, hc⟩)
      · exact Or.inr ⟨c, hnew, hc⟩) (by simp) hrun
  exact hremembered hclose

/-- **No wake-up is lost.** For any capacity, any threads and any interleaving: in an open queue,
while a producer sleeps the free slots are no more than the producers that were woken and have not
resumed, and while a consumer sleeps the stored elements are no more than such consumers; those who
sleep or were woken are producers in `push` and consumers in `pop`; and once a call of `close` has
completed nobody sleeps. -/
theorem no_lost_wakeUp {capacity : ℕ} {labels : List (QueueLabel τ α)}
    (hrun : Transition.run step (QueueState.new capacity) labels = some s) :
    (s.closed = false → s.notFull.sleeping.Nonempty →
      s.capacity - s.queue.length ≤ s.notFull.woken.card) ∧
    (s.closed = false → s.notEmpty.sleeping.Nonempty →
      s.queue.length ≤ s.notEmpty.woken.card) ∧
    (∀ t, t ∈ s.notFull.sleeping ∨ t ∈ s.notFull.woken → (s.activity t).IsPush) ∧
    (∀ t, t ∈ s.notEmpty.sleeping ∨ t ∈ s.notEmpty.woken → s.activity t = .pop) ∧
    ((∃ c ∈ completed (QueueState.new capacity) labels, c.2.2 = .closed) →
      s.notEmpty.sleeping = ∅ ∧ s.notFull.sleeping = ∅) := by
  have hwakeUps := (sound_of_run hrun).wakeUps
  refine ⟨hwakeUps.slots, hwakeUps.elements, fun t ht => ?_, fun t ht => ?_, fun hclose => ?_⟩
  · exact ht.elim (hwakeUps.producers.sleeping t) (hwakeUps.producers.woken t)
  · exact ht.elim (hwakeUps.consumers.sleeping t) (hwakeUps.consumers.woken t)
  · exact hwakeUps.closeReturned (closeReturned_of_run hrun hclose)

/-- Two producers wait for the one slot, and a `pop` wakes one of them. -/
def twoWaiters : List (QueueLabel (Fin 3) ℕ) :=
  [.call 0 (.push 7), .run 0 none, .call 0 (.push 8), .run 0 none, .call 1 (.push 9), .run 1 none,
    .call 2 .pop, .run 2 (some 1)]

/-- One producer sleeps on, and the other one is on its way to the free slot. -/
theorem no_lost_wakeUp_two : ∃ s : QueueState (Fin 3) ℕ,
    Transition.run step (QueueState.new 1) twoWaiters = some s ∧ s.closed = false ∧
    s.notFull.sleeping = {0} ∧ s.capacity - s.queue.length = 1 ∧ 1 ≤ s.notFull.woken.card := by
  have hrun : ∃ s : QueueState (Fin 3) ℕ,
      Transition.run step (QueueState.new 1) twoWaiters = some s ∧ s.closed = false ∧
      s.notFull.sleeping = {0} ∧ s.capacity - s.queue.length = 1 := ⟨_, rfl, rfl, rfl, rfl⟩
  obtain ⟨s, hrun, hopen, hsleeping, hslots⟩ := hrun
  have hcovered := (no_lost_wakeUp hrun).1 hopen (by rw [hsleeping]; exact Finset.singleton_nonempty 0)
  exact ⟨s, hrun, hopen, hsleeping, hslots, hslots ▸ hcovered⟩

/-! ## Who can go on -/

/-- A thread inside a call that is not asleep has an enabled step. -/
theorem exists_run (s : QueueState τ α) (hin : (s.activity t).InCall)
    (hfull : t ∉ s.notFull.sleeping) (hempty : t ∉ s.notEmpty.sleeping) :
    ∃ n s', s.step (.run t n) = some s' := by
  obtain ⟨producer, notFull, hnotFull⟩ := s.notFull.exists_notifyOne
  obtain ⟨consumer, notEmpty, hnotEmpty⟩ := s.notEmpty.exists_notifyOne
  cases hactivity : s.activity t with
  | outside => exact absurd hin (by rw [hactivity]; exact id)
  | returned result => exact absurd hin (by rw [hactivity]; exact id)
  | push value =>
    refine ⟨consumer, ?_⟩
    simp only [step, runThread, hactivity, BlockingQueue.push, if_neg hfull, hnotEmpty]
    by_cases hready : s.closed = true ∨ s.queue.length < s.capacity
    · rw [if_neg (not_not.mpr hready)]
      by_cases hclosed : s.closed = true
      · rw [if_pos hclosed]
        exact ⟨_, rfl⟩
      · rw [if_neg hclosed]
        exact ⟨_, rfl⟩
    · rw [if_pos hready]
      exact ⟨_, rfl⟩
  | tryPush value =>
    refine ⟨consumer, ?_⟩
    simp only [step, runThread, hactivity, BlockingQueue.tryPush, hnotEmpty]
    by_cases hrefused : s.closed = true ∨ s.queue.length ≥ s.capacity
    · rw [if_pos hrefused]
      exact ⟨_, rfl⟩
    · rw [if_neg hrefused]
      exact ⟨_, rfl⟩
  | pop =>
    refine ⟨producer, ?_⟩
    simp only [step, runThread, hactivity, BlockingQueue.pop, if_neg hempty]
    by_cases hready : s.closed = true ∨ s.queue ≠ []
    · rw [if_neg (not_not.mpr hready)]
      cases s.queue with
      | nil => exact ⟨_, rfl⟩
      | cons value queue =>
        simp only [hnotFull]
        exact ⟨_, rfl⟩
    · rw [if_pos hready]
      exact ⟨_, rfl⟩
  | close =>
    refine ⟨none, ?_⟩
    simp only [step, runThread, hactivity]
    exact ⟨_, rfl⟩
  | notifyNotEmpty =>
    refine ⟨none, ?_⟩
    simp only [step, runThread, hactivity]
    exact ⟨_, rfl⟩
  | notifyNotFull =>
    refine ⟨none, ?_⟩
    simp only [step, runThread, hactivity]
    exact ⟨_, rfl⟩

end QueueState

end Hpblr
