import GbaStation.Kernel.ReadyQueues

/-!
# The scheduler

What the ready queues and `Reschedule` guarantee in every run: a thread is queued if and only if it
is ready, once and at its current priority; at most one thread runs on a core; the better-than
search never follows a null pointer; and a reschedule picks the best thread and leaves the others
in their order.
-/

namespace GbaStation.Kernel

open GbaStation.Common
open ThreadQueueList (pushFront remove withoutFound without popFirstBetter_eq_none)

namespace ThreadSystem

/-! ## Every run -/

variable {k : ThreadSystem} {core : CoreId}

theorem Initial.scheduled (h : k.Initial) : k.Scheduled where
  holds core := by
    rw [h.readyQueue]
    exact ThreadQueueList.holds_empty.congr fun t => by simp [levelOn, h.status]
  linked t ht := by simp [h.nextThreadId] at ht
  current core t ht := by simp [h.currentThread] at ht
  running t ht := by simp [h.status] at ht
  nominal_le t := by simp [h.nominalPriority]
  current_le t := by simp [h.currentPriority]
  fresh t _ := by simp [h.status]
  requesters s t ht := by simp [h.pendingRequestingThreads, h.currentlyHandling] at ht
  listed core t ht := by simp [h.threadList] at ht
  registered core t ht := by simp [h.wakeupCallbackTable] at ht

theorem Reached.scheduled {Meets : ThreadSystem → Call → Prop} (h : Reached Meets k) :
    k.Scheduled :=
  h.induction (fun _ hk => hk.scheduled) fun _ _ _ hk _ hs => hk.step hs

/-! ## The choice of the next thread -/

/-- A ready thread of the core that can be scheduled. -/
def Candidate (k : ThreadSystem) (core : CoreId) (t : ThreadId) : Prop :=
  k.thread.status t = .ready ∧ k.thread.coreId t = core ∧ k.canSchedule t = true

/-- `k'` is the state behind a right reschedule of `core`. -/
structure RightlyRescheduled (k : ThreadSystem) (core : CoreId) (k' : ThreadSystem) : Prop where
  /-- The thread that runs is a candidate or the one that could go on. -/
  runs : ∀ t, k'.manager.currentThread core = some t → k'.thread.status t = .running ∧
    (k.Candidate core t ∨ k.runningThread core = some t)
  /-- A thread that can go on does so unless there is a strictly better candidate. -/
  keeps : ∀ current, k.runningThread core = some current →
    (k'.manager.currentThread core = some current ∧
        ∀ u, k.Candidate core u → k.thread.currentPriority current ≤ k.thread.currentPriority u) ∨
      ∃ t, k'.manager.currentThread core = some t ∧ k.Candidate core t ∧
        k.thread.currentPriority t < k.thread.currentPriority current
  /-- A candidate that runs has the least priority of all candidates, and was queued first there. -/
  best : ∀ t, k'.manager.currentThread core = some t → k.Candidate core t →
    ∀ u, k.Candidate core u → u ≠ t →
      k.thread.currentPriority t < k.thread.currentPriority u ∨
        k.thread.currentPriority t = k.thread.currentPriority u ∧
          [t, u].Sublist ((k.manager.readyQueue core).data (k.thread.currentPriority t))
  /-- The core idles only when there is nobody to run. -/
  idle : k'.manager.currentThread core = none →
    k.runningThread core = none ∧ ∀ u, ¬ k.Candidate core u
  /-- Everybody else keeps the place; a thread that had to make room is put in front. -/
  order : ∀ p, ((k'.manager.readyQueue core).data p).filter (fun u => k.preempted core ≠ some u) =
    ((k.manager.readyQueue core).data p).filter fun u => k'.manager.currentThread core ≠ some u
  others : ∀ c, c ≠ core → k'.manager.readyQueue c = k.manager.readyQueue c

theorem mem_order_of_candidate (h : k.Scheduled) {t : ThreadId} (ht : k.Candidate core t) :
    (k.thread.currentPriority t, t) ∈ (k.manager.readyQueue core).order := by
  rw [(h.holds core).mem_order, levelOn, if_pos ⟨ht.1, ht.2.1⟩]

theorem candidate_of_mem_order (h : k.Scheduled) {e : Nat × ThreadId}
    (he : e ∈ (k.manager.readyQueue core).order) (hs : k.canSchedule e.2 = true) :
    k.Candidate core e.2 ∧ k.thread.currentPriority e.2 = e.1 := by
  rw [(h.holds core).mem_order, levelOn] at he
  split at he
  · next hc => exact ⟨⟨hc.1, hc.2, hs⟩, Option.some.inj he⟩
  · cases he

/-- The thread that a search through the order of service finds comes before every other one that
the search would accept. -/
theorem before_of_find (h : k.Scheduled) {accept : Nat × ThreadId → Bool} {e : Nat × ThreadId}
    (he : (k.manager.readyQueue core).order.find? accept = some e) {u : ThreadId}
    (hu : k.Candidate core u) (hacc : accept (k.thread.currentPriority u, u) = true) (hne : u ≠ e.2)
    :
    e.1 < k.thread.currentPriority u ∨ e.1 = k.thread.currentPriority u ∧
      [e.2, u].Sublist ((k.manager.readyQueue core).data e.1) := by
  obtain ⟨-, before, behind, hsplit, hbefore⟩ := List.find?_eq_some_iff_append.mp he
  have hmem := mem_order_of_candidate h hu
  -- the other thread is not among those that were passed over
  have hbehind : (k.thread.currentPriority u, u) ∈ behind := by
    rw [hsplit, List.mem_append, List.mem_cons] at hmem
    rcases hmem with hb | rfl | hb
    · have := hbefore _ hb
      simp [hacc] at this
    · exact absurd rfl hne
    · exact hb
  have hsorted := (k.manager.readyQueue core).order_sorted
  rw [hsplit, List.pairwise_append, List.pairwise_cons] at hsorted
  have hle : e.1 ≤ k.thread.currentPriority u := hsorted.2.1.1 _ hbehind
  rcases Nat.lt_or_eq_of_le hle with hlt | heq
  · exact Or.inl hlt
  · refine Or.inr ⟨heq, ?_⟩
    have hN : e.1 < threadPrioLowest + 1 := by
      have := h.current_le u
      omega
    have hsub : [e, (k.thread.currentPriority u, u)].Sublist (k.manager.readyQueue core).order := by
      rw [hsplit]
      exact ((List.singleton_sublist.mpr hbehind).cons_cons e).trans
        (List.sublist_append_right before _)
    rw [ThreadQueueList.data_eq_order_filter _ hN]
    have := (hsub.filter fun a => decide (a.1 = e.1)).map Prod.snd
    simpa [heq] using this

/-- The queue behind a switch, without the thread that had to make room, is the queue before it
without the thread that runs. -/
theorem data_queueAfter (h : k.Scheduled) (core : CoreId) (p : Nat) :
    ((k.queueAfter core).data p).filter (fun u => k.preempted core ≠ some u) =
      ((k.manager.readyQueue core).data p).filter fun u => k.nextThread core ≠ some u := by
  have hpush : ∀ (q : ReadyQueue) (i : Nat) (t : ThreadId),
      ((q.pushFront i t).data p).filter (fun u => some t ≠ some u) =
        (q.data p).filter fun u => some t ≠ some u := by
    intro q i t
    by_cases hpi : p = i
    · subst hpi
      simp [pushFront]
    · simp [pushFront, hpi]
  have hremove : ∀ (q : ReadyQueue) (i : Nat) (t : ThreadId),
      t ∉ (q.data p).filter (fun u => k.preempted core ≠ some u) →
      ((q.remove i t).data p).filter (fun u => k.preempted core ≠ some u) =
        (q.data p).filter fun u => k.preempted core ≠ some u := by
    intro q i t ht
    by_cases hpi : p = i
    · subst hpi
      simp only [remove, Function.update_self]
      rw [List.filter_comm, List.filter_eq_self]
      intro u hu
      have : u ≠ t := fun hut => ht (hut ▸ hu)
      simp [this]
    · simp [remove, hpi]
  have hstay : ∀ t₀, k.preempted core = some t₀ → ∀ l : List ThreadId,
      l.Sublist ((k.manager.readyQueue core).data p) →
      l.filter (fun u => some t₀ ≠ some u) = l := by
    intro t₀ hpre l hl
    rw [List.filter_eq_self]
    intro u hu
    have hne : t₀ ≠ u := by
      rintro rfl
      exact not_mem_data_of_status h (by simp [(preempted_eq_some.mp hpre).2]) p (hl.subset hu)
    simpa using hne
  unfold queueAfter
  cases hnext : k.nextThread core with
  | none =>
    cases hpre : k.preempted core with
    | none => rfl
    | some t₀ =>
      rw [hpush, withoutFound, hstay t₀ hpre _ (List.Sublist.refl _)]
      simp
  | some t =>
    cases hpre : k.preempted core with
    | none =>
      rw [← hpre, hremove]
      · simp [hpre, withoutFound, without, eq_comm]
      · simp [hpre, withoutFound, without]
    | some t₀ =>
      have hwithout : ((withoutFound (k.manager.readyQueue core)
          (some t)).data p).Sublist ((k.manager.readyQueue core).data p) := List.filter_sublist
      rw [← hpre, hremove, hpre, hpush, hstay t₀ hpre _ hwithout]
      · simp [withoutFound, without, eq_comm]
      · rw [hpre, hpush]
        simp [withoutFound, without]

theorem currentThread_switched (k : ThreadSystem) (core : CoreId) :
    (k.switched core).manager.currentThread core = k.nextThread core :=
  Function.update_self _ _ _

theorem rightlyRescheduled_switched (h : k.Scheduled) (core : CoreId) :
    k.RightlyRescheduled core (k.switched core) where
  runs t ht := by
    rw [currentThread_switched] at ht
    obtain ⟨hcore, -, hsched, hstatus⟩ := nextThread_eq_some h ht
    refine ⟨by simp [switched, statusAfter, ht], ?_⟩
    rcases hstatus with hready | ⟨hrun, hcur⟩
    · exact Or.inl ⟨hready, hcore, hsched⟩
    · exact Or.inr (runningThread_eq_some.mpr ⟨hcur, hrun, hsched⟩)
  keeps current hcur := by
    rw [currentThread_switched]
    simp only [nextThread, hcur]
    cases hfind : (k.manager.readyQueue core).order.find? fun e =>
        decide (e.1 < k.thread.currentPriority current) && k.canSchedule e.2 with
    | none =>
      refine Or.inl ⟨rfl, fun u hu => ?_⟩
      have := List.find?_eq_none.mp hfind _ (mem_order_of_candidate h hu)
      simpa [hu.2.2] using this
    | some e =>
      have hacc := List.find?_some hfind
      simp only [Bool.and_eq_true, decide_eq_true_eq] at hacc
      obtain ⟨hcand, hprio⟩ := candidate_of_mem_order h (List.mem_of_find?_eq_some hfind) hacc.2
      exact Or.inr ⟨e.2, rfl, hcand, hprio ▸ hacc.1⟩
  best t ht hcand u hu hne := by
    rw [currentThread_switched] at ht
    simp only [nextThread] at ht
    cases hrun : k.runningThread core with
    | none =>
      rw [hrun] at ht
      obtain ⟨e, he, rfl⟩ := Option.map_eq_some_iff.mp ht
      have hacc := List.find?_some he
      obtain ⟨-, hprio⟩ := candidate_of_mem_order h (List.mem_of_find?_eq_some he) hacc
      rw [hprio]
      exact before_of_find h he hu hu.2.2 hne
    | some current =>
      rw [hrun] at ht
      dsimp only at ht
      cases hfind : (k.manager.readyQueue core).order.find? fun e =>
          decide (e.1 < k.thread.currentPriority current) && k.canSchedule e.2 with
      | none =>
        rw [hfind] at ht
        obtain rfl : current = t := Option.some.inj ht
        have := (runningThread_eq_some.mp hrun).2.1
        rw [hcand.1] at this
        cases this
      | some e =>
        rw [hfind] at ht
        obtain rfl : e.2 = t := Option.some.inj ht
        have hacc := List.find?_some hfind
        simp only [Bool.and_eq_true, decide_eq_true_eq] at hacc
        obtain ⟨-, hprio⟩ := candidate_of_mem_order h (List.mem_of_find?_eq_some hfind) hacc.2
        rw [hprio]
        by_cases hlt : k.thread.currentPriority u < k.thread.currentPriority current
        · exact before_of_find h hfind hu (by simp [hlt, hu.2.2]) hne
        · left
          omega
  idle hnone := by
    rw [currentThread_switched] at hnone
    simp only [nextThread] at hnone
    cases hrun : k.runningThread core with
    | none =>
      rw [hrun] at hnone
      refine ⟨rfl, fun u hu => ?_⟩
      have := List.find?_eq_none.mp (Option.map_eq_none_iff.mp hnone) _
        (mem_order_of_candidate h hu)
      exact this hu.2.2
    | some current =>
      rw [hrun] at hnone
      cases hnone
  order p := by
    rw [currentThread_switched]
    have hqueue : (k.switched core).manager.readyQueue core = k.queueAfter core :=
      Function.update_self _ _ _
    rw [hqueue]
    exact data_queueAfter h core p
  others c hc := Function.update_of_ne hc _ _

theorem popFirstBetter_ne_none (h : k.Scheduled) {p : Nat}
    (hp : (k.manager.readyQueue core).Linked p) :
    (k.manager.readyQueue core).popFirstBetter p ≠ none := by
  have hw := (h.holds core).wellLinked
  cases ho : (k.manager.readyQueue core).order with
  | nil => simp [popFirstBetter_eq_none hw hp (by simp [ho])]
  | cons e rest =>
    by_cases hlt : e.1 < p
    · simp [ThreadQueueList.popFirstBetter_of_order_cons hw hp ho hlt]
    · have hall : ∀ a ∈ (k.manager.readyQueue core).order.head?, p ≤ a.1 := by
        rw [ho]
        intro a ha
        obtain rfl := Option.some.inj ha
        exact Nat.not_lt.mp hlt
      simp [popFirstBetter_eq_none hw hp hall]

/-- In every run: a thread is in a ready queue exactly once, at its current priority, when it is a
ready thread of that core, and not at all otherwise; a running thread is the current thread of its
core; the level of an existing thread is linked, so that the search for a better thread comes to an
end; `Reschedule` always returns, and when the limiter blocks nobody it picks the right thread. -/
theorem scheduling {k : ThreadSystem} (h : Reached (fun _ _ => True) k) :
    (∀ core p t, ((k.manager.readyQueue core).data p).count t =
      if k.thread.status t = .ready ∧ k.thread.coreId t = core ∧ k.thread.currentPriority t = p
        then 1 else 0) ∧
    (∀ t, k.thread.status t = .running → k.manager.currentThread (k.thread.coreId t) = some t) ∧
    (∀ t, t < k.nextThreadId →
      (k.manager.readyQueue (k.thread.coreId t)).Linked (k.thread.currentPriority t) ∧
      (k.manager.readyQueue (k.thread.coreId t)).popFirstBetter (k.thread.currentPriority t) ≠
        none) ∧
    ∀ core, ∃ k', k.reschedule core = some k' ∧
      (k.NotLimited core → k.RightlyRescheduled core k') := by
  have hs := h.scheduled
  refine ⟨fun core p t => ?_, hs.running, fun t ht => ⟨hs.linked t ht,
    popFirstBetter_ne_none hs (hs.linked t ht)⟩, fun core => ?_⟩
  · have hmem : t ∈ (k.manager.readyQueue core).data p ↔ k.thread.status t = .ready ∧
        k.thread.coreId t = core ∧ k.thread.currentPriority t = p := by
      rw [(hs.holds core).mem_data, levelOn]
      split
      · next hc => simp [hc]
      · next hc => simp only [reduceCtorEq, false_iff]; exact fun hn => hc ⟨hn.1, hn.2.1⟩
    rw [((hs.holds core).nodup_data p).count]
    simp only [hmem]
  · obtain ⟨k₀, -, -, hk₀⟩ := reschedule_spec (P := fun _ => True)
      (fun _ _ _ _ _ _ => trivial) trivial hs
    refine ⟨_, hk₀, fun hl => ?_⟩
    have := reschedule_eq hs hl
    rw [hk₀] at this
    rw [Option.some.inj this]
    exact rightlyRescheduled_switched hs core

/-- A thread of priority 30 is chosen over one of priority 48 that was created first. -/
theorem scheduling_twoThreads : ∃ k,
    start.run [.createThread 0 .other 0 48 true true true,
      .createThread 0 .other 0 30 true true true,
      .reschedule 0] = some k ∧
    k.manager.currentThread 0 = some 1 ∧
    ((k.manager.readyQueue 0).data 48).count 0 = 1 ∧
    ∃ k', k.reschedule 0 = some k' ∧ (k.NotLimited 0 → k.RightlyRescheduled 0 k') := by
  have h : (start.run [.createThread 0 .other 0 48 true true true,
      .createThread 0 .other 0 30 true true true, .reschedule 0]).map
      (fun k => (k.manager.currentThread 0, k.thread.status 0, k.thread.coreId 0,
        k.thread.currentPriority 0)) = some (some 1, .ready, 0, 48) := by decide +kernel
  obtain ⟨k, hrun, hk⟩ := Option.map_eq_some_iff.mp h
  simp only [Prod.mk.injEq] at hk
  obtain ⟨hcurrent, hstatus, hcore, hprio⟩ := hk
  obtain ⟨hqueue, -, -, hresched⟩ :=
    scheduling (Reached.run (fun _ _ _ => trivial) (Reached.initial initial_start) hrun)
  refine ⟨k, hrun, hcurrent, ?_, hresched 0⟩
  rw [hqueue, if_pos ⟨hstatus, hcore, hprio⟩]

end ThreadSystem

end GbaStation.Kernel
