import GbaStation.Kernel.WaitLists

/-!
# Ready queues

The ready queue of a core holds exactly the ready threads of the core, each once and at its current
priority, in every run; and `Reschedule` picks the thread it should.

- `Scheduled` is the invariant. The operations that touch it are few (`boostPriority`,
  `resumeFromWait`, `markDead`, `addThread`, a change of a status that is not `Ready`); everything
  else is assembled from them.
-/

namespace GbaStation.Kernel

open GbaStation.Common
open Function (update_self update_of_ne update update_eq_self update_apply)
open Option (some.inj bind_eq_some_iff ite_none_left_eq_some bind_eq_bind bind_some)
open Or (inr inl)
open ThreadQueueList (linked_prepare front_of_order)

namespace ThreadSystem

/-! ## The invariant -/

/-- The level at which a thread is queued on a core. -/
def levelOn (k : ThreadSystem) (core : CoreId) (t : ThreadId) : Option Nat :=
  if k.thread.status t = .ready ∧ k.thread.coreId t = core then some (k.thread.currentPriority t)
  else none

/-- Ready threads are queued, the levels of existing threads are linked, the thread that runs on a
core is its current thread, and only existing threads run or make requests. -/
structure Scheduled (k : ThreadSystem) : Prop where
  holds : ∀ core, (k.manager.readyQueue core).Holds (k.levelOn core)
  linked : ∀ t, t < k.nextThreadId →
    (k.manager.readyQueue (k.thread.coreId t)).Linked (k.thread.currentPriority t)
  current : ∀ core t, k.manager.currentThread core = some t →
    k.thread.coreId t = core ∧ t < k.nextThreadId
  running : ∀ t, k.thread.status t = .running →
    k.manager.currentThread (k.thread.coreId t) = some t
  nominal_le : ∀ t, k.thread.nominalPriority t ≤ threadPrioLowest
  current_le : ∀ t, k.thread.currentPriority t ≤ threadPrioLowest
  fresh : ∀ t, k.nextThreadId ≤ t → k.thread.status t = .dormant
  requesters : ∀ s t, t ∈ k.session.pendingRequestingThreads s ∨
    k.session.currentlyHandling s = some t → t < k.nextThreadId
  listed : ∀ core t, t ∈ k.manager.threadList core → k.thread.coreId t = core ∧ t < k.nextThreadId
  registered : ∀ core t, t ∈ k.manager.wakeupCallbackTable core → t < k.nextThreadId

variable {k k' : ThreadSystem} {priority turns : Nat} {t : ThreadId} {o : ObjRef} {q : ReadyQueue}
  {core : CoreId} {P : ThreadSystem → Prop} {process : ProcessId} {objects : List ObjRef}
  {nanoSeconds : Int} {r : SvcReturn} {s : SessionId}

/-- What the invariant looks at. -/
def viewed (k : ThreadSystem) :=
  (k.manager.readyQueue, k.thread.status, k.thread.coreId, k.thread.currentPriority,
    k.thread.nominalPriority, k.manager.currentThread, k.nextThreadId, k.session,
    k.manager.threadList, k.manager.wakeupCallbackTable)

theorem Scheduled.congr (h : k.Scheduled) (hsame : k'.viewed = k.viewed) :
    k'.Scheduled := by
  simp only [viewed, Prod.mk.injEq] at hsame
  obtain ⟨hqueue, hstatus, hcore, hprio, hnominal, hcurrent, hnext, hsession, hlist, htable⟩ := hsame
  have hlevel : ∀ core, k'.levelOn core = k.levelOn core := by
    intro core
    funext t
    rw [levelOn, levelOn, hstatus, hcore, hprio]
  constructor
  all_goals
    simp only [hqueue, hstatus, hcore, hprio, hnominal, hcurrent, hnext, hsession, hlist, htable,
      hlevel]
  · exact h.holds
  · exact h.linked
  · exact h.current
  · exact h.running
  · exact h.nominal_le
  · exact h.current_le
  · exact h.fresh
  · exact h.requesters
  · exact h.listed
  · exact h.registered

/-- An invariant of the semaphores that acquisitions keep. -/
structure CountInvariant where
  Holds : SemaphoreFields → Prop
  acquired : ∀ {k : ThreadSystem} {s : SemaphoreId},
    Holds k.semaphore → Holds (k.semaphoreAcquire s).semaphore

/-- The two invariants are taken through the calls together. -/
structure Kept (I : CountInvariant) (k : ThreadSystem) : Prop extends k.Scheduled where
  counts : I.Holds k.semaphore

variable {I : CountInvariant}

theorem Kept.congr (h : k.Kept I) (hsame : (k'.viewed, k'.semaphore) = (k.viewed, k.semaphore)) :
    k'.Kept I := by
  obtain ⟨hview, hsemaphore⟩ := Prod.mk.inj hsame
  exact ⟨h.toScheduled.congr hview, hsemaphore ▸ h.counts⟩

/-! ## Priorities -/

theorem bestPriority_le (start : Nat) (priorities : List Nat) :
    bestPriority start priorities ≤ start := by
  unfold bestPriority
  induction priorities generalizing start with
  | nil => exact le_refl start
  | cons p rest ih =>
    rw [List.foldl_cons]
    refine (ih _).trans ?_
    split <;> omega

/-- The queue of the core of a thread whose priority is set. -/
theorem holds_boostPriority (h : k.Scheduled) (t : ThreadId) (hp : priority ≤ threadPrioLowest)
    (core : CoreId) :
    ((k.boostPriority t priority).manager.readyQueue core).Holds
      ((k.boostPriority t priority).levelOn core) := by
  have hN : priority < threadPrioLowest + 1 := by omega
  by_cases hcore : core = k.thread.coreId t
  · subst hcore
    have hqueue : (k.boostPriority t priority).manager.readyQueue (k.thread.coreId t) =
        if k.thread.status t = .ready then
          (k.manager.readyQueue (k.thread.coreId t)).move t (k.thread.currentPriority t) priority
        else (k.manager.readyQueue (k.thread.coreId t)).prepare priority :=
      update_self _ _ _
    rw [hqueue]
    by_cases hready : k.thread.status t = .ready
    · rw [if_pos hready]
      have hlevel : k.levelOn (k.thread.coreId t) t = some (k.thread.currentPriority t) := by
        simp [levelOn, hready]
      have hold : ∀ i, k.levelOn (k.thread.coreId t) t = some i → i = k.thread.currentPriority t :=
        fun i hi => some.inj (hi.symm.trans hlevel)
      have hmove := (h.holds (k.thread.coreId t)).move hN hold
      refine hmove.congr fun u => ?_
      by_cases hut : u = t
      · subst hut
        simp [levelOn, boostPriority, hready]
      · simp [levelOn, boostPriority, hut]
    · rw [if_neg hready]
      refine ((h.holds (k.thread.coreId t)).prepare hN).congr fun u => ?_
      by_cases hut : u = t
      · subst hut
        simp [levelOn, boostPriority, hready]
      · simp [levelOn, boostPriority, hut]
  · have hqueue : (k.boostPriority t priority).manager.readyQueue core =
        k.manager.readyQueue core := update_of_ne hcore _ _
    rw [hqueue]
    refine (h.holds core).congr fun u => ?_
    by_cases hut : u = t
    · subst hut
      simp [levelOn, boostPriority, Ne.symm hcore]
    · simp [levelOn, boostPriority, hut]

theorem linked_boostPriority (h : k.Scheduled) (t : ThreadId) (priority : Nat) (core : CoreId)
    (i : Nat) :
    ((k.boostPriority t priority).manager.readyQueue core).Linked i ↔
      (k.manager.readyQueue core).Linked i ∨ (core = k.thread.coreId t ∧ i = priority) := by
  by_cases hcore : core = k.thread.coreId t
  · subst hcore
    have hw := (h.holds (k.thread.coreId t)).wellLinked
    have hqueue : (k.boostPriority t priority).manager.readyQueue (k.thread.coreId t) =
        if k.thread.status t = .ready then
          (k.manager.readyQueue (k.thread.coreId t)).move t (k.thread.currentPriority t) priority
        else (k.manager.readyQueue (k.thread.coreId t)).prepare priority :=
      update_self _ _ _
    rw [hqueue]
    split
    · simp [ThreadQueueList.linked_move hw]
    · simp [linked_prepare hw]
  · have hqueue : (k.boostPriority t priority).manager.readyQueue core =
        k.manager.readyQueue core := update_of_ne hcore _ _
    rw [hqueue]
    simp [hcore]

theorem Kept.boostPriority (h : k.Kept I) (t : ThreadId) (hp : priority ≤ threadPrioLowest)
    :
      (k.boostPriority t priority).Kept I where
  holds := holds_boostPriority h.toScheduled t hp
  linked u hu := by
    rw [linked_boostPriority h.toScheduled]
    show (k.manager.readyQueue (k.thread.coreId u)).Linked
        (update k.thread.currentPriority t priority u) ∨ _
    by_cases hut : u = t
    · subst hut
      exact inr ⟨rfl, update_self _ _ _⟩
    · rw [update_of_ne hut]
      exact inl (h.linked u hu)
  current := h.current
  running := h.running
  nominal_le := h.nominal_le
  current_le u := by
    show update k.thread.currentPriority t priority u ≤ threadPrioLowest
    by_cases hut : u = t
    · rw [hut, update_self]
      exact hp
    · rw [update_of_ne hut]
      exact h.current_le u
  fresh := h.fresh
  requesters := h.requesters
  listed := h.listed
  registered := h.registered
  counts := h.counts

theorem Kept.updatePriority (h : k.Kept I) (t : ThreadId) :
    (k.updatePriority t).Kept I :=
  h.boostPriority t ((bestPriority_le _ _).trans (h.nominal_le t))

theorem Kept.setPriority (h : k.Kept I) (hs : k.setPriority t priority = some k') :
    k'.Kept I := by
  unfold ThreadSystem.setPriority at hs
  split at hs
  · next hp =>
    obtain rfl := some.inj hs
    have hb := h.boostPriority t hp
    refine ⟨⟨hb.holds, hb.linked, hb.current, hb.running, fun u => ?_, hb.current_le, hb.fresh,
      hb.requesters, hb.listed, hb.registered⟩, h.counts⟩
    show update k.thread.nominalPriority t priority u ≤ threadPrioLowest
    by_cases hut : u = t
    · rw [hut, update_self]
      exact hp
    · rw [update_of_ne hut]
      exact h.nominal_le u
  · cases hs

theorem Kept.updateMutexPriority (h : k.Kept I) (m : MutexId) :
    (k.updateMutexPriority m).Kept I := by
  unfold ThreadSystem.updateMutexPriority
  split
  · exact h
  · next holder _ =>
    split
    · refine Kept.updatePriority ?_ holder
      exact h.congr rfl
    · exact h

theorem Kept.addWaitingThread (h : k.Kept I) (o : ObjRef) (t : ThreadId) :
    (k.addWaitingThread o t).Kept I := by
  cases o with
  | mutex m =>
    refine Kept.updateMutexPriority ?_ m
    exact h.congr rfl
  | _ => exact h.congr rfl

theorem Kept.removeWaitingThread (h : k.Kept I) (o : ObjRef) (t : ThreadId) :
    (k.removeWaitingThread o t).Kept I := by
  cases o with
  | mutex m =>
    refine Kept.updateMutexPriority ?_ m
    exact h.congr rfl
  | _ => exact h.congr rfl

theorem Kept.addToAll (h : k.Kept I) (t : ThreadId) (objects : List ObjRef) :
    (k.addToAll t objects).Kept I := by
  induction objects generalizing k with
  | nil => exact h
  | cons o rest ih => exact ih (h.addWaitingThread o t)

theorem Kept.leaveWaitObjects (h : k.Kept I) (t : ThreadId) :
    (k.leaveWaitObjects t).Kept I := by
  have hloop : ∀ (objects : List ObjRef) {j : ThreadSystem}, j.Kept I →
      (objects.foldl (fun k o => k.removeWaitingThread o t) j).Kept I := by
    intro objects
    induction objects with
    | nil => exact id
    | cons o rest ih => exact fun hj => ih (hj.removeWaitingThread o t)
  exact (hloop _ h).congr rfl

/-- An existing thread gets a status at which it does not run, and the queue of its core a place for
it exactly when it is ready then. -/
theorem Scheduled.requeue (h : k.Scheduled) (ht : t < k.nextThreadId) (status : ThreadStatus)
    (hrun : status ≠ .running) (hq : q.Holds (update (k.levelOn (k.thread.coreId t)) t
      (if status = .ready then some (k.thread.currentPriority t) else none)))
    (hlinked : ∀ i, (k.manager.readyQueue (k.thread.coreId t)).Linked i → q.Linked i) :
    ({ k with
      manager.readyQueue := update k.manager.readyQueue (k.thread.coreId t) q
      thread.status := update k.thread.status t status } : ThreadSystem).Scheduled where
  holds core := by
    by_cases hcore : core = k.thread.coreId t
    · subst hcore
      simp only [update_self]
      refine hq.congr fun u => ?_
      by_cases hut : u = t
      · subst hut
        simp [levelOn]
      · simp [levelOn, hut]
    · simp only [update_of_ne hcore]
      refine (h.holds core).congr fun u => ?_
      by_cases hut : u = t
      · subst hut
        simp [levelOn, Ne.symm hcore]
      · simp [levelOn, hut]
  linked u hu := by
    show (update k.manager.readyQueue (k.thread.coreId t) q (k.thread.coreId u)).Linked
      (k.thread.currentPriority u)
    by_cases hcore : k.thread.coreId u = k.thread.coreId t
    · rw [hcore, update_self]
      exact hlinked _ (hcore ▸ h.linked u hu)
    · rw [update_of_ne hcore]
      exact h.linked u hu
  current := h.current
  running u hu := by
    have hut : u ≠ t := by
      rintro rfl
      exact hrun (by simpa using hu)
    exact h.running u (by simpa [hut] using hu)
  nominal_le := h.nominal_le
  current_le := h.current_le
  fresh u hu := by
    have hut : u ≠ t := by
      rintro rfl
      exact absurd hu (Nat.not_le.mpr ht)
    simpa [hut] using h.fresh u hu
  requesters := h.requesters
  listed := h.listed
  registered := h.registered

/-! ## Waking up -/

theorem Kept.acquire (h : k.Kept I) (ha : k.acquire o t = some k') : k'.Kept I := by
  cases o with
  | event e =>
    obtain ⟨-, ha⟩ := ite_none_left_eq_some.mp ha
    obtain rfl := some.inj ha
    unfold eventAcquire
    split <;> exact h.congr rfl
  | timer i =>
    obtain ⟨-, ha⟩ := ite_none_left_eq_some.mp ha
    obtain rfl := some.inj ha
    unfold timerAcquire
    split <;> exact h.congr rfl
  | semaphore s =>
    obtain rfl := some.inj ha
    refine ⟨?_, I.acquired h.counts⟩
    unfold semaphoreAcquire
    split <;> exact h.toScheduled.congr rfl
  | mutex m =>
    obtain ⟨-, ha⟩ := ite_none_left_eq_some.mp ha
    simp only [mutexAcquire, ite_none_left_eq_some, Option.some.injEq] at ha
    obtain ⟨-, rfl⟩ := ha
    have htake : (k.takeMutex m t).Kept I := by
      refine Kept.updatePriority ?_ t
      exact h.congr rfl
    split
    · exact htake.congr rfl
    · exact h.congr rfl
  | serverSession s =>
    have ha := (ite_none_left_eq_some.mp ha).2
    unfold sessionAcquire at ha
    split at ha
    · obtain rfl := some.inj ha
      exact h
    · split at ha
      · cases ha
      · next requester hlast =>
        obtain rfl := some.inj ha
        refine ⟨⟨h.holds, h.linked, h.current, h.running, h.nominal_le, h.current_le, h.fresh,
          fun i u hu => ?_, h.listed, h.registered⟩, h.counts⟩
        have hmem : requester ∈ k.session.pendingRequestingThreads s := List.mem_of_getLast? hlast
        by_cases his : i = s
        · subst his
          simp only [update_self] at hu
          rcases hu with hu | hu
          · exact h.requesters i u (inl (List.dropLast_subset _ hu))
          · exact some.inj hu ▸ h.requesters i requester (inl hmem)
        · simp only [update_of_ne his] at hu
          exact h.requesters i u hu
  | thread u =>
    obtain ⟨-, ha⟩ := ite_none_left_eq_some.mp ha
    obtain rfl := some.inj ha
    exact h

theorem Kept.runCallback (h : k.Kept I) {reason : ThreadWakeupReason}
    {object : Option ObjRef} (hr : k.runCallback reason t object = some k') : k'.Kept I := by
  obtain ⟨r₀, r₁, rfl⟩ := runCallback_eq_some hr
  exact h.congr rfl

/-- A waiting thread that becomes ready is queued. -/
theorem Kept.resumeFromWait (h : k.Kept I) (ht : t < k.nextThreadId)
    (hr : k.resumeFromWait t = some k') : k'.Kept I := by
  obtain ⟨-, hr⟩ := ite_none_left_eq_some.mp hr
  split at hr
  · split at hr
    · obtain rfl := some.inj hr
      exact h
    · cases hr
  · obtain rfl := some.inj hr
    exact h
  · obtain rfl := some.inj hr
    exact h
  · next hready _ _ =>
    obtain rfl := some.inj hr
    have hnot : k.levelOn (k.thread.coreId t) t = none := if_neg fun hl => hready hl.1
    have hqueued := h.requeue ht .ready (by simp)
      ((h.holds _).pushBack (h.linked t ht) hnot) fun _ => id
    exact ⟨hqueued.congr rfl, h.counts⟩

theorem Scheduled.lt_of_status (h : k.Scheduled) (ht : k.thread.status t ≠ .dormant) :
    t < k.nextThreadId := by
  by_contra hle
  exact ht (h.fresh t (Nat.not_lt.mp hle))

theorem IsWaiting.ne_dormant (h : k.IsWaiting t) : k.thread.status t ≠ .dormant := by
  rcases h with h | h | h <;> simp [h]

theorem nextThreadId_of_lists (h : k'.lists = k.lists) : k'.nextThreadId = k.nextThreadId := by
  have := congrArg (fun j => j.nextThreadId) h
  exact this

theorem nextThreadId_leaveWaitObjects (k : ThreadSystem) (t : ThreadId) :
    (k.leaveWaitObjects t).nextThreadId = k.nextThreadId := by
  have hloop : ∀ (objects : List ObjRef) (j : ThreadSystem),
      (objects.foldl (fun k o => k.removeWaitingThread o t) j).nextThreadId = j.nextThreadId := by
    intro objects
    induction objects with
    | nil => exact fun _ => rfl
    | cons o rest ih =>
      intro j
      rw [List.foldl_cons, ih]
      have hu := sync_removeWaitingThread j o t
      have := congrArg (fun j => j.nextThreadId) hu
      cases o <;> exact this
  exact hloop _ _

theorem Kept.wakeThread (h : k.Kept I) (ht : k.IsWaiting t)
    (hw : k.wakeThread o t = some k') : k'.Kept I := by
  obtain ⟨k₁, h₁, hw⟩ := bind_eq_some_iff.mp hw
  obtain ⟨k₂, h₂, hw⟩ := bind_eq_some_iff.mp hw
  have hs₁ : k₁.Kept I := acquireFor_induction (fun _ _ _ hj ha => hj.acquire ha) h h₁
  have hs₂ := hs₁.runCallback h₂
  refine (hs₂.leaveWaitObjects t).resumeFromWait ?_ hw
  rw [nextThreadId_leaveWaitObjects, nextThreadId_of_lists (lists_of_sync (sync_runCallback h₂)),
    nextThreadId_of_lists (lists_acquireFor h₁)]
  exact h.lt_of_status ht.ne_dormant

theorem Kept.wakeupAllWaitingThreads (h : k.Kept I)
    (hw : k.wakeupAllWaitingThreads o = some k') : k'.Kept I := by
  obtain ⟨k₁, h₁, hw⟩ := bind_eq_some_iff.mp hw
  obtain rfl := some.inj hw
  have hs : k₁.Kept I := (wakeup_induction (fun _ _ _ hj _ ht _ hw => hj.wakeThread ht hw) h h₁).1
  cases o with
  | event e =>
    unfold endPulse
    dsimp only
    split
    · exact hs.congr rfl
    · exact hs
  | timer i =>
    unfold endPulse
    dsimp only
    split
    · exact hs.congr rfl
    · exact hs
  | _ => exact hs

/-! ## Threads that stop, start and go to sleep -/

/-- A thread that is not queued may change its status, except to become ready or running. -/
theorem Kept.setStatus (h : k.Kept I) (ht : t < k.nextThreadId)
    (hold : k.thread.status t ≠ .ready) {status : ThreadStatus} (hready : status ≠ .ready)
    (hrun : status ≠ .running) : (k.setStatus t status).Kept I := by
  refine ⟨(h.requeue (q := k.manager.readyQueue (k.thread.coreId t)) ht status hrun ?_
    fun _ => id).congr (by simp [viewed, ThreadSystem.setStatus]), h.counts⟩
  have hnone : k.levelOn (k.thread.coreId t) t = none := if_neg fun hl => hold hl.1
  rw [if_neg hready, ← hnone, update_eq_self]
  exact h.holds _

theorem Kept.markDead (h : k.Kept I) (ht : t < k.nextThreadId) :
    (k.markDead t).Kept I := by
  have htable : ∀ core u, u ∈ (k.markDead t).manager.wakeupCallbackTable core →
      u < k.nextThreadId := by
    intro core u hu
    by_cases hcore : core = k.thread.coreId t
    · subst hcore
      simp only [ThreadSystem.markDead, update_self] at hu
      exact h.registered _ u (List.mem_of_mem_filter hu)
    · simp only [ThreadSystem.markDead, update_of_ne hcore] at hu
      exact h.registered core u hu
  have hdead : ({ k with
      manager.readyQueue := (k.markDead t).manager.readyQueue
      thread.status := (k.markDead t).thread.status } : ThreadSystem).Scheduled := by
    by_cases hready : k.thread.status t = .ready
    · have hlevel : k.levelOn (k.thread.coreId t) t = some (k.thread.currentPriority t) := by
        simp [levelOn, hready]
      rw [show (k.markDead t).manager.readyQueue = _ from if_pos hready]
      exact h.requeue ht .dead (by simp) ((h.holds _).remove fun i hi =>
        some.inj (hi.symm.trans hlevel)) fun _ => id
    · rw [show (k.markDead t).manager.readyQueue = _ from if_neg hready]
      exact (h.setStatus ht hready (by simp) (by simp)).toScheduled
  exact ⟨⟨hdead.holds, hdead.linked, hdead.current, hdead.running, hdead.nominal_le,
    hdead.current_le, hdead.fresh, hdead.requesters, hdead.listed, htable⟩, h.counts⟩

theorem Kept.giveUpMutex (h : k.Kept I) {m : MutexId} (hg : k.giveUpMutex m t = some k') :
    k'.Kept I := by
  refine Kept.wakeupAllWaitingThreads ?_ hg
  refine Kept.congr (k := ThreadSystem.updatePriority { k with
    thread.heldMutexes := update k.thread.heldMutexes t
      ((k.thread.heldMutexes t).erase m) } t) ?_ rfl
  refine Kept.updatePriority ?_ t
  exact h.congr rfl

theorem Kept.mutexRelease (h : k.Kept I) {m : MutexId} {r : Result × ThreadSystem}
    (hm : k.mutexRelease m t = some r) : r.2.Kept I := by
  unfold ThreadSystem.mutexRelease at hm
  split at hm
  · obtain rfl := some.inj hm
    exact h
  · split at hm
    · obtain rfl := some.inj hm
      exact h
    · dsimp only at hm
      split at hm
      · obtain ⟨k₁, h₁, hm⟩ := bind_eq_some_iff.mp hm
        obtain rfl := some.inj hm
        refine Kept.giveUpMutex ?_ h₁
        exact h.congr rfl
      · obtain rfl := some.inj hm
        exact h.congr rfl

theorem Kept.releaseThreadMutexes (h : k.Kept I) (hr : k.releaseThreadMutexes t = some k') :
    k'.Kept I := by
  obtain ⟨k₁, h₁, hr⟩ := bind_eq_some_iff.mp hr
  obtain rfl := some.inj hr
  have hreleased : k₁.Kept I := by
    refine forceRelease_induction (fun j j' m hj hf => ?_) h h₁
    refine Kept.wakeupAllWaitingThreads ?_ hf
    exact hj.congr rfl
  exact hreleased.congr rfl

theorem Kept.stop (h : k.Kept I) (ht : t < k.nextThreadId) (hs : k.stop t = some k') :
    k'.Kept I := by
  obtain ⟨k₁, h₁, hs⟩ := bind_eq_some_iff.mp hs
  exact (((h.markDead ht).wakeupAllWaitingThreads h₁).leaveWaitObjects t).releaseThreadMutexes hs

/-! ## The popping loops -/

theorem restoreSkipped_cons (q : ReadyQueue) (p : Nat) (x : ThreadId)
    (skipped : List (Nat × ThreadId)) :
    restoreSkipped q ((p, x) :: skipped) = (restoreSkipped q skipped).pushFront p x :=
  rfl

/-- Putting a skipped thread back in front of what is left gives the queue without the thread that
was found behind it. -/
theorem pushFront_withoutFound {p : Nat} {x : ThreadId} {rest : List (Nat × ThreadId)}
    (ho : q.order = (p, x) :: rest) {found : Option ThreadId} (hfound : ∀ y, found = some y → y ≠ x)
    : ((q.dropFront p).withoutFound found).pushFront p x = q.withoutFound found := by
  obtain ⟨-, hx, -, -⟩ := front_of_order ho
  have hback := ThreadQueueList.pushFront_dropFront hx
  cases found with
  | none => exact hback
  | some y =>
    show ((q.dropFront p).without y).pushFront p x = q.without y
    rw [← ThreadQueueList.without_pushFront _ _ (hfound y rfl).symm, hback]

/-- Without a current thread to beat, the first thread that can be scheduled is found and the
skipped ones go back to where they were. -/
theorem popSchedulable_spec (k : ThreadSystem) {levels : ThreadId → Option Nat} (h : q.Holds levels)
    (hturns : q.order.length < turns) :
    ∃ q' skipped, k.popSchedulable turns q =
        some ((q.order.find? fun e => k.canSchedule e.2).map Prod.snd, q', skipped) ∧
      restoreSkipped q' skipped =
        q.withoutFound ((q.order.find? fun e => k.canSchedule e.2).map Prod.snd) := by
  induction turns generalizing q levels with
  | zero => omega
  | succ turns ih =>
    cases ho : q.order with
    | nil =>
      refine ⟨q, [], ?_, rfl⟩
      simp [popSchedulable, ThreadQueueList.popFirst_of_order_nil h.wellLinked ho]
    | cons e rest =>
      obtain ⟨p, x⟩ := e
      have hpop := ThreadQueueList.popFirst_of_order_cons h.wellLinked ho
      obtain ⟨-, -, -, hrest⟩ := front_of_order ho
      have hdrop := ThreadQueueList.dropFront_eq_without (fun p => h.lt_of_mem) h.once ho
      by_cases hx : k.canSchedule x = true
      · refine ⟨q.dropFront p, [], ?_, ?_⟩
        · simp [popSchedulable, hpop, hx]
        · have hfind : ((p, x) :: rest).find? (fun e => k.canSchedule e.2) = some (p, x) := by
            simp [hx]
          rw [hfind]
          exact hdrop
      · have hholds := h.without x
        rw [← hdrop] at hholds
        rw [ho, List.length_cons] at hturns
        obtain ⟨q', skipped, hloop, hrestore⟩ := ih hholds (by rw [hrest]; omega)
        rw [hrest] at hloop hrestore
        refine ⟨q', (p, x) :: skipped, ?_, ?_⟩
        · simp [popSchedulable, hpop, hx, hloop]
        · have hfind : ((p, x) :: rest).find? (fun e => k.canSchedule e.2) =
              rest.find? fun e => k.canSchedule e.2 := by simp [hx]
          rw [restoreSkipped_cons, hrestore, hfind]
          refine pushFront_withoutFound ho fun y hy => ?_
          rintro rfl
          obtain ⟨e, he, rfl⟩ := Option.map_eq_some_iff.mp hy
          have hmem := List.mem_of_find?_eq_some he
          rw [← hrest, hholds.mem_order] at hmem
          simp at hmem

/-- With a current thread to beat, the first thread at a better level that can be scheduled is
found; the current thread goes on when there is none. -/
theorem popSchedulableBetter_spec (k : ThreadSystem) (current : ThreadId)
    {levels : ThreadId → Option Nat} (h : q.Holds levels)
    (hlinked : q.Linked (k.thread.currentPriority current)) (hturns : q.order.length < turns) :
    ∃ q' skipped, k.popSchedulableBetter current turns q =
        some (((q.order.find? fun e => decide (e.1 < k.thread.currentPriority current) &&
          k.canSchedule e.2).map Prod.snd).getD current, q', skipped) ∧
      restoreSkipped q' skipped =
        q.withoutFound ((q.order.find? fun e =>
          decide (e.1 < k.thread.currentPriority current) && k.canSchedule e.2).map Prod.snd) := by
  induction turns generalizing q levels with
  | zero => omega
  | succ turns ih =>
    cases ho : q.order with
    | nil =>
      refine ⟨q, [], ?_, rfl⟩
      have hpop := ThreadQueueList.popFirstBetter_eq_none h.wellLinked hlinked (by simp [ho])
      simp [popSchedulableBetter, hpop]
    | cons e rest =>
      obtain ⟨p, x⟩ := e
      by_cases hp : p < k.thread.currentPriority current
      · have hpop := ThreadQueueList.popFirstBetter_of_order_cons h.wellLinked hlinked ho hp
        obtain ⟨-, -, -, hrest⟩ := front_of_order ho
        have hdrop := ThreadQueueList.dropFront_eq_without (fun p => h.lt_of_mem) h.once ho
        by_cases hx : k.canSchedule x = true
        · refine ⟨q.dropFront p, [], ?_, ?_⟩
          · simp [popSchedulableBetter, hpop, hx, hp]
          · rw [List.find?_cons_of_pos (by simp [hp, hx])]
            exact hdrop
        · have hholds := h.without x
          rw [← hdrop] at hholds
          rw [ho, List.length_cons] at hturns
          obtain ⟨q', skipped, hloop, hrestore⟩ :=
            ih hholds (show (q.dropFront p).Linked _ from hlinked) (by rw [hrest]; omega)
          rw [hrest] at hloop hrestore
          refine ⟨q', (p, x) :: skipped, ?_, ?_⟩
          · simp [popSchedulableBetter, hpop, hx, hloop]
          · rw [restoreSkipped_cons, hrestore, List.find?_cons_of_neg (by simp [hx])]
            refine pushFront_withoutFound ho fun y hy => ?_
            rintro rfl
            obtain ⟨e, he, rfl⟩ := Option.map_eq_some_iff.mp hy
            have hmem := List.mem_of_find?_eq_some he
            rw [← hrest, hholds.mem_order] at hmem
            simp at hmem
      · -- the levels only get worse behind the head
        have hsorted := q.order_sorted
        rw [ho, List.pairwise_cons] at hsorted
        have hnone : ((p, x) :: rest).find? (fun e =>
            decide (e.1 < k.thread.currentPriority current) && k.canSchedule e.2) = none := by
          rw [List.find?_eq_none]
          intro e he
          have hpe : p ≤ e.1 := by
            rcases List.mem_cons.mp he with rfl | he
            · exact le_refl p
            · exact hsorted.1 e he
          simp [show ¬ e.1 < k.thread.currentPriority current by omega]
        have hpop := ThreadQueueList.popFirstBetter_eq_none h.wellLinked hlinked (by
          rw [ho]
          intro e he
          obtain rfl := some.inj he
          exact Nat.not_lt.mp hp)
        rw [hnone]
        exact ⟨q, [], by simp [popSchedulableBetter, hpop], rfl⟩

/-- The thread that should run next on a core: the first one in the order of service that can be
scheduled, but only from a better level when the current thread can go on. -/
def nextThread (k : ThreadSystem) (core : CoreId) : Option ThreadId :=
  let order := (k.manager.readyQueue core).order
  match k.runningThread core with
  | some current =>
    some (((order.find? fun e => decide (e.1 < k.thread.currentPriority current) &&
      k.canSchedule e.2).map Prod.snd).getD current)
  | none => (order.find? fun e => k.canSchedule e.2).map Prod.snd

theorem runningThread_eq_some :
    k.runningThread core = some t ↔ k.manager.currentThread core = some t ∧
      k.thread.status t = .running ∧ k.canSchedule t = true := by
  simp [runningThread, Option.filter_eq_some_iff]

theorem not_mem_data_of_status (h : k.Scheduled) (ht : k.thread.status t ≠ .ready) (p : Nat) :
    t ∉ (k.manager.readyQueue core).data p := by
  rw [(h.holds core).mem_data, levelOn, if_neg fun hl => ht hl.1]
  simp

/-- One turn of `PopNextReadyThread` finds the thread that should run next and takes it out of the
queue. -/
theorem selectNext_eq (h : k.Scheduled) (core : CoreId) :
    k.selectNext core = some (k.nextThread core,
      (k.manager.readyQueue core).withoutFound (k.nextThread core)) := by
  cases hrun : k.runningThread core with
  | none =>
    obtain ⟨q', skipped, hloop, hrestore⟩ :=
      popSchedulable_spec k (h.holds core) (Nat.lt_succ_self _)
    simp only [selectNext, nextThread, hrun, bind_eq_bind, hloop, bind_some, hrestore]
  | some current =>
    obtain ⟨hcur, hstatus, -⟩ := runningThread_eq_some.mp hrun
    obtain ⟨hcore, hlt⟩ := h.current core current hcur
    obtain ⟨q', skipped, hloop, hrestore⟩ :=
      popSchedulableBetter_spec k current (h.holds core) (hcore ▸ h.linked current hlt)
        (Nat.lt_succ_self _)
    simp only [selectNext, nextThread, hrun, bind_eq_bind, hloop, bind_some, hrestore]
    cases (k.manager.readyQueue core).order.find? fun e =>
        decide (e.1 < k.thread.currentPriority current) && k.canSchedule e.2 with
    | some e => rfl
    | none =>
      have hout := ThreadQueueList.without_of_forall_not_mem (q := k.manager.readyQueue core)
        (t := current) fun p => not_mem_data_of_status h (by simp [hstatus]) p
      simp [ThreadQueueList.withoutFound, hout]

/-! ## Selecting the next thread -/

/-- The thread that should run next belongs to the core, can be scheduled, and is queued or goes
on. -/
theorem nextThread_eq_some (h : k.Scheduled) (ht : k.nextThread core = some t) :
    k.thread.coreId t = core ∧ t < k.nextThreadId ∧ k.canSchedule t = true ∧
      (k.thread.status t = .ready ∨
        k.thread.status t = .running ∧ k.manager.currentThread core = some t) := by
  have hqueued : ∀ e ∈ (k.manager.readyQueue core).order, k.thread.status e.2 = .ready ∧
      k.thread.coreId e.2 = core := by
    intro e he
    rw [(h.holds core).mem_order, levelOn] at he
    by_contra hno
    rw [if_neg hno] at he
    cases he
  have hready : ∀ e ∈ (k.manager.readyQueue core).order, k.canSchedule e.2 = true →
      k.thread.coreId e.2 = core ∧ e.2 < k.nextThreadId ∧ k.canSchedule e.2 = true ∧
      (k.thread.status e.2 = .ready ∨
        k.thread.status e.2 = .running ∧ k.manager.currentThread core = some e.2) := by
    intro e he hsched
    obtain ⟨hs, hc⟩ := hqueued e he
    exact ⟨hc, h.lt_of_status (by simp [hs]), hsched, inl hs⟩
  unfold nextThread at ht
  cases hrun : k.runningThread core with
  | none =>
    rw [hrun] at ht
    obtain ⟨e, he, rfl⟩ := Option.map_eq_some_iff.mp ht
    exact hready e (List.mem_of_find?_eq_some he) (by simpa using List.find?_some he)
  | some current =>
    rw [hrun] at ht
    dsimp only at ht
    obtain ⟨hcur, hstatus, hsched⟩ := runningThread_eq_some.mp hrun
    obtain ⟨hcore, hlt⟩ := h.current core current hcur
    cases hfind : (k.manager.readyQueue core).order.find? fun e =>
        decide (e.1 < k.thread.currentPriority current) && k.canSchedule e.2 with
    | none =>
      rw [hfind] at ht
      obtain rfl := some.inj ht
      exact ⟨hcore, hlt, hsched, inr ⟨hstatus, hcur⟩⟩
    | some e =>
      rw [hfind] at ht
      obtain rfl := some.inj ht
      have := List.find?_some hfind
      simp only [Bool.and_eq_true] at this
      exact hready e (List.mem_of_find?_eq_some hfind) this.2

/-- The state in which `PopNextReadyThread` returns: the next thread is taken out of the queue. -/
def takeNext (k : ThreadSystem) (core : CoreId) : ThreadSystem :=
  { k with
    manager.readyQueue := update k.manager.readyQueue core
      ((k.manager.readyQueue core).withoutFound (k.nextThread core)) }

theorem readyQueue_takeNext (k : ThreadSystem) (core : CoreId) :
    (k.takeNext core).manager.readyQueue core =
      (k.manager.readyQueue core).withoutFound (k.nextThread core) :=
  update_self _ _ _

/-- A thread that is put to sleep when it was selected is neither queued nor running. -/
theorem Scheduled.timeLimit (h : k.Scheduled) (ht : k.nextThread core = some t) :
    ((k.takeNext core).timeLimit t).Scheduled := by
  obtain ⟨hcore, hlt, -, -⟩ := nextThread_eq_some h ht
  subst hcore
  have hslept := h.requeue hlt .waitSleep (by simp) ((h.holds _).without t) fun _ => id
  refine hslept.congr ?_
  rw [ThreadSystem.timeLimit, takeNext, ht]
  rfl

/-- The turns that `PopNextReadyThread` needs at most. -/
def turnsLeft (k : ThreadSystem) (core : CoreId) : Nat :=
  (k.manager.readyQueue core).order.length + (if (k.preempted core).isSome then 1 else 0) + 1

theorem preempted_eq_some :
    k.preempted core = some t ↔
      k.manager.currentThread core = some t ∧ k.thread.status t = .running := by
  simp [preempted, Option.filter_eq_some_iff]

/-- Time limiting a thread leaves one turn less. -/
theorem turnsLeft_timeLimit (h : k.Scheduled) (ht : k.nextThread core = some t) :
    ((k.takeNext core).timeLimit t).turnsLeft core < k.turnsLeft core := by
  obtain ⟨hcore, hlt, -, hstatus⟩ := nextThread_eq_some h ht
  have horder : (((k.takeNext core).timeLimit t).manager.readyQueue core).order =
      (k.manager.readyQueue core).order.filter fun e => e.2 ≠ t := by
    show ((k.takeNext core).manager.readyQueue core).order = _
    rw [readyQueue_takeNext, ht]
    exact ThreadQueueList.order_without _ t
  have hpre : ∀ u, ((k.takeNext core).timeLimit t).preempted core = some u →
      u ≠ t ∧ k.preempted core = some u := by
    intro u hu
    obtain ⟨hcur, hs⟩ := preempted_eq_some.mp hu
    have hut : u ≠ t := by
      rintro rfl
      simp [ThreadSystem.timeLimit] at hs
    exact ⟨hut, preempted_eq_some.mpr ⟨hcur, by
      simpa [ThreadSystem.timeLimit, takeNext, hut] using hs⟩⟩
  unfold turnsLeft
  rw [horder]
  have hle := List.length_filter_le (fun e : Nat × ThreadId => decide (e.2 ≠ t))
    (k.manager.readyQueue core).order
  have hflag : (((k.takeNext core).timeLimit t).preempted core).isSome →
      (k.preempted core).isSome := by
    intro hs
    obtain ⟨u, hu⟩ := Option.isSome_iff_exists.mp hs
    rw [(hpre u hu).2]
    rfl
  rcases hstatus with hready | ⟨hrun, hcur⟩
  · -- a queued thread leaves the queue
    have hmem : (k.thread.currentPriority t, t) ∈ (k.manager.readyQueue core).order := by
      rw [(h.holds core).mem_order]
      simp [levelOn, hready, hcore]
    have hlt' : ((k.manager.readyQueue core).order.filter fun e => e.2 ≠ t).length <
        (k.manager.readyQueue core).order.length :=
      List.length_filter_lt_length_iff_exists.mpr ⟨_, hmem, by simp⟩
    by_cases hs : (((k.takeNext core).timeLimit t).preempted core).isSome
    · rw [if_pos hs, if_pos (hflag hs)]
      omega
    · rw [if_neg hs]
      omega
  · -- the current thread does not run any more
    have hold : k.preempted core = some t := preempted_eq_some.mpr ⟨hcur, hrun⟩
    have hnone : ¬ (((k.takeNext core).timeLimit t).preempted core).isSome := by
      intro hs
      obtain ⟨u, hu⟩ := Option.isSome_iff_exists.mp hs
      obtain ⟨hut, hu⟩ := hpre u hu
      rw [hold] at hu
      exact hut (some.inj hu).symm
    rw [if_neg hnone, hold]
    simp only [Option.isSome_some, if_true]
    omega

/-- The limiter of core 1 blocks no thread on this core. -/
def NotLimited (k : ThreadSystem) (core : CoreId) : Prop :=
  core ≠ 1 ∨ k.limiter.ready = false ∨ k.limiter.active = false

theorem isTimeLimited_of_notLimited (h : k.NotLimited core) (t : ThreadId) :
    ¬ (core = 1 ∧ k.isTimeLimited t = true) := by
  rintro ⟨hcore, hlim⟩
  rcases h with h | h | h
  · exact h hcore
  · simp [isTimeLimited, h] at hlim
  · simp [isTimeLimited, h] at hlim

/-- `PopNextReadyThread` returns: it puts selected threads to sleep while the limiter blocks them,
and then takes out the thread that should run next. An invariant of putting to sleep holds in the
state from which it is taken. -/
theorem popNextReadyThread_spec (hP : ∀ k t, P k → k.Scheduled → k.nextThread core = some t →
      core = 1 ∧ k.isTimeLimited t = true → P ((k.takeNext core).timeLimit t)) (hk : P k)
    (h : k.Scheduled) (hturns : k.turnsLeft core ≤ turns) :
    ∃ k₀, P k₀ ∧ k₀.Scheduled ∧
      popNextReadyThread core turns k = some (k₀.nextThread core, k₀.takeNext core) := by
  induction turns generalizing k with
  | zero => unfold turnsLeft at hturns; omega
  | succ turns ih =>
    rw [popNextReadyThread, selectNext_eq h core]
    simp only [bind_eq_bind, bind_some]
    cases hnext : k.nextThread core with
    | none =>
      refine ⟨k, hk, h, ?_⟩
      rw [takeNext, hnext]
    | some t =>
      have htake : { k with
          manager.readyQueue := update k.manager.readyQueue core
            ((k.manager.readyQueue core).withoutFound (some t)) } = k.takeNext core := by
        rw [takeNext, hnext]
      dsimp only
      rw [htake]
      by_cases hlim : core = 1 ∧ (k.takeNext core).isTimeLimited t = true
      · rw [if_pos hlim]
        have hlt := turnsLeft_timeLimit h hnext
        exact ih (hP k t hk h hnext hlim) (h.timeLimit hnext) (by omega)
      · rw [if_neg hlim]
        refine ⟨k, hk, h, ?_⟩
        rw [hnext]

/-! ## Switching to the next thread -/

/-- The ready queue behind a context switch. -/
def queueAfter (k : ThreadSystem) (core : CoreId) : ReadyQueue :=
  let rest := (k.manager.readyQueue core).withoutFound (k.nextThread core)
  let saved := match k.preempted core with
    | some t => rest.pushFront (k.thread.currentPriority t) t
    | none => rest
  match k.nextThread core with
  | some t => saved.remove (k.thread.currentPriority t) t
  | none => saved

/-- The statuses behind a context switch. -/
def statusAfter (k : ThreadSystem) (core : CoreId) (u : ThreadId) : ThreadStatus :=
  if k.nextThread core = some u then .running
  else if k.preempted core = some u then .ready
  else k.thread.status u

/-- The state behind a context switch. -/
def switched (k : ThreadSystem) (core : CoreId) : ThreadSystem :=
  { k with
    manager.currentThread := update k.manager.currentThread core (k.nextThread core)
    manager.readyQueue := update k.manager.readyQueue core (k.queueAfter core)
    thread.status := k.statusAfter core }

theorem preempted_takeNext (k : ThreadSystem) (core : CoreId) :
    (k.takeNext core).preempted core = k.preempted core :=
  rfl

/-- The thread that should run next is ready once the previous thread is saved. -/
theorem switchContext_eq (h : k.Scheduled) (core : CoreId) :
    (k.takeNext core).switchContext core (k.nextThread core) = some (k.switched core) := by
  unfold switchContext switchOut
  rw [preempted_takeNext]
  cases hnext : k.nextThread core with
  | none =>
    cases hpre : k.preempted core with
    | none =>
      have hstatus : k.statusAfter core = k.thread.status := by
        funext u
        simp [statusAfter, hnext, hpre]
      simp [switchIn, switched, queueAfter, hnext, hpre, hstatus, takeNext]
    | some t₀ =>
      have hstatus : k.statusAfter core = update k.thread.status t₀ .ready := by
        funext u
        simp [statusAfter, hnext, hpre, update_apply, eq_comm]
      simp [switchIn, switched, queueAfter, hnext, hpre, hstatus, takeNext]
  | some t =>
    obtain ⟨-, -, -, hready⟩ := nextThread_eq_some h hnext
    cases hpre : k.preempted core with
    | none =>
      have ht : k.thread.status t = .ready := by
        rcases hready with hr | ⟨hr, hcur⟩
        · exact hr
        · rw [preempted_eq_some.mpr ⟨hcur, hr⟩] at hpre
          cases hpre
      have hstatus : k.statusAfter core = update k.thread.status t .running := by
        funext u
        simp [statusAfter, hnext, hpre, update_apply, eq_comm]
      simp [switchIn, switched, queueAfter, hnext, hpre, hstatus, takeNext, ht]
    | some t₀ =>
      have ht : update k.thread.status t₀ .ready t = .ready := by
        by_cases htt : t = t₀
        · simp [htt]
        · rcases hready with hr | ⟨hr, hcur⟩
          · simp [htt, hr]
          · rw [preempted_eq_some.mpr ⟨hcur, hr⟩] at hpre
            exact absurd (some.inj hpre) htt
      have hstatus : k.statusAfter core =
          update (update k.thread.status t₀ .ready) t .running := by
        funext u
        simp [statusAfter, hnext, hpre, update_apply, eq_comm]
      simp [switchIn, switched, queueAfter, hnext, hpre, hstatus, takeNext, ht]

theorem linked_queueAfter (k : ThreadSystem) (core : CoreId) (i : Nat) :
    (k.queueAfter core).Linked i ↔ (k.manager.readyQueue core).Linked i := by
  unfold queueAfter
  cases k.nextThread core <;> cases k.preempted core <;> exact Iff.rfl

theorem levelOn_of_preempted (h : k.preempted core = some t) (c : CoreId) :
    k.levelOn c t = none := by
  have := (preempted_eq_some.mp h).2
  simp [levelOn, this]

/-- The ready queue behind a context switch holds the threads that are ready then. -/
theorem holds_queueAfter (h : k.Scheduled) (core : CoreId) :
    (k.queueAfter core).Holds ((k.switched core).levelOn core) := by
  have hpreCore : ∀ t₀, k.preempted core = some t₀ → k.thread.coreId t₀ = core ∧
      (k.manager.readyQueue core).Linked (k.thread.currentPriority t₀) := by
    intro t₀ hpre
    obtain ⟨hcore, hlt⟩ := h.current core t₀ (preempted_eq_some.mp hpre).1
    exact ⟨hcore, hcore ▸ h.linked t₀ hlt⟩
  have hh := h.holds core
  unfold queueAfter
  cases hnext : k.nextThread core with
  | none =>
    cases hpre : k.preempted core with
    | none =>
      exact hh.congr fun u => by simp [levelOn, switched, statusAfter, hnext, hpre]
    | some t₀ =>
      obtain ⟨hcore, hlinked⟩ := hpreCore t₀ hpre
      refine (hh.pushFront hlinked (levelOn_of_preempted hpre core)).congr fun u => ?_
      by_cases hu : u = t₀
      · subst hu
        simp [levelOn, switched, statusAfter, hnext, hpre, hcore]
      · simp [levelOn, switched, statusAfter, hnext, hpre, hu, Ne.symm hu]
  | some t =>
    have hw := hh.without t
    cases hpre : k.preempted core with
    | none =>
      refine (hw.remove (t := t) (p := k.thread.currentPriority t) (by simp)).congr fun u => ?_
      by_cases hu : u = t
      · subst hu
        simp [levelOn, switched, statusAfter, hnext]
      · simp [levelOn, switched, statusAfter, hnext, hpre, hu, Ne.symm hu]
    | some t₀ =>
      obtain ⟨hcore, hlinked⟩ := hpreCore t₀ hpre
      have hnone : update (k.levelOn core) t none t₀ = none := by
        by_cases ht : t₀ = t
        · simp [ht]
        · simp [ht, levelOn_of_preempted hpre core]
      have hpush := hw.pushFront hlinked hnone
      refine (hpush.remove (t := t) (p := k.thread.currentPriority t) fun i hi => ?_).congr
        fun u => ?_
      · by_cases ht : t = t₀
        · subst ht
          simpa [eq_comm] using hi
        · simp [ht] at hi
      · by_cases hu : u = t
        · subst hu
          simp [levelOn, switched, statusAfter, hnext]
        · by_cases hu₀ : u = t₀
          · subst hu₀
            simp [levelOn, switched, statusAfter, hnext, hpre, hu, Ne.symm hu, hcore]
          · simp [levelOn, switched, statusAfter, hnext, hpre, hu, hu₀, Ne.symm hu, Ne.symm hu₀]

theorem Scheduled.switched (h : k.Scheduled) (core : CoreId) :
    (k.switched core).Scheduled where
  holds c := by
    show (update k.manager.readyQueue core (k.queueAfter core) c).Holds _
    by_cases hc : c = core
    · subst hc
      rw [update_self]
      exact holds_queueAfter h c
    · rw [update_of_ne hc]
      refine (h.holds c).congr fun u => ?_
      -- the threads whose status changes belong to the other core
      by_cases hcu : k.thread.coreId u = core
      · have hne : ¬ k.thread.coreId u = c := by
          rw [hcu]
          exact Ne.symm hc
        simp [levelOn, ThreadSystem.switched, hne]
      · have hnext : k.nextThread core ≠ some u := fun hn =>
          hcu (nextThread_eq_some h hn).1
        have hpre : k.preempted core ≠ some u := fun hp =>
          hcu (h.current core u (preempted_eq_some.mp hp).1).1
        simp [levelOn, ThreadSystem.switched, statusAfter, hnext, hpre]
  linked u hu := by
    have hlinked := h.linked u hu
    show (update k.manager.readyQueue core (k.queueAfter core) (k.thread.coreId u)).Linked
      (k.thread.currentPriority u)
    by_cases hc : k.thread.coreId u = core
    · rw [hc] at hlinked ⊢
      rw [update_self, linked_queueAfter]
      exact hlinked
    · rw [update_of_ne hc]
      exact hlinked
  current c u hu := by
    by_cases hc : c = core
    · subst hc
      have hnext : k.nextThread c = some u := by
        simpa [ThreadSystem.switched] using hu
      obtain ⟨hcore, hlt, -, -⟩ := nextThread_eq_some h hnext
      exact ⟨hcore, hlt⟩
    · exact h.current c u (by simpa [ThreadSystem.switched, hc] using hu)
  running u hu := by
    show update k.manager.currentThread core (k.nextThread core) (k.thread.coreId u) = _
    have hu : k.statusAfter core u = .running := hu
    unfold statusAfter at hu
    split at hu
    · next hnext =>
      rw [(nextThread_eq_some h hnext).1, update_self]
      exact hnext
    · next hnext =>
      split at hu
      · cases hu
      · next hpre =>
        have hcur := h.running u hu
        by_cases hc : k.thread.coreId u = core
        · rw [hc] at hcur
          exact absurd (preempted_eq_some.mpr ⟨hcur, hu⟩) hpre
        · rw [update_of_ne hc]
          exact hcur
  nominal_le := h.nominal_le
  current_le := h.current_le
  fresh u hu := by
    have hnext : k.nextThread core ≠ some u := fun hn =>
      absurd hu (Nat.not_le.mpr (nextThread_eq_some h hn).2.1)
    have hpre : k.preempted core ≠ some u := fun hp =>
      absurd hu (Nat.not_le.mpr (h.current core u (preempted_eq_some.mp hp).1).2)
    simpa [ThreadSystem.switched, statusAfter, hnext, hpre] using h.fresh u hu
  requesters := h.requesters
  listed := h.listed
  registered := h.registered

/-- `Reschedule` returns; it puts the threads that the limiter blocks to sleep and switches to the
thread that should run next. -/
theorem reschedule_spec {P : ThreadSystem → Prop} {core : CoreId}
    (hP : ∀ k t, P k → k.Scheduled → k.nextThread core = some t →
      core = 1 ∧ k.isTimeLimited t = true → P ((k.takeNext core).timeLimit t))
    {k : ThreadSystem} (hk : P k) (h : k.Scheduled) :
    ∃ k₀, P k₀ ∧ k₀.Scheduled ∧ k.reschedule core = some (k₀.switched core) := by
  have hturns : k.turnsLeft core ≤ (k.manager.readyQueue core).order.length + 2 := by
    unfold turnsLeft
    split <;> omega
  obtain ⟨k₀, ⟨hk₀, hcur⟩, h₀, hpop⟩ := popNextReadyThread_spec
    (P := fun j => P j ∧ j.manager.currentThread = k.manager.currentThread)
    (fun j t hj hs ht hl => ⟨hP j t hj.1 hs ht hl, hj.2⟩) ⟨hk, rfl⟩ h hturns
  refine ⟨k₀, hk₀, h₀, ?_⟩
  rw [reschedule, hpop]
  simp only [bind_eq_bind, bind_some]
  split
  · next hidle =>
    -- nobody ran and nobody runs: switching would change nothing
    obtain ⟨hnone, hnext⟩ := hidle
    rw [← hcur] at hnone
    have hpre : k₀.preempted core = none := by simp [preempted, hnone]
    have hstatus : k₀.statusAfter core = k₀.thread.status := by
      funext u
      simp [statusAfter, hnext, hpre]
    have hself : update k₀.manager.currentThread core none =
        k₀.manager.currentThread := by
      rw [← hnone, update_eq_self]
    simp [switched, takeNext, queueAfter, hnext, hpre, hstatus, hself]
  · exact switchContext_eq h₀ core

theorem reschedule_eq (h : k.Scheduled) (hl : k.NotLimited core) :
    k.reschedule core = some (k.switched core) := by
  obtain ⟨k₀, rfl, -, hk₀⟩ := reschedule_spec (P := fun j => j = k)
    (fun j t hj _ _ hlim => absurd (hj ▸ hlim) (isTimeLimited_of_notLimited hl t)) rfl h
  exact hk₀

theorem Kept.reschedule (h : k.Kept I) (hr : k.reschedule core = some k') : k'.Kept I := by
  obtain ⟨k₀, hcounts, h₀, hk₀⟩ := reschedule_spec (P := fun j => I.Holds j.semaphore)
    (fun _ _ hj _ _ _ => hj) h.counts h.toScheduled
  rw [hk₀] at hr
  obtain rfl := some.inj hr
  exact ⟨h₀.switched core, hcounts⟩

/-! ## Every call keeps the invariant -/

theorem caller_eq_some :
    k.caller core = some t ↔ k.manager.currentThread core = some t ∧
      (k.thread.status t = .running ∨ k.thread.status t = .dead) := by
  simp [caller, Option.filter_eq_some_iff]

theorem Scheduled.lt_of_caller (h : k.Scheduled) (ht : k.caller core = some t) :
    t < k.nextThreadId :=
  (h.current core t (caller_eq_some.mp ht).1).2

theorem status_of_caller (ht : k.caller core = some t) : k.thread.status t ≠ .ready := by
  rcases (caller_eq_some.mp ht).2 with hs | hs <;> simp [hs]

theorem nextThreadId_of_settled (h : k'.settled = k.settled) :
    k'.nextThreadId = k.nextThreadId := by
  have := congrArg (fun j => j.nextThreadId) h
  exact this

/-- Taking threads off the list of a core. -/
theorem Kept.with_threadList (h : k.Kept I) {l : List ThreadId}
    (hl : ∀ t ∈ l, t ∈ k.manager.threadList core) :
    ({ k with
      manager.threadList := update k.manager.threadList core l } :
        ThreadSystem).Kept I where
  holds := h.holds
  linked := h.linked
  current := h.current
  running := h.running
  nominal_le := h.nominal_le
  current_le := h.current_le
  fresh := h.fresh
  requesters := h.requesters
  listed c t ht := by
    by_cases hc : c = core
    · subst hc
      exact h.listed c t (hl t (by simpa using ht))
    · exact h.listed c t (by simpa [hc] using ht)
  registered := h.registered
  counts := h.counts

theorem Kept.exitCurrentThread (h : k.Kept I) (he : k.exitCurrentThread core = some k') :
    k'.Kept I := by
  obtain ⟨t, ht, he⟩ := bind_eq_some_iff.mp he
  obtain ⟨k₁, h₁, he⟩ := bind_eq_some_iff.mp he
  obtain rfl := some.inj he
  exact (h.stop (h.current core t ht).2 h₁).with_threadList fun u hu => List.mem_of_mem_filter hu

/-- What the loop of `TerminateProcessThreads` keeps is kept by the call, for an invariant that
stopping an existing thread keeps and that does not look at the thread lists. -/
theorem terminateProcessThreads_induction
    (hstop : ∀ k k' t, P k → t < k.nextThreadId → k.stop t = some k' → P k')
    (hlist : ∀ (k : ThreadSystem) (core : CoreId) (l : List ThreadId), P k →
      (∀ t ∈ l, t ∈ k.manager.threadList core) →
      P { k with manager.threadList := update k.manager.threadList core l })
    (hlt : ∀ k core t, P k → (t ∈ k.manager.threadList core ∨
      k.manager.currentThread core = some t) → t < k.nextThreadId) (hk : P k)
    (h : k.terminateProcessThreads process core = some k') : P k' := by
  obtain ⟨k₁, h₁, h⟩ := bind_eq_some_iff.mp h
  have hturn : ∀ t ∈ k.manager.threadList core, ∀ j j' : ThreadSystem,
      P j ∧ j.nextThreadId = k.nextThreadId → terminateOther core process j t = some j' →
      P j' ∧ j'.nextThreadId = k.nextThreadId := by
    intro t ht j j' ⟨hj, hnext⟩ hj'
    unfold terminateOther at hj'
    split at hj'
    · exact some.inj hj' ▸ ⟨hj, hnext⟩
    · obtain ⟨j₁, hj₁, hj'⟩ := bind_eq_some_iff.mp hj'
      obtain rfl := some.inj hj'
      have hPj := hstop j j₁ t hj (hnext ▸ hlt k core t hk (inl ht)) hj₁
      exact ⟨hlist j₁ core _ hPj fun u hu => List.mem_of_mem_erase hu,
        (nextThreadId_of_settled (settled_stop hj₁)).trans hnext⟩
  have hP₁ := (foldlM_induction hturn ⟨hk, rfl⟩ h₁).1
  split at h
  · exact some.inj h ▸ hP₁
  · next t ht =>
    split at h
    · obtain ⟨t', ht', h⟩ := bind_eq_some_iff.mp h
      obtain ⟨k₂, h₂, h⟩ := bind_eq_some_iff.mp h
      obtain rfl := some.inj h
      exact hlist k₂ core _ (hstop k₁ k₂ t' hP₁ (hlt k₁ core t' hP₁ (inr ht')) h₂)
        fun u hu => List.mem_of_mem_filter hu
    · exact some.inj h ▸ hP₁

theorem terminateProcess_induction
    (hstop : ∀ k k' t, P k → t < k.nextThreadId → k.stop t = some k' → P k')
    (hlist : ∀ (k : ThreadSystem) (core : CoreId) (l : List ThreadId), P k →
      (∀ t ∈ l, t ∈ k.manager.threadList core) →
      P { k with manager.threadList := update k.manager.threadList core l })
    (hlt : ∀ k core t, P k → (t ∈ k.manager.threadList core ∨
      k.manager.currentThread core = some t) → t < k.nextThreadId)
    (hexit : ∀ (k : ThreadSystem) (s : ProcessId → ProcessStatus), P k →
      P { k with processStatus := s }) (hk : P k) (h : k.terminateProcess process = some k') :
    P k' := by
  obtain ⟨-, h⟩ := ite_none_left_eq_some.mp h
  exact foldlM_induction (fun _ _ _ _ hj => terminateProcessThreads_induction hstop hlist hlt hj)
    (hexit k _ hk) h

theorem Kept.terminateProcess (h : k.Kept I) (ht : k.terminateProcess process = some k') :
    k'.Kept I := by
  refine terminateProcess_induction (fun _ _ _ hj hlt hs => hj.stop hlt hs)
    (fun _ _ _ hj hl => hj.with_threadList hl) (fun j core t hj hor => ?_)
    (fun _ _ hj => hj.congr rfl) h ht
  rcases hor with hm | hc
  · exact (hj.listed core t hm).2
  · exact (hj.current core t hc).2

/-- A new thread is queued when it starts; its level is linked in any case. -/
theorem Scheduled.addThread (h : k.Scheduled) (process : ProcessId)
    (category : ResourceLimitCategory) (core : CoreId) (hp : priority ≤ threadPrioLowest)
    (starts : Bool) : (k.addThread process category core priority starts).Scheduled := by
  have hN : priority < threadPrioLowest + 1 := by omega
  have hfresh := h.fresh k.nextThreadId (le_refl _)
  have hnone : ∀ c, k.levelOn c k.nextThreadId = none := fun c => by simp [levelOn, hfresh]
  have hprep := (h.holds core).prepare hN
  have hlink : ∀ i, ((k.addThread process category core priority starts).manager.readyQueue
      core).Linked i ↔ (k.manager.readyQueue core).Linked i ∨ i = priority := by
    intro i
    have hqueue : (k.addThread process category core priority starts).manager.readyQueue core =
        if starts then ((k.manager.readyQueue core).prepare priority).pushBack priority
          k.nextThreadId else (k.manager.readyQueue core).prepare priority :=
      update_self _ _ _
    rw [hqueue, ← linked_prepare (h.holds core).wellLinked i]
    split <;> exact Iff.rfl
  have hold : ∀ c u, k.manager.currentThread c = some u ∨ u ∈ k.manager.threadList c →
      u ≠ k.nextThreadId := by
    rintro c u (hu | hu) rfl
    · exact absurd (h.current c _ hu).2 (Nat.lt_irrefl _)
    · exact absurd (h.listed c _ hu).2 (Nat.lt_irrefl _)
  refine ⟨fun c => ?_, fun u hu => ?_, fun c u hu => ?_, fun u hu => ?_, fun u => ?_, fun u => ?_,
    fun u hu => ?_, fun s u hu => Nat.lt_succ_of_lt (h.requesters s u hu), fun c u hu => ?_,
    fun c u hu => ?_⟩
  · show (update k.manager.readyQueue core _ c).Holds _
    by_cases hc : c = core
    · subst hc
      rw [update_self]
      cases starts with
      | true =>
        refine (hprep.pushBack ((linked_prepare (h.holds c).wellLinked _).mpr
          (inr rfl)) (hnone c)).congr fun u => ?_
        by_cases hu : u = k.nextThreadId
        · subst hu
          simp [levelOn, ThreadSystem.addThread]
        · simp [levelOn, ThreadSystem.addThread, hu]
      | false =>
        refine hprep.congr fun u => ?_
        by_cases hu : u = k.nextThreadId
        · subst hu
          simp [levelOn, ThreadSystem.addThread, hfresh]
        · simp [levelOn, ThreadSystem.addThread, hu]
    · rw [update_of_ne hc]
      refine (h.holds c).congr fun u => ?_
      by_cases hu : u = k.nextThreadId
      · subst hu
        rw [hnone]
        simp [levelOn, ThreadSystem.addThread, Ne.symm hc]
      · simp [levelOn, ThreadSystem.addThread, hu]
  · have hu' : u < k.nextThreadId + 1 := hu
    by_cases hun : u = k.nextThreadId
    · subst hun
      simp only [show (k.addThread process category core priority starts).thread.coreId
        k.nextThreadId = core from update_self _ _ _,
        show (k.addThread process category core priority starts).thread.currentPriority
          k.nextThreadId = priority from update_self _ _ _]
      exact (hlink priority).mpr (inr rfl)
    · have hlinked := h.linked u (Nat.lt_of_le_of_ne (Nat.le_of_lt_succ hu') hun)
      simp only [show (k.addThread process category core priority starts).thread.coreId u =
          k.thread.coreId u from update_of_ne hun _ _,
        show (k.addThread process category core priority starts).thread.currentPriority u =
          k.thread.currentPriority u from update_of_ne hun _ _]
      by_cases hc : k.thread.coreId u = core
      · rw [hc] at hlinked ⊢
        exact (hlink _).mpr (inl hlinked)
      · rw [show (k.addThread process category core priority starts).manager.readyQueue
          (k.thread.coreId u) = k.manager.readyQueue (k.thread.coreId u) from
          update_of_ne hc _ _]
        exact hlinked
  · have hun := hold c u (inl hu)
    obtain ⟨hc, hlt⟩ := h.current c u hu
    exact ⟨by simpa [ThreadSystem.addThread, hun] using hc, Nat.lt_succ_of_lt hlt⟩
  · have hun : u ≠ k.nextThreadId := by
      rintro rfl
      simp only [ThreadSystem.addThread, update_self] at hu
      split at hu <;> cases hu
    simpa [ThreadSystem.addThread, hun] using
      h.running u (by simpa [ThreadSystem.addThread, hun] using hu)
  · by_cases hun : u = k.nextThreadId
    · simpa [ThreadSystem.addThread, hun] using hp
    · simpa [ThreadSystem.addThread, hun] using h.nominal_le u
  · by_cases hun : u = k.nextThreadId
    · simpa [ThreadSystem.addThread, hun] using hp
    · simpa [ThreadSystem.addThread, hun] using h.current_le u
  · have hu' : k.nextThreadId + 1 ≤ u := hu
    have hun : u ≠ k.nextThreadId := Nat.ne_of_gt hu'
    simpa [ThreadSystem.addThread, hun] using h.fresh u (Nat.le_of_succ_le hu')
  · by_cases hc : c = core
    · subst hc
      simp only [ThreadSystem.addThread, update_self, List.mem_append, List.mem_singleton] at hu
      rcases hu with hu | rfl
      · have hun := hold c u (inr hu)
        obtain ⟨hcore, hlt⟩ := h.listed c u hu
        exact ⟨by simpa [ThreadSystem.addThread, hun] using hcore, Nat.lt_succ_of_lt hlt⟩
      · exact ⟨update_self _ _ _, Nat.lt_succ_self _⟩
    · have hu : u ∈ k.manager.threadList c := by
        simpa [ThreadSystem.addThread, hc] using hu
      have hun := hold c u (inr hu)
      obtain ⟨hcore, hlt⟩ := h.listed c u hu
      exact ⟨by simpa [ThreadSystem.addThread, hun] using hcore, Nat.lt_succ_of_lt hlt⟩
  · show u < k.nextThreadId + 1
    by_cases hc : c = core
    · subst hc
      simp only [ThreadSystem.addThread, update_self, List.mem_cons] at hu
      rcases hu with rfl | hu
      · exact Nat.lt_succ_self _
      · exact Nat.lt_succ_of_lt (h.registered c u hu)
    · exact Nat.lt_succ_of_lt (h.registered c u (by simpa [ThreadSystem.addThread, hc] using hu))

theorem Kept.sleepOn (h : k.Kept I) (t : ThreadId) (objects : List ObjRef)
    (callback : WakeupCallback) : (k.sleepOn t objects callback).Kept I :=
  h.congr rfl

theorem Kept.acquireAll (h : k.Kept I)
    (ha : objects.foldlM (fun k object => k.acquire object t) k = some k') : k'.Kept I :=
  acquireAll_induction (fun _ _ _ hj ha => hj.acquire ha) h ha

theorem Kept.waitSynchronization1 (h : k.Kept I) (ht : t < k.nextThreadId)
    (hs : k.thread.status t ≠ .ready) {object : Option ObjRef}
    (hr : k.waitSynchronization1 t object nanoSeconds = some r) : r.system.Kept I := by
  unfold ThreadSystem.waitSynchronization1 at hr
  split at hr
  · obtain rfl := some.inj hr
    exact h
  · next o =>
    split at hr
    · split at hr
      · obtain rfl := some.inj hr
        exact h
      · obtain rfl := some.inj hr
        refine Kept.sleepOn ((h.addToAll t [o]).setStatus ?_ ?_ ?_ ?_) t [o] (.sync false)
        · rw [nextThreadId_of_settled (settled_addToAll k t [o])]
          exact ht
        · rw [status_addToAll]
          exact hs
        · simp
        · simp
    · obtain ⟨k₁, h₁, hr⟩ := bind_eq_some_iff.mp hr
      obtain rfl := some.inj hr
      exact h.acquire h₁

theorem Kept.waitForAll (h : k.Kept I) (ht : t < k.nextThreadId)
    (hs : k.thread.status t ≠ .ready) (hr : k.waitForAll t objects nanoSeconds = some r) :
    r.system.Kept I := by
  unfold ThreadSystem.waitForAll at hr
  split at hr
  · obtain ⟨k₁, h₁, hr⟩ := bind_eq_some_iff.mp hr
    obtain rfl := some.inj hr
    exact h.acquireAll h₁
  · split at hr
    · obtain rfl := some.inj hr
      exact h
    · obtain rfl := some.inj hr
      exact ((h.setStatus ht hs (by simp) (by simp)).addToAll t objects).sleepOn t objects _

theorem Kept.waitForAny (h : k.Kept I) (ht : t < k.nextThreadId)
    (hs : k.thread.status t ≠ .ready) (hr : k.waitForAny t objects nanoSeconds = some r) :
    r.system.Kept I := by
  unfold ThreadSystem.waitForAny at hr
  split at hr
  · obtain ⟨k₁, h₁, hr⟩ := bind_eq_some_iff.mp hr
    obtain rfl := some.inj hr
    exact h.acquire h₁
  · split at hr
    · obtain rfl := some.inj hr
      exact h
    · obtain rfl := some.inj hr
      exact ((h.setStatus ht hs (by simp) (by simp)).addToAll t objects).sleepOn t objects _

theorem Kept.waitSynchronizationN (h : k.Kept I) (ht : t < k.nextThreadId)
    (hs : k.thread.status t ≠ .ready) {addressValid : Bool} {handleCount : Int}
    {handles : Nat → Option ObjRef} {waitAll : Bool}
    (hr : k.waitSynchronizationN t addressValid handleCount handles waitAll
      nanoSeconds = some r) : r.system.Kept I := by
  unfold ThreadSystem.waitSynchronizationN at hr
  split at hr
  · obtain rfl := some.inj hr
    exact h
  · split at hr
    · obtain rfl := some.inj hr
      exact h
    · split at hr
      · obtain rfl := some.inj hr
        exact h
      · split at hr
        · exact h.waitForAll ht hs hr
        · exact h.waitForAny ht hs hr

theorem Kept.receive (h : k.Kept I) (ht : t < k.nextThreadId)
    (hs : k.thread.status t ≠ .ready) {replied : Bool} (hr : k.receive t objects replied = some r) :
    r.system.Kept I := by
  unfold ThreadSystem.receive at hr
  split at hr
  · obtain rfl := some.inj hr
    exact h
  · split at hr
    · obtain ⟨k₁, h₁, hr⟩ := bind_eq_some_iff.mp hr
      obtain ⟨result, -, hr⟩ := bind_eq_some_iff.mp hr
      obtain rfl := some.inj hr
      exact h.acquire h₁
    · obtain rfl := some.inj hr
      exact ((h.setStatus ht hs (by simp) (by simp)).addToAll t objects).sleepOn t objects _

/-- The state in which the request of a session was answered. -/
def answered (k : ThreadSystem) (s : SessionId) : ThreadSystem :=
  { k with session.currentlyHandling := update k.session.currentlyHandling s none }

/-- What the reply of `ReplyAndReceive` does. -/
theorem reply_eq_some {r : Option Result × ThreadSystem} (h : k.reply s = some r) :
    r = (some Result.sessionClosed, k.answered s) ∧
        (k.session.currentlyHandling s = none ∨ k.session.clientOpen s = false) ∨
      ∃ requester k', k.session.currentlyHandling s = some requester ∧
        k.session.clientOpen s = true ∧ (k.answered s).resumeFromWait requester = some k' ∧
        r = (none, k') := by
  unfold reply at h
  split at h
  · next hnone => exact inl ⟨(some.inj h).symm, inl hnone⟩
  · next requester hsome =>
    split at h
    · next hclosed => exact inl ⟨(some.inj h).symm, inr (by simpa using hclosed)⟩
    · next hopen =>
      obtain ⟨k', hk', h⟩ := bind_eq_some_iff.mp h
      exact inr ⟨requester, k', hsome, by simpa using hopen, hk', (some.inj h).symm⟩

theorem Kept.answered (h : k.Kept I) (s : SessionId) :
    (k.answered s).Kept I where
  holds := h.holds
  linked := h.linked
  current := h.current
  running := h.running
  nominal_le := h.nominal_le
  current_le := h.current_le
  fresh := h.fresh
  requesters i u hu := by
    rcases hu with hu | hu
    · exact h.requesters i u (inl hu)
    · by_cases his : i = s
      · subst his
        simp [ThreadSystem.answered] at hu
      · exact h.requesters i u (inr (by simpa [ThreadSystem.answered, his] using hu))
  listed := h.listed
  registered := h.registered
  counts := h.counts

theorem Kept.reply (h : k.Kept I) {r : Option Result × ThreadSystem}
    (hr : k.reply s = some r) : r.2.Kept I := by
  rcases reply_eq_some hr with ⟨rfl, -⟩ | ⟨requester, k', hreq, -, hk', rfl⟩
  · exact h.answered s
  · exact (h.answered s).resumeFromWait (h.requesters s requester (inr hreq)) hk'

theorem settled_reply {r : Option Result × ThreadSystem} (h : k.reply s = some r) :
    r.2.settled = k.settled := by
  rcases reply_eq_some h with ⟨rfl, -⟩ | ⟨requester, k', -, -, hk', rfl⟩
  · rfl
  · rw [settled_resumeFromWait hk']
    rfl

/-- A thread that runs or is dead is not resumed by a reply. -/
theorem status_reply {r : Option Result × ThreadSystem} (h : k.reply s = some r)
    (ht : k.thread.status t = .running ∨ k.thread.status t = .dead) :
    r.2.thread.status t = k.thread.status t := by
  rcases reply_eq_some h with ⟨rfl, -⟩ | ⟨requester, k', -, -, hk', rfl⟩
  · rfl
  · rcases (resumeFromWait_eq_some hk').2 with ⟨rfl, -⟩ | ⟨hsync, -, hrun, hdead⟩
    · rfl
    · have hne : t ≠ requester := by
        rintro rfl
        rcases ht with ht | ht
        · exact hrun ht
        · exact hdead ht
      rw [status_of_lists (lists_of_sync hsync)]
      exact update_of_ne hne _ _

theorem Kept.replyAndReceive (h : k.Kept I) (ht : t < k.nextThreadId)
    (hs : k.thread.status t = .running ∨ k.thread.status t = .dead) {addressValid : Bool}
    {handleCount : Int} {handles : Nat → Option ObjRef} {target : Option (Option SessionId)}
    (hr : k.replyAndReceive t addressValid handleCount handles target = some r) :
    r.system.Kept I := by
  have hready : k.thread.status t ≠ .ready := by rcases hs with hs | hs <;> simp [hs]
  unfold ThreadSystem.replyAndReceive at hr
  split at hr
  · obtain rfl := some.inj hr
    exact h
  · split at hr
    · obtain rfl := some.inj hr
      exact h
    · split at hr
      · obtain rfl := some.inj hr
        exact h
      · split at hr
        · exact h.receive ht hready hr
        · obtain rfl := some.inj hr
          exact h
        · obtain ⟨p, hp, hr⟩ := bind_eq_some_iff.mp hr
          have hsched := h.reply hp
          split at hr
          · obtain rfl := some.inj hr
            exact hsched
          · refine hsched.receive ?_ ?_ hr
            · have := nextThreadId_of_settled (settled_reply hp)
              rw [this]
              exact ht
            · rw [status_reply hp hs]
              exact hready

theorem Kept.handleSyncRequest (h : k.Kept I) (ht : t < k.nextThreadId)
    (hs : k.handleSyncRequest s t = some k') : k'.Kept I := by
  refine Kept.wakeupAllWaitingThreads ?_ hs
  split
  · next hrun =>
    have hset : (k.setStatus t .waitIPC).Kept I :=
      h.setStatus ht (by simp [hrun]) (by simp) (by simp)
    refine ⟨⟨hset.holds, h.linked, h.current, hset.running, h.nominal_le, h.current_le, hset.fresh,
      fun i u hu => ?_, h.listed, h.registered⟩, h.counts⟩
    rcases hu with hu | hu
    · by_cases his : i = s
      · subst his
        simp only [update_self, List.mem_append, List.mem_singleton] at hu
        rcases hu with hu | rfl
        · exact h.requesters i u (inl hu)
        · exact ht
      · exact h.requesters i u (inl (by simpa [his] using hu))
    · exact h.requesters i u (inr hu)
  · exact h

theorem Kept.closeClientSession (h : k.Kept I) (hs : k.closeClientSession s = some k') :
    k'.Kept I := by
  refine Kept.wakeupAllWaitingThreads ?_ hs
  refine ⟨⟨h.holds, h.linked, h.current, h.running, h.nominal_le, h.current_le, h.fresh,
    fun i u hu => ?_, h.listed, h.registered⟩, h.counts⟩
  by_cases his : i = s
  · subst his
    simp at hu
  · exact h.requesters i u (by simpa [his] using hu)

theorem Kept.setThreadPriority (h : k.Kept I) {maxPriority : Nat}
    {r : Result × ThreadSystem} (hr : k.setThreadPriority t maxPriority priority = some r) :
    r.2.Kept I := by
  unfold ThreadSystem.setThreadPriority at hr
  split at hr
  · obtain rfl := some.inj hr
    exact h
  · split at hr
    · obtain rfl := some.inj hr
      exact h
    · obtain ⟨k₁, h₁, hr⟩ := bind_eq_some_iff.mp hr
      obtain rfl := some.inj hr
      have hloop : ∀ (l : List MutexId) {j : ThreadSystem}, j.Kept I →
          (l.foldl ThreadSystem.updateMutexPriority j).Kept I := by
        intro l
        induction l with
        | nil => exact id
        | cons m rest ih => exact fun hj => ih (hj.updateMutexPriority m)
      exact hloop _ ((h.setPriority h₁).updatePriority t)

theorem Kept.threadWakeupCallback (h : k.Kept I)
    (hw : k.threadWakeupCallback core t = some k') : k'.Kept I := by
  obtain ⟨u, hu, hw⟩ := bind_eq_some_iff.mp hw
  have ht : t < k.nextThreadId := by
    refine h.registered core t ?_
    by_contra hno
    simp [hno] at hu
  split at hw
  · obtain ⟨k₁, h₁, hw⟩ := bind_eq_some_iff.mp hw
    refine ((h.runCallback h₁).leaveWaitObjects t).resumeFromWait ?_ hw
    rw [nextThreadId_leaveWaitObjects, nextThreadId_of_lists (lists_of_sync (sync_runCallback h₁))]
    exact ht
  · exact h.resumeFromWait ht hw

theorem Kept.wakeupSleepingThreads (h : k.Kept I) (hw : k.wakeupSleepingThreads = some k') :
    k'.Kept I := by
  obtain ⟨k₁, h₁, hw⟩ := bind_eq_some_iff.mp hw
  obtain rfl := some.inj hw
  have hwoken : k₁.Kept I := by
    refine foldlM_induction (fun t _ j j' hj hj' => ?_) h h₁
    split at hj'
    · next ht => exact hj.resumeFromWait (hj.listed 1 t ht.1).2 hj'
    · exact some.inj hj' ▸ hj
  exact hwoken.congr rfl

theorem existing_eq_some {u : ThreadId} (h : k.existing t = some u) :
    u = t ∧ t < k.nextThreadId := by
  unfold existing at h
  split at h
  · next ht => exact ⟨(some.inj h).symm, ht⟩
  · cases h

/-- The semaphores behind the sum of a release. -/
def released (k : ThreadSystem) (s : SemaphoreId) (count : Int) : SemaphoreFields :=
  { k.semaphore with availableCount := update k.semaphore.availableCount s count }

/-- Every call keeps both invariants, when the sums of releases do. -/
theorem Kept.step {k k' : ThreadSystem} (h : k.Kept I) {call : Call}
    (hrelease : ∀ s releaseCount, call = .releaseSemaphore s releaseCount →
      ∀ count, count = wrap32 (releaseCount + k.semaphore.availableCount s) →
        count ≤ k.semaphore.maxCount s → I.Holds (k.released s count))
    (hs : k.step call = some k') : k'.Kept I := by
  cases call with
  | waitSynchronization1 core object nanoSeconds =>
    obtain ⟨t, ht, hs⟩ := bind_eq_some_iff.mp hs
    obtain ⟨r, hr, hs⟩ := bind_eq_some_iff.mp hs
    obtain rfl := some.inj hs
    exact h.waitSynchronization1 (h.lt_of_caller ht) (status_of_caller ht) hr
  | waitSynchronizationN core addressValid handleCount handles waitAll nanoSeconds =>
    obtain ⟨t, ht, hs⟩ := bind_eq_some_iff.mp hs
    obtain ⟨r, hr, hs⟩ := bind_eq_some_iff.mp hs
    obtain rfl := some.inj hs
    exact h.waitSynchronizationN (h.lt_of_caller ht) (status_of_caller ht) hr
  | replyAndReceive core addressValid handleCount handles target =>
    obtain ⟨t, ht, hs⟩ := bind_eq_some_iff.mp hs
    obtain ⟨r, hr, hs⟩ := bind_eq_some_iff.mp hs
    obtain rfl := some.inj hs
    exact h.replyAndReceive (h.lt_of_caller ht) (caller_eq_some.mp ht).2 hr
  | sendSyncRequest core server =>
    obtain ⟨t, ht, hs⟩ := bind_eq_some_iff.mp hs
    obtain ⟨r, hr, hs⟩ := bind_eq_some_iff.mp hs
    obtain rfl := some.inj hs
    unfold ThreadSystem.sendSyncRequest at hr
    split at hr
    · obtain rfl := some.inj hr
      exact h
    · obtain ⟨k₁, h₁, hr⟩ := bind_eq_some_iff.mp hr
      obtain rfl := some.inj hr
      exact h.handleSyncRequest (h.lt_of_caller ht) h₁
  | releaseMutex core m =>
    obtain ⟨t, ht, hs⟩ := bind_eq_some_iff.mp hs
    obtain ⟨r, hr, hs⟩ := bind_eq_some_iff.mp hs
    obtain rfl := some.inj hs
    exact h.mutexRelease hr
  | acquireNewMutex core m =>
    obtain ⟨t, ht, hs⟩ := bind_eq_some_iff.mp hs
    exact h.acquire hs
  | sleepThread core nanoSeconds =>
    obtain ⟨t, ht, hs⟩ := bind_eq_some_iff.mp hs
    obtain ⟨first, -, hs⟩ := bind_eq_some_iff.mp hs
    split at hs
    · obtain rfl := some.inj hs
      exact h
    · obtain rfl := some.inj hs
      exact h.setStatus (h.lt_of_caller ht) (status_of_caller ht) (by simp) (by simp)
  | exitThread core =>
    obtain ⟨t, ht, hs⟩ := bind_eq_some_iff.mp hs
    exact h.exitCurrentThread hs
  | terminateProcess process => exact h.terminateProcess hs
  | setThreadPriority t maxPriority priority =>
    obtain ⟨u, -, hs⟩ := bind_eq_some_iff.mp hs
    obtain ⟨r, hr, hs⟩ := bind_eq_some_iff.mp hs
    obtain rfl := some.inj hs
    exact h.setThreadPriority hr
  | createThread process category core priority entryValid tlsAllocated makeReady =>
    obtain ⟨r, hr, hs⟩ := bind_eq_some_iff.mp hs
    obtain rfl := some.inj hs
    unfold ThreadSystem.createThread at hr
    split at hr
    · obtain rfl := some.inj hr
      exact h
    · next hp =>
      split at hr
      · obtain rfl := some.inj hr
        exact h
      · split at hr
        · obtain rfl := some.inj hr
          exact h
        · split at hr
          · cases hr
          · obtain rfl := some.inj hr
            exact ⟨h.addThread process category core (Nat.not_lt.mp hp) _, h.counts⟩
  | signalEvent e =>
    refine Kept.wakeupAllWaitingThreads ?_ hs
    exact h.congr rfl
  | clearEvent e =>
    obtain rfl := some.inj hs
    exact h.congr rfl
  | signalTimer i =>
    refine Kept.wakeupAllWaitingThreads ?_ hs
    exact h.congr rfl
  | clearTimer i =>
    obtain rfl := some.inj hs
    exact h.congr rfl
  | releaseSemaphore s releaseCount =>
    obtain ⟨r, hr, hs⟩ := bind_eq_some_iff.mp hs
    obtain rfl := some.inj hs
    unfold semaphoreRelease at hr
    dsimp only at hr
    split at hr
    · next hle =>
      obtain ⟨k₁, h₁, hr⟩ := bind_eq_some_iff.mp hr
      obtain rfl := some.inj hr
      refine Kept.wakeupAllWaitingThreads ?_ h₁
      exact ⟨h.toScheduled.congr rfl, hrelease s releaseCount rfl _ rfl hle⟩
    · obtain rfl := some.inj hr
      exact h
  | closeClientSession s => exact h.closeClientSession hs
  | wakeupTimeout core t => exact h.threadWakeupCallback hs
  | resumeFromWait t =>
    obtain ⟨u, hu, hr⟩ := bind_eq_some_iff.mp hs
    obtain ⟨rfl, ht⟩ := existing_eq_some hu
    exact h.resumeFromWait ht hr
  | setUnscheduleMode t mode =>
    obtain ⟨u, -, hs⟩ := bind_eq_some_iff.mp hs
    obtain rfl := some.inj hs
    exact h.congr rfl
  | clearUnscheduleMode t mode =>
    obtain ⟨u, -, hs⟩ := bind_eq_some_iff.mp hs
    obtain rfl := some.inj hs
    exact h.congr rfl
  | reschedule core => exact h.reschedule hs
  | limiterStart =>
    obtain rfl := some.inj hs
    unfold ThreadSystem.limiterStart
    split
    · exact h
    · exact h.congr rfl
  | limiterEnd =>
    unfold ThreadSystem.step ThreadSystem.limiterEnd at hs
    dsimp only at hs
    split at hs
    · obtain rfl := some.inj hs
      exact h
    · refine Kept.wakeupSleepingThreads ?_ hs
      exact h.congr rfl
  | updateAppCpuLimit preempts =>
    unfold ThreadSystem.step ThreadSystem.updateAppCpuLimit at hs
    dsimp only at hs
    split at hs
    · obtain rfl := some.inj hs
      exact h
    · split at hs
      · obtain rfl := some.inj hs
        exact h.congr rfl
      · refine Kept.wakeupSleepingThreads ?_ hs
        exact h.congr rfl
  | limiterTick =>
    obtain ⟨k₁, h₁, hs⟩ := bind_eq_some_iff.mp hs
    obtain rfl := some.inj hs
    exact (h.wakeupSleepingThreads h₁).congr rfl

/-- Every call keeps the ready queues right. -/
theorem Scheduled.step {k k' : ThreadSystem} (h : k.Scheduled) {call : Call}
    (hs : k.step call = some k') : k'.Scheduled :=
  (Kept.step (I := ⟨fun _ => True, fun _ => trivial⟩) ⟨h, trivial⟩
    (fun _ _ _ _ _ _ => trivial) hs).toScheduled

end ThreadSystem

end GbaStation.Kernel
