import GbaStation.Common.Interleaving
import GbaStation.Kernel.ServiceCalls

/-!
# Wait lists

Who waits for what is written down twice: in the `waiting_threads` of the objects and in the
`wait_objects` of the threads, and for mutexes a third time in `pending_mutexes`.
-/

namespace GbaStation.Kernel

open GbaStation.Common
open Option (some.inj bind_eq_some_iff ite_none_left_eq_some)
open Function (update)
open Or (inl inr)

namespace ThreadSystem

/-! ## The state without priorities -/

/-- The state without what the priority updates and the wake-up callbacks write. -/
def sync (k : ThreadSystem) : ThreadSystem :=
  { k with
    mutex.priority := fun _ => 0
    thread.currentPriority := fun _ => 0
    thread.cpuRegister0 := fun _ => Result.success
    thread.cpuRegister1 := fun _ => 0
    manager.readyQueue := fun _ => ThreadQueueList.empty }

theorem sync_updateMutexPriority (k : ThreadSystem) (m : MutexId) :
    (k.updateMutexPriority m).sync = k.sync := by
  unfold updateMutexPriority
  split
  · rfl
  · split <;> rfl

variable {k k' : ThreadSystem} {t : ThreadId} {m : MutexId} {o : ObjRef} {P : ThreadSystem → Prop}

/-- A wake-up callback writes registers only. -/
theorem runCallback_eq_some {reason : ThreadWakeupReason} {object : Option ObjRef}
    (h : k.runCallback reason t object = some k') :
    ∃ r₀ r₁, k' = { k with thread.cpuRegister0 := r₀, thread.cpuRegister1 := r₁ } := by
  unfold runCallback at h
  split at h
  · exact ⟨_, _, (some.inj h).symm⟩
  · next callback _ =>
    unfold wakeUp at h
    split at h
    · exact ⟨_, _, (some.inj h).symm⟩
    · dsimp only at h
      split at h
      · simp only [Option.bind_eq_bind, bind_eq_some_iff] at h
        obtain ⟨o, -, index, -, h⟩ := h
        exact ⟨_, _, (some.inj h).symm⟩
      · exact ⟨_, _, (some.inj h).symm⟩
    · simp only [Option.bind_eq_bind, bind_eq_some_iff] at h
      obtain ⟨-, -, -, -, result, -, o, -, index, -, h⟩ := h
      exact ⟨_, _, (some.inj h).symm⟩

theorem sync_runCallback {reason : ThreadWakeupReason} {object : Option ObjRef}
    (h : k.runCallback reason t object = some k') : k'.sync = k.sync := by
  obtain ⟨r₀, r₁, rfl⟩ := runCallback_eq_some h
  rfl

/-! ## Adding to and removing from the lists -/

/-- `addWaitingThread` without the priority update. -/
def linkWaiter (k : ThreadSystem) (o : ObjRef) (t : ThreadId) : ThreadSystem :=
  match o with
  | .mutex m =>
    { k.pushWaitingThread o t with
      thread.pendingMutexes :=
        update k.thread.pendingMutexes t (flatInsert m (k.thread.pendingMutexes t)) }
  | _ => k.pushWaitingThread o t

/-- `removeWaitingThread` without the priority update. -/
def unlinkWaiter (k : ThreadSystem) (o : ObjRef) (t : ThreadId) : ThreadSystem :=
  match o with
  | .mutex m =>
    { k.eraseWaitingThread o t with
      thread.pendingMutexes :=
        update k.thread.pendingMutexes t ((k.thread.pendingMutexes t).erase m) }
  | _ => k.eraseWaitingThread o t

theorem sync_addWaitingThread (k : ThreadSystem) (o : ObjRef) (t : ThreadId) :
    (k.addWaitingThread o t).sync = k.sync.linkWaiter o t := by
  cases o with
  | mutex m => exact sync_updateMutexPriority _ m
  | _ => rfl

theorem sync_removeWaitingThread (k : ThreadSystem) (o : ObjRef) (t : ThreadId) :
    (k.removeWaitingThread o t).sync = k.sync.unlinkWaiter o t := by
  cases o with
  | mutex m => exact sync_updateMutexPriority _ m
  | _ => rfl

theorem sync_addToAll (k : ThreadSystem) (t : ThreadId) (objects : List ObjRef) :
    (k.addToAll t objects).sync = objects.foldl (fun k o => k.linkWaiter o t) k.sync := by
  unfold addToAll
  induction objects generalizing k with
  | nil => rfl
  | cons o rest ih => rw [List.foldl_cons, List.foldl_cons, ih, sync_addWaitingThread]

/-- The mutexes among the objects. -/
def insertMutexes (objects : List ObjRef) (l : List MutexId) : List MutexId :=
  objects.foldl (fun l o => match o with
    | .mutex m => flatInsert m l
    | _ => l) l

/-- What adding a thread to the lists of some objects does. -/
theorem linkAll_eq (k : ThreadSystem) (t : ThreadId) (objects : List ObjRef) :
    objects.foldl (fun k o => k.linkWaiter o t) k = { k with
      waitingThreads := fun o =>
        if o ∈ objects then pushAbsent t (k.waitingThreads o) else k.waitingThreads o
      thread.pendingMutexes := update k.thread.pendingMutexes t
        (insertMutexes objects (k.thread.pendingMutexes t)) } := by
  induction objects generalizing k with
  | nil => simp [insertMutexes]
  | cons o rest ih =>
    rw [List.foldl_cons, ih]
    have hpush : ∀ l : List ThreadId, pushAbsent t (pushAbsent t l) = pushAbsent t l := by
      intro l
      unfold pushAbsent
      split_ifs <;> simp_all
    have hlists : (fun a => if a ∈ rest then pushAbsent t ((k.linkWaiter o t).waitingThreads a)
          else (k.linkWaiter o t).waitingThreads a) =
        fun a => if a ∈ o :: rest then pushAbsent t (k.waitingThreads a)
          else k.waitingThreads a := by
      funext a
      have hw : (k.linkWaiter o t).waitingThreads =
          update k.waitingThreads o (pushAbsent t (k.waitingThreads o)) := by
        cases o <;> rfl
      rw [hw]
      by_cases hao : a = o
      · subst hao
        simp [hpush]
      · simp [hao]
    rw [hlists]
    cases o with
    | mutex m => simp [linkWaiter, pushWaitingThread, insertMutexes]
    | _ => simp [linkWaiter, pushWaitingThread, insertMutexes]

/-- The state without what acquisitions write: who holds what, and which objects are available. -/
def lists (k : ThreadSystem) : ThreadSystem :=
  { k.sync with
    event.signaled := fun _ => false
    timer.signaled := fun _ => false
    semaphore.availableCount := fun _ => 0
    mutex.lockCount := fun _ => 0
    mutex.holdingThread := fun _ => none
    thread.heldMutexes := fun _ => []
    session.clientOpen := fun _ => false
    session.pendingRequestingThreads := fun _ => []
    session.currentlyHandling := fun _ => none }

theorem lists_of_sync (h : k'.sync = k.sync) : k'.lists = k.lists := by
  have hlists : ∀ j : ThreadSystem, j.lists = j.sync.lists := fun _ => rfl
  rw [hlists k', h, ← hlists]

theorem status_of_lists (h : k'.lists = k.lists) : k'.thread.status = k.thread.status := by
  have := congrArg (fun j => j.thread.status) h
  exact this

theorem mutexAcquire_eq_some (h : k.mutexAcquire m t = some k') :
    k.mutex.lockCount m ≠ 2 ^ 31 - 1 ∧
      k'.sync = ({ (if k.mutex.lockCount m = 0 then k.takeMutex m t else k) with
        mutex.lockCount :=
          update k.mutex.lockCount m (k.mutex.lockCount m + 1) } : ThreadSystem).sync := by
  have hcount : (if k.mutex.lockCount m = 0 then k.takeMutex m t else k).mutex.lockCount =
      k.mutex.lockCount := by
    split <;> rfl
  simp only [mutexAcquire, ite_none_left_eq_some, Option.some.injEq] at h
  obtain ⟨hne, rfl⟩ := h
  rw [hcount] at hne ⊢
  exact ⟨hne, rfl⟩

theorem lists_mutexAcquire (h : k.mutexAcquire m t = some k') : k'.lists = k.lists := by
  rw [lists_of_sync (mutexAcquire_eq_some h).2]
  split <;> rfl

/-- An acquisition changes no wait list. -/
theorem lists_acquire (h : k.acquire o t = some k') : k'.lists = k.lists := by
  cases o with
  | event e =>
    obtain ⟨-, h⟩ := ite_none_left_eq_some.mp h
    obtain rfl := some.inj h
    unfold eventAcquire
    split <;> rfl
  | timer i =>
    obtain ⟨-, h⟩ := ite_none_left_eq_some.mp h
    obtain rfl := some.inj h
    unfold timerAcquire
    split <;> rfl
  | semaphore s =>
    obtain rfl := some.inj h
    unfold semaphoreAcquire
    split <;> rfl
  | mutex m => exact lists_mutexAcquire (ite_none_left_eq_some.mp h).2
  | serverSession s =>
    have h := (ite_none_left_eq_some.mp h).2
    unfold sessionAcquire at h
    split at h
    · obtain rfl := some.inj h
      rfl
    · split at h
      · cases h
      · obtain rfl := some.inj h
        rfl
  | thread u =>
    obtain ⟨-, h⟩ := ite_none_left_eq_some.mp h
    obtain rfl := some.inj h
    rfl

/-- A property that every acquisition keeps is kept by a row of acquisitions. -/
theorem acquireAll_induction (hP : ∀ k k' o, P k → k.acquire o t = some k' → P k')
    {objects : List ObjRef} (hk : P k)
    (h : objects.foldlM (fun k object => k.acquire object t) k = some k') : P k' :=
  foldlM_induction (fun o _ k k' => hP k k' o) hk h

theorem acquireFor_induction (hP : ∀ k k' o, P k → k.acquire o t = some k' → P k') (hk : P k)
    (h : k.acquireFor o t = some k') : P k' := by
  unfold acquireFor at h
  split at h
  · exact hP k k' o hk h
  · exact acquireAll_induction hP hk h

theorem lists_acquireFor (h : k.acquireFor o t = some k') : k'.lists = k.lists :=
  acquireFor_induction (P := fun j => j.lists = k.lists)
    (fun _ _ _ hj ha => (lists_acquire ha).trans hj) rfl h

/-- The statuses in which a thread may be on a wait list. -/
def IsWaiting (k : ThreadSystem) (t : ThreadId) : Prop :=
  k.thread.status t = .waitSynchAny ∨ k.thread.status t = .waitSynchAll ∨
    k.thread.status t = .waitHleEvent

/-- Makes a thread ready. -/
def woken (k : ThreadSystem) (t : ThreadId) : ThreadSystem :=
  { k with
    thread.wakeupCallback := update k.thread.wakeupCallback t none
    thread.status := update k.thread.status t .ready }

/-- What `ResumeFromWait` does, whatever the thread was doing. -/
theorem resumeFromWait_eq_some (h : k.resumeFromWait t = some k') :
    k.thread.waitObjects t = [] ∧
      (k' = k ∧ (k.thread.status t = .ready ∨ k.thread.status t = .running ∨
          k.thread.status t = .dead) ∨
        k'.sync = (k.woken t).sync ∧ k.thread.status t ≠ .ready ∧ k.thread.status t ≠ .running ∧
          k.thread.status t ≠ .dead) := by
  obtain ⟨hw, h⟩ := ite_none_left_eq_some.mp h
  refine ⟨not_not.mp hw, ?_⟩
  split at h
  · next hs =>
    split at h
    · exact inl ⟨(some.inj h).symm, inl hs⟩
    · cases h
  · next hs => exact inl ⟨(some.inj h).symm, inr (inl hs)⟩
  · next hs => exact inl ⟨(some.inj h).symm, inr (inr hs)⟩
  · next hready hrun hdead =>
    obtain rfl := some.inj h
    exact inr ⟨rfl, hready, hrun, hdead⟩

/-! ## The loop of a wake-up -/

theorem considerWaiter_eq_some {c r : Option ThreadId × Nat} (h : k.considerWaiter o c t = some r) :
    k.IsWaiting t ∧
      (r = c ∧ (c.2 ≤ k.thread.currentPriority t ∨ k.readyToRun o t = false) ∨
        r = (some t, k.thread.currentPriority t) ∧ k.readyToRun o t = true) := by
  obtain ⟨hs, h⟩ := ite_none_left_eq_some.mp h
  refine ⟨?_, ?_⟩
  · unfold IsWaiting
    by_contra hno
    simp only [not_or] at hno
    exact hs hno
  · split at h
    · next hle => exact inl ⟨(some.inj h).symm, inl hle⟩
    · split at h
      · next hr => exact inr ⟨(some.inj h).symm, hr⟩
      · next hr => exact inl ⟨(some.inj h).symm, inr (by simpa using hr)⟩

/-- The candidate of `GetHighestPriorityReadyThread` is a waiting thread that is ready to run. -/
theorem considerAll_eq_some {l : List ThreadId} {c r : Option ThreadId × Nat}
    (h : l.foldlM (k.considerWaiter o) c = some r) :
    (∀ t ∈ l, k.IsWaiting t) ∧
      (r.1 = c.1 ∨ ∃ t ∈ l, r.1 = some t ∧ k.readyToRun o t = true) ∧
      (r.1 = none → c.2 = threadPrioLowest + 1 →
        (∀ t, k.thread.currentPriority t ≤ threadPrioLowest) →
        ∀ t ∈ l, k.readyToRun o t = false) := by
  induction l generalizing c with
  | nil =>
    obtain rfl : c = r := some.inj h
    exact ⟨by simp, inl rfl, by simp⟩
  | cons t rest ih =>
    rw [List.foldlM_cons] at h
    obtain ⟨c', hc, h⟩ := bind_eq_some_iff.mp h
    obtain ⟨hrest, hfound, hnone⟩ := ih h
    obtain ⟨ht, hstep⟩ := considerWaiter_eq_some hc
    refine ⟨List.forall_mem_cons.mpr ⟨ht, hrest⟩, ?_, ?_⟩
    · rcases hfound with hsame | ⟨u, hu, hru, hready⟩
      · rcases hstep with ⟨rfl, -⟩ | ⟨rfl, hready⟩
        · exact inl hsame
        · exact inr ⟨t, List.mem_cons_self, hsame, hready⟩
      · exact inr ⟨u, List.mem_cons_of_mem _ hu, hru, hready⟩
    · intro hr hc₂ hprio
      rcases hstep with ⟨rfl, hno⟩ | ⟨rfl, -⟩
      · refine List.forall_mem_cons.mpr ⟨?_, hnone hr hc₂ hprio⟩
        rcases hno with hle | hno
        · have := hprio t
          omega
        · exact hno
      · -- a candidate is never given up
        rcases hfound with hsame | ⟨u, -, hru, -⟩
        · rw [hr] at hsame
          cases hsame
        · rw [hr] at hru
          cases hru

theorem getHighestPriorityReadyThread_eq_some
    (h : k.getHighestPriorityReadyThread o = some (some t)) :
    t ∈ k.waitingThreads o ∧ k.IsWaiting t ∧ k.readyToRun o t = true := by
  obtain ⟨r, hr, hrt⟩ := Option.map_eq_some_iff.mp h
  obtain ⟨hall, hfound, -⟩ := considerAll_eq_some hr
  rw [hrt] at hfound
  rcases hfound with hno | ⟨u, hu, hut, hready⟩
  · cases hno
  · obtain rfl := some.inj hut
    exact ⟨hu, hall t hu, hready⟩

/-- An invariant of the turns holds when the loop ends, and then nobody is selected any more. -/
theorem wakeup_induction
    (hP : ∀ k k' t, P k → t ∈ k.waitingThreads o → k.IsWaiting t → k.readyToRun o t = true →
      k.wakeThread o t = some k' → P k') {turns : Nat} (hk : P k)
    (h : wakeupLoop o turns k = some k') :
    P k' ∧ k'.getHighestPriorityReadyThread o = some none := by
  induction turns generalizing k with
  | zero => cases h
  | succ turns ih =>
    obtain ⟨r, hr, h⟩ := bind_eq_some_iff.mp h
    cases r with
    | none =>
      obtain rfl := some.inj h
      exact ⟨hk, hr⟩
    | some t =>
      obtain ⟨k₁, h₁, h⟩ := bind_eq_some_iff.mp h
      obtain ⟨hmem, hwait, hready⟩ := getHighestPriorityReadyThread_eq_some hr
      exact ih (hP k k₁ t hk hmem hwait hready h₁) h

/-! ## What wake-ups leave alone -/

/-- The state without everything that waking and stopping threads write. -/
def settled (k : ThreadSystem) : ThreadSystem :=
  { k.lists with
    waitingThreads := fun _ => []
    thread.status := fun _ => .dormant
    thread.waitObjects := fun _ => []
    thread.pendingMutexes := fun _ => []
    thread.wakeupCallback := fun _ => none
    manager.wakeupCallbackTable := fun _ => [] }

theorem settled_of_lists (h : k'.lists = k.lists) : k'.settled = k.settled := by
  have hsettled : ∀ j : ThreadSystem, j.settled = j.lists.settled := fun _ => rfl
  rw [hsettled k', h, ← hsettled]

theorem settled_of_sync (h : k'.sync = k.sync) : k'.settled = k.settled :=
  settled_of_lists (lists_of_sync h)

theorem settled_unlinkWaiter (k : ThreadSystem) (o : ObjRef) (t : ThreadId) :
    (k.unlinkWaiter o t).settled = k.settled := by
  cases o <;> rfl

theorem settled_leaveWaitObjects (k : ThreadSystem) (t : ThreadId) :
    (k.leaveWaitObjects t).settled = k.settled := by
  have hloop : ∀ (objects : List ObjRef) (j : ThreadSystem),
      (objects.foldl (fun k o => k.removeWaitingThread o t) j).settled = j.settled := by
    intro objects
    induction objects with
    | nil => exact fun _ => rfl
    | cons o rest ih =>
      intro j
      have hsync : (j.removeWaitingThread o t).sync = (j.unlinkWaiter o t).sync := by
        rw [sync_removeWaitingThread]
        cases o <;> rfl
      rw [List.foldl_cons, ih, settled_of_sync hsync, settled_unlinkWaiter]
  exact hloop _ k

theorem settled_resumeFromWait (h : k.resumeFromWait t = some k') : k'.settled = k.settled := by
  rcases (resumeFromWait_eq_some h).2 with ⟨rfl, -⟩ | ⟨hs, -⟩
  · rfl
  · rw [settled_of_sync hs]
    rfl

theorem settled_wakeThread (h : k.wakeThread o t = some k') : k'.settled = k.settled := by
  obtain ⟨k₁, h₁, h⟩ := bind_eq_some_iff.mp h
  obtain ⟨k₂, h₂, h⟩ := bind_eq_some_iff.mp h
  rw [settled_resumeFromWait h, settled_leaveWaitObjects, settled_of_sync (sync_runCallback h₂),
    settled_of_lists (lists_acquireFor h₁)]

theorem settled_endPulse (k : ThreadSystem) (o : ObjRef) : (k.endPulse o).settled = k.settled := by
  cases o with
  | event e => unfold endPulse; dsimp only; split <;> rfl
  | timer i => unfold endPulse; dsimp only; split <;> rfl
  | _ => rfl

theorem settled_wakeupAllWaitingThreads (h : k.wakeupAllWaitingThreads o = some k') :
    k'.settled = k.settled := by
  obtain ⟨k₁, h₁, h⟩ := bind_eq_some_iff.mp h
  obtain rfl := some.inj h
  rw [settled_endPulse]
  exact (wakeup_induction (P := fun j => j.settled = k.settled)
    (fun _ _ _ hj _ _ _ hw => (settled_wakeThread hw).trans hj) rfl h₁).1

theorem settled_forceRelease (h : k.forceRelease m = some k') : k'.settled = k.settled := by
  rw [settled_wakeupAllWaitingThreads h]
  simp only [settled, lists, sync]

/-- A property that every turn of `ReleaseThreadMutexes` keeps is kept by the loop. -/
theorem forceRelease_induction (hP : ∀ k k' m, P k → k.forceRelease m = some k' → P k')
    {l : List MutexId} (hk : P k) (h : l.foldlM forceRelease k = some k') : P k' :=
  foldlM_induction (fun m _ k k' => hP k k' m) hk h

theorem settled_stop (h : k.stop t = some k') : k'.settled = k.settled := by
  obtain ⟨k₁, h₁, h⟩ := bind_eq_some_iff.mp h
  obtain ⟨k₂, h₂, h⟩ := bind_eq_some_iff.mp h
  obtain rfl := some.inj h
  have hloop : k₂.settled = (k₁.leaveWaitObjects t).settled :=
    forceRelease_induction (P := fun j => j.settled = (k₁.leaveWaitObjects t).settled)
      (fun _ _ _ hj hf => (settled_forceRelease hf).trans hj) rfl h₂
  have hsettled : ({ k₂ with
      thread.heldMutexes := update k₂.thread.heldMutexes t [] } :
        ThreadSystem).settled = k₂.settled := rfl
  rw [hsettled, hloop, settled_leaveWaitObjects, settled_wakeupAllWaitingThreads h₁]
  rfl

theorem sync_linkAll (k : ThreadSystem) (t : ThreadId) (objects : List ObjRef) :
    (k.addToAll t objects).sync = { k.sync with
      waitingThreads := fun o =>
        if o ∈ objects then pushAbsent t (k.waitingThreads o) else k.waitingThreads o
      thread.pendingMutexes := update k.thread.pendingMutexes t
        (insertMutexes objects (k.thread.pendingMutexes t)) } := by
  rw [sync_addToAll, linkAll_eq]
  rfl

theorem status_addToAll (k : ThreadSystem) (t : ThreadId) (objects : List ObjRef) :
    (k.addToAll t objects).thread.status = k.thread.status := by
  have := congrArg (fun j => j.thread.status) (sync_linkAll k t objects)
  exact this

theorem settled_addToAll (k : ThreadSystem) (t : ThreadId) (objects : List ObjRef) :
    (k.addToAll t objects).settled = k.settled := by
  have hsettled : ∀ j : ThreadSystem, j.settled = j.sync.settled := fun _ => rfl
  rw [hsettled, sync_linkAll]
  rfl

end ThreadSystem

end GbaStation.Kernel
