import GbaStation.Common.Interleaving
import GbaStation.Kernel.ResourceLimits

/-!
# What the current values count

The current value of a resource limit against the objects that are charged to it.

- `accounted_of_allowed`: the invariant along a run.
-/

namespace GbaStation.Kernel

open Option (some.inj map_eq_some_iff)
open Prod (fst snd)

namespace ResourceLimits

/-! ## Changing an element of a list -/

section Modify

variable {α : Type} {f : α → α}

variable {l : List α}

theorem mem_modify {i : Nat} {y : α} (h : y ∈ l.modify i f) : ∃ x ∈ l, y = x ∨ y = f x := by
  induction l generalizing i with
  | nil => cases i <;> cases h
  | cons a l ih =>
    cases i with
    | zero =>
      rw [List.modify_zero_cons] at h
      rcases List.mem_cons.mp h with rfl | h
      · exact ⟨a, List.mem_cons_self, .inr rfl⟩
      · exact ⟨y, List.mem_cons_of_mem _ h, .inl rfl⟩
    | succ i =>
      rw [List.modify_succ_cons] at h
      rcases List.mem_cons.mp h with rfl | h
      · exact ⟨y, List.mem_cons_self, .inl rfl⟩
      · obtain ⟨x, hx, hy⟩ := ih h
        exact ⟨x, List.mem_cons_of_mem _ hx, hy⟩

theorem mem_modify_of_mem (i : Nat) {x : α} (h : x ∈ l) :
    x ∈ l.modify i f ∨ f x ∈ l.modify i f := by
  induction l generalizing i with
  | nil => cases h
  | cons a l ih =>
    cases i with
    | zero =>
      rw [List.modify_zero_cons]
      rcases List.mem_cons.mp h with rfl | h
      · exact .inr List.mem_cons_self
      · exact .inl (List.mem_cons_of_mem _ h)
    | succ i =>
      rw [List.modify_succ_cons]
      rcases List.mem_cons.mp h with rfl | h
      · exact .inl List.mem_cons_self
      · exact (ih i h).imp (List.mem_cons_of_mem _) (List.mem_cons_of_mem _)

/-- A change counts for the element that it changes. -/
theorem countP_modify {i : Nat} {x : α} (p : α → Bool) (h : l[i]? = some x) :
    (l.modify i f).countP p + (if p x then 1 else 0) =
      l.countP p + if p (f x) then 1 else 0 := by
  induction l generalizing i with
  | nil => cases h
  | cons a l ih =>
    cases i with
    | zero =>
      cases h
      rw [List.modify_zero_cons, List.countP_cons, List.countP_cons]
      omega
    | succ i =>
      rw [List.modify_succ_cons, List.countP_cons, List.countP_cons]
      have := ih (i := i) (by simpa using h)
      omega

end Modify

namespace KernelSystem

variable {P : Type}

/-! ## What is charged -/

def value (k : KernelSystem P) (category : ResourceLimitCategory) (type : ResourceLimitType) :
    Int :=
  (k.limits category).getCurrentValue type

/-- The object is charged to the category. -/
def SyncCharged (category : ResourceLimitCategory) (type : ResourceLimitType)
    (object : SyncObject) : Bool :=
  object.type.limitType = type ∧ object.resourceLimit = some category

/-- The thread is alive, of a process of the category. -/
def ThreadCharged (k : KernelSystem P) (category : ResourceLimitCategory)
    (type : ResourceLimitType) (thread : Thread P) : Bool :=
  type = .thread ∧ thread.status ≠ .dead ∧ k.process.resourceLimit thread.ownerProcess = category

/-- The objects that are alive and charged to a category. -/
def charged (k : KernelSystem P) (category : ResourceLimitCategory) (type : ResourceLimitType) :
    Nat :=
  k.objects.countP (SyncCharged category type) + k.threads.countP (k.ThreadCharged category type)

/-- The reservations that are not for an object. -/
def excess (k : KernelSystem P) (category : ResourceLimitCategory) (type : ResourceLimitType) :
    Int :=
  k.value category type - k.charged category type

/-- One, for the category and the type. -/
def unit (category : ResourceLimitCategory) (type : ResourceLimitType)
    (category' : ResourceLimitCategory) (type' : ResourceLimitType) : Int :=
  if category' = category ∧ type' = type then 1 else 0

theorem reserve_fst (k : KernelSystem P) (category : ResourceLimitCategory)
    (type : ResourceLimitType) : (k.reserve category type).1 = true := rfl

theorem value_reserve (k : KernelSystem P) (category category' : ResourceLimitCategory)
    (type type' : ResourceLimitType) :
    (k.reserve category type).2.value category' type' =
      k.value category' type' + unit category type category' type' := by
  unfold reserve value unit ResourceLimit.reserve ResourceLimit.getCurrentValue
  by_cases hcategory : category' = category
  · subst hcategory
    by_cases htype : type' = type
    · subst htype
      simp
    · simp [htype]
  · simp [hcategory]

theorem value_release (k : KernelSystem P) (category category' : ResourceLimitCategory)
    (type type' : ResourceLimitType) :
    (k.release category type).value category' type' =
      k.value category' type' - unit category type category' type' := by
  unfold release value unit ResourceLimit.release ResourceLimit.getCurrentValue
  by_cases hcategory : category' = category
  · subst hcategory
    by_cases htype : type' = type
    · subst htype
      simp
    · simp [htype]
  · simp [hcategory]

theorem charged_congr {k k' : KernelSystem P} (hobjects : k'.objects = k.objects)
    (hthreads : k'.threads = k.threads)
    (hprocess : k'.process.resourceLimit = k.process.resourceLimit)
    (category : ResourceLimitCategory) (type : ResourceLimitType) :
    k'.charged category type = k.charged category type := by
  unfold charged ThreadCharged
  rw [hobjects, hthreads, hprocess]

/-! ## Destroying objects -/

theorem destroy_eq (k : KernelSystem P) (object : SyncObject) :
    k.destroy object = { k with limits := (k.destroy object).limits } := by
  unfold destroy
  split
  · rfl
  · rfl

theorem foldl_destroy_eq (objects : List SyncObject) (k : KernelSystem P) :
    objects.foldl destroy k = { k with limits := (objects.foldl destroy k).limits } := by
  induction objects generalizing k with
  | nil => rfl
  | cons object objects ih =>
    rw [List.foldl_cons, ih, destroy_eq]

theorem value_destroy (k : KernelSystem P) (object : SyncObject) (category : ResourceLimitCategory)
    (type : ResourceLimitType) :
    (k.destroy object).value category type =
      k.value category type - if SyncCharged category type object then 1 else 0 := by
  unfold destroy SyncCharged
  cases hlimit : object.resourceLimit with
  | none => simp
  | some category' =>
    simp only [value_release, unit, Option.some.injEq, decide_eq_true_eq]
    congr 2
    exact propext ⟨fun h => ⟨h.2.symm, h.1.symm⟩, fun h => ⟨h.2.symm, h.1.symm⟩⟩

theorem value_foldl_destroy (objects : List SyncObject) (k : KernelSystem P)
    (category : ResourceLimitCategory) (type : ResourceLimitType) :
    (objects.foldl destroy k).value category type =
      k.value category type - objects.countP (SyncCharged category type) := by
  induction objects generalizing k with
  | nil => simp
  | cons object objects ih =>
    rw [List.foldl_cons, ih, value_destroy, List.countP_cons]
    split_ifs
    · omega
    · omega

section Collect

variable [DecidableEq P] [Fintype P] (k : KernelSystem P)

theorem collect_eq :
    k.collect = { k with
      objects := k.objects.filter fun object => k.IsReferenced object.id
      limits := k.collect.limits } := by
  unfold collect
  rw [foldl_destroy_eq]

theorem collect_objects :
    k.collect.objects = k.objects.filter fun object => k.IsReferenced object.id := by
  rw [collect_eq]

theorem collect_threads : k.collect.threads = k.threads := by
  rw [collect_eq]

theorem collect_process : k.collect.process = k.process := by
  rw [collect_eq]

theorem collect_nextObjectId : k.collect.nextObjectId = k.nextObjectId := by
  rw [collect_eq]

theorem isReferenced_collect (id : ObjectId) : k.collect.IsReferenced id ↔ k.IsReferenced id := by
  unfold IsReferenced
  rw [collect_process, collect_threads]

/-- What is destroyed is neither reserved nor charged any more. -/
theorem excess_collect (category : ResourceLimitCategory) (type : ResourceLimitType) :
    k.collect.excess category type = k.excess category type := by
  have hvalue : k.collect.value category type = k.value category type -
      (k.objects.filter fun object => ¬k.IsReferenced object.id).countP
        (SyncCharged category type) := value_foldl_destroy _ _ category type
  have hsplit := List.countP_eq_countP_filter_add k.objects (SyncCharged category type)
    fun object => decide (k.IsReferenced object.id)
  have hnot : (k.objects.filter fun object => ¬k.IsReferenced object.id) =
      k.objects.filter fun object => !decide (k.IsReferenced object.id) := by
    simp only [decide_not]
  have hthreads : k.collect.ThreadCharged category type = k.ThreadCharged category type := by
    unfold ThreadCharged
    rw [collect_process]
  unfold excess charged
  rw [hvalue, collect_objects, collect_threads, hthreads, hnot, hsplit]
  omega

end Collect

/-! ## The operations -/

variable {thread : Thread P} {entryPointMapped : Bool} {processorId : Int} {id : ObjectId}
  {reference : Reference P} {r : Result} {c : Call}

section Excess

variable (k : KernelSystem P) (category : ResourceLimitCategory) (type : ResourceLimitType)

theorem excess_reserve (category' : ResourceLimitCategory) (type' : ResourceLimitType) :
    (k.reserve category' type').2.excess category type =
      k.excess category type + unit category' type' category type := by
  have hcharged : (k.reserve category' type').2.charged category type = k.charged category type :=
    charged_congr rfl rfl rfl category type
  unfold excess
  rw [value_reserve, hcharged]
  omega

theorem excess_release (category' : ResourceLimitCategory) (type' : ResourceLimitType) :
    (k.release category' type').excess category type =
      k.excess category type - unit category' type' category type := by
  have hcharged : (k.release category' type').charged category type = k.charged category type :=
    charged_congr rfl rfl rfl category type
  unfold excess
  rw [value_release, hcharged]
  omega

theorem excess_congr {k k' : KernelSystem P} (hlimits : k'.limits = k.limits)
    (hobjects : k'.objects = k.objects) (hthreads : k'.threads = k.threads)
    (hprocess : k'.process.resourceLimit = k.process.resourceLimit)
    (category : ResourceLimitCategory) (type : ResourceLimitType) :
    k'.excess category type = k.excess category type := by
  have hvalue : k'.value category type = k.value category type := by
    unfold value
    rw [hlimits]
  unfold excess
  rw [charged_congr hobjects hthreads hprocess, hvalue]

theorem excess_addObject (objectType : ObjectType) (category' : ResourceLimitCategory) :
    (k.addObject objectType category').excess category type =
      k.excess category type - unit category' objectType.limitType category type := by
  have hcharged : ((k.addObject objectType category').charged category type : Int) =
      k.charged category type + unit category' objectType.limitType category type := by
    have hthreads : (k.addObject objectType category').ThreadCharged category type =
      k.ThreadCharged category type := rfl
    unfold charged
    rw [hthreads]
    unfold addObject unit SyncCharged
    simp only [List.countP_append, List.countP_singleton, Option.some.injEq, decide_eq_true_eq]
    split_ifs with hnew hunit hunit
    · push_cast
      omega
    · exact absurd ⟨hnew.2.symm, hnew.1.symm⟩ hunit
    · exact absurd ⟨hunit.2.symm, hunit.1.symm⟩ hnew
    · push_cast
      omega
  unfold excess
  rw [hcharged]
  have hvalue : (k.addObject objectType category').value category type = k.value category type :=
    rfl
  omega

theorem excess_addThread (p : P) :
    (k.addThread p).excess category type =
      k.excess category type - unit (k.process.resourceLimit p) .thread category type := by
  have hcharged : ((k.addThread p).charged category type : Int) =
      k.charged category type + unit (k.process.resourceLimit p) .thread category type := by
    have hthreads : (k.addThread p).ThreadCharged category type =
      k.ThreadCharged category type := rfl
    unfold charged
    rw [hthreads]
    unfold addThread unit ThreadCharged
    simp only [List.countP_append, List.countP_singleton, decide_eq_true_eq]
    split_ifs with hnew hunit hunit
    · push_cast
      omega
    · exact absurd ⟨hnew.2.2.symm, hnew.1⟩ hunit
    · exact absurd ⟨hunit.2, by decide, hunit.1.symm⟩ hnew
    · push_cast
      omega
  unfold excess
  rw [hcharged]
  have hvalue : (k.addThread p).value category type = k.value category type := rfl
  omega

/-- A change of a thread that is alive before and after. -/
theorem excess_modifyThread {t : ThreadId} {f : Thread P → Thread P}
    (hthread : k.threads[t]? = some thread)
    (hcharged : k.ThreadCharged category type (f thread) = k.ThreadCharged category type thread) :
    (k.modifyThread t f).excess category type = k.excess category type := by
  have hcount := countP_modify (f := f) (k.ThreadCharged category type) hthread
  rw [hcharged] at hcount
  have hsame : (k.modifyThread t f).charged category type = k.charged category type := by
    have hthreads : (k.modifyThread t f).ThreadCharged category type =
      k.ThreadCharged category type := rfl
    unfold charged
    rw [hthreads]
    unfold modifyThread
    simp only
    omega
  unfold excess
  rw [hsame]
  rfl

/-- A thread that dies. -/
theorem excess_modifyThread_dead {t : ThreadId} {f : Thread P → Thread P}
    (hthread : k.threads[t]? = some thread) (halive : thread.status ≠ .dead)
    (hdead : (f thread).status = .dead) :
    (k.modifyThread t f).excess category type = k.excess category type +
      unit (k.process.resourceLimit thread.ownerProcess) .thread category type := by
  have hcount := countP_modify (f := f) (k.ThreadCharged category type) hthread
  have hafter : k.ThreadCharged category type (f thread) = false := by
    unfold ThreadCharged
    simp [hdead]
  have hbefore : (if k.ThreadCharged category type thread then (1 : Int) else 0) =
      unit (k.process.resourceLimit thread.ownerProcess) .thread category type := by
    unfold ThreadCharged unit
    simp only [decide_eq_true_eq]
    congr 1
    exact propext ⟨fun h => ⟨h.2.2.symm, h.1⟩, fun h => ⟨h.2, halive, h.1.symm⟩⟩
  have hsame : ((k.modifyThread t f).charged category type : Int) =
      k.charged category type -
        unit (k.process.resourceLimit thread.ownerProcess) .thread category type := by
    have hthreads : (k.modifyThread t f).ThreadCharged category type =
      k.ThreadCharged category type := rfl
    have hobjects : (k.modifyThread t f).objects = k.objects := rfl
    have hlist : (k.modifyThread t f).threads = k.threads.modify t f := rfl
    rw [hafter, if_neg Bool.false_ne_true] at hcount
    unfold charged
    rw [hthreads, hobjects, hlist, ← hbefore]
    by_cases hcharged : k.ThreadCharged category type thread = true
    · rw [if_pos hcharged] at hcount ⊢
      push_cast
      omega
    · rw [if_neg hcharged] at hcount ⊢
      push_cast
      omega
  have hvalue : (k.modifyThread t f).value category type = k.value category type := rfl
  unfold excess
  rw [hsame, hvalue]
  omega

theorem excess_acquire (id : ObjectId) (holder : Option ThreadId) :
    (k.acquire id holder).excess category type = k.excess category type := by
  cases holder with
  | none => rfl
  | some t =>
    cases hthread : k.threads[t]? with
    | some thread => exact k.excess_modifyThread category type hthread rfl
    | none =>
      have hthreads : (k.acquire id (some t)).threads = k.threads :=
        List.modify_eq_self (List.getElem?_eq_none_iff.mp hthread)
      refine excess_congr ?_ ?_ hthreads ?_ category type
      · rfl
      · rfl
      · rfl

variable [DecidableEq P]

theorem excess_createHandle (p : P) (reference : Reference P) :
    (k.createHandle p reference).2.excess category type = k.excess category type :=
  excess_congr rfl rfl rfl rfl category type

/-- The reservation of an object that is not created stays. -/
theorem excess_createObject (p : P) (objectType : ObjectType) (invalid : Option Result)
    (holder : Option ThreadId) :
    (k.createObject p objectType invalid holder).2.excess category type =
      k.excess category type + if invalid.isSome then
        unit (k.process.resourceLimit p) objectType.limitType category type else 0 := by
  have hreserved := k.excess_reserve category type (k.process.resourceLimit p) objectType.limitType
  have hnot : ¬(k.reserve (k.process.resourceLimit p) objectType.limitType).1 = false := by
    rw [reserve_fst]
    decide
  unfold createObject
  simp only
  rw [if_neg hnot]
  cases invalid with
  | some result => simp [hreserved]
  | none =>
    simp only [Option.isSome_none, Bool.false_eq_true, if_false]
    rw [excess_createHandle, excess_acquire, excess_addObject, hreserved]
    omega

end Excess

/-! ## Threads -/

section ThreadExcess

variable {k k' : KernelSystem P} {p : P}

/-- What a thread that is created changes. -/
structure ThreadAdded (k : KernelSystem P) (p : P) (k' : KernelSystem P) : Prop where
  excess : ∀ category type, k'.excess category type =
    k.excess category type - unit (k.process.resourceLimit p) .thread category type
  objects : k'.objects = k.objects
  next : k'.nextObjectId = k.nextObjectId
  handleTable : k'.process.handleTable = k.process.handleTable
  resourceLimit : k'.process.resourceLimit = k.process.resourceLimit
  held : ∀ id, (∃ thread ∈ k'.threads, id ∈ thread.heldMutexes) ↔
    ∃ thread ∈ k.threads, id ∈ thread.heldMutexes

theorem held_addThread (k : KernelSystem P) (p : P) (id : ObjectId) :
    (∃ thread ∈ (k.addThread p).threads, id ∈ thread.heldMutexes) ↔
      ∃ thread ∈ k.threads, id ∈ thread.heldMutexes := by
  constructor
  · rintro ⟨thread, hmem, hid⟩
    rcases List.mem_append.mp hmem with hmem | hmem
    · exact ⟨thread, hmem, hid⟩
    · rw [List.mem_singleton.mp hmem] at hid
      cases hid
  · rintro ⟨thread, hmem, hid⟩
    exact ⟨thread, List.mem_append_left _ hmem, hid⟩

theorem held_modifyThread (k : KernelSystem P) (t : ThreadId) {f : Thread P → Thread P}
    (hf : ∀ thread, (f thread).heldMutexes = thread.heldMutexes) (id : ObjectId) :
    (∃ thread ∈ (k.modifyThread t f).threads, id ∈ thread.heldMutexes) ↔
      ∃ thread ∈ k.threads, id ∈ thread.heldMutexes := by
  constructor
  · rintro ⟨thread, hmem, hid⟩
    obtain ⟨thread', hmem', rfl | rfl⟩ := mem_modify hmem
    · exact ⟨_, hmem', hid⟩
    · exact ⟨_, hmem', hf thread' ▸ hid⟩
  · rintro ⟨thread, hmem, hid⟩
    rcases mem_modify_of_mem (f := f) t hmem with hmem | hmem
    · exact ⟨_, hmem, hid⟩
    · exact ⟨_, hmem, (hf thread).symm ▸ hid⟩

theorem ThreadAdded.isReferenced (h : ThreadAdded k p k') (id : ObjectId) :
    k'.IsReferenced id ↔ k.IsReferenced id := by
  unfold IsReferenced
  rw [h.held id, h.handleTable]

theorem isReferenced_acquire {id₀ : ObjectId} {holder : Option ThreadId}
    (h : (k.acquire id₀ holder).IsReferenced id) : k.IsReferenced id ∨ id = id₀ := by
  cases holder with
  | none => exact .inl h
  | some t =>
    rcases h with htable | ⟨thread, hmem, hid⟩
    · exact .inl (.inl htable)
    · obtain ⟨thread', hmem', rfl | rfl⟩ := mem_modify hmem
      · exact .inl (.inr ⟨_, hmem', hid⟩)
      · rcases List.mem_cons.mp hid with rfl | hid
        · exact .inr rfl
        · exact .inl (.inr ⟨_, hmem', hid⟩)

theorem isReferenced_addObject (type : ObjectType) (category : ResourceLimitCategory)
    (id : ObjectId) : (k.addObject type category).IsReferenced id ↔ k.IsReferenced id := Iff.rfl

theorem isReferenced_reserve (category : ResourceLimitCategory) (type : ResourceLimitType)
    (id : ObjectId) : (k.reserve category type).2.IsReferenced id ↔ k.IsReferenced id := Iff.rfl

theorem targetProcessor_le {result : Int} (h : k.targetProcessor p processorId = .ok result) :
    result ≤ 3 := by
  unfold targetProcessor at h
  generalize (if processorId = -2 then (k.process.idealProcessor p : Int) else processorId) = target
    at h
  by_cases hrange : 0 ≤ target ∧ target ≤ 3
  · rw [if_pos hrange] at h
    cases h
    exact hrange.2
  · rw [if_neg hrange] at h
    by_cases hall : target = -1
    · rw [if_pos hall] at h
      cases h
      decide
    · rw [if_neg hall] at h
      cases h

theorem release_reserve (k : KernelSystem P) (category : ResourceLimitCategory)
    (type : ResourceLimitType) :
    ((k.reserve category type).2.release category type).limits = k.limits := by
  unfold reserve release ResourceLimit.reserve ResourceLimit.release
  funext category'
  by_cases hcategory : category' = category
  · subst hcategory
    simp
  · simp [hcategory]

variable [DecidableEq P]

/-- The storage is found in a page, or in a new one. -/
theorem allocateThreadLocalStorage_cases {result : Except Result Nat}
    (h : k.allocateThreadLocalStorage p = some (result, k')) :
    ∃ slots region, k' = ({ k with baseRegion := region } : KernelSystem P).setTlsSlots p slots ∧
      ∀ r, result = .error r → k.hasFreeTlsSlot p = false ∧
        k.baseRegion.linearAllocate citraPageSize = some (none, region) := by
  unfold allocateThreadLocalStorage at h
  split_ifs at h with hfree
  · obtain ⟨rfl, rfl⟩ := returned h
    exact ⟨_, k.baseRegion, rfl, fun _ herror => by cases herror⟩
  · split at h
    · cases h
    · rename_i region hregion
      obtain ⟨rfl, rfl⟩ := returned h
      refine ⟨k.process.tlsSlots p, region, ?_, fun _ _ => ⟨Bool.of_not_eq_true hfree, hregion⟩⟩
      unfold setTlsSlots
      simp only [Function.update_eq_self]
    · obtain ⟨rfl, rfl⟩ := returned h
      exact ⟨_, _, rfl, fun _ herror => by cases herror⟩

/-- A thread is created, or it is not and the call fails; without storage it stays dormant. -/
theorem createKernelThread_cases {priority : Nat} {result : Except Result ThreadId}
    (h : k.createKernelThread p entryPointMapped priority processorId = some (result, k')) :
    (∃ t, result = .ok t ∧ ThreadAdded k p k') ∨
    (∃ r, result = .error r) ∧ (threadPrioLowest < priority ∨ 4 < processorId ∨
      entryPointMapped = false ∨ k.hasFreeTlsSlot p = false ∧
        ∃ region, k.baseRegion.linearAllocate citraPageSize = some (none, region)) := by
  unfold createKernelThread at h
  split_ifs at h with hpriority hprocessor hmapped hmanager
  · obtain ⟨rfl, rfl⟩ := returned h
    exact .inr ⟨⟨_, rfl⟩, .inl hpriority⟩
  · obtain ⟨rfl, rfl⟩ := returned h
    exact .inr ⟨⟨_, rfl⟩, .inr (.inl hprocessor)⟩
  · obtain ⟨rfl, rfl⟩ := returned h
    exact .inr ⟨⟨_, rfl⟩, .inr (.inr (.inl hmapped))⟩
  · split at h
    · cases h
    · rename_i r k₁ htls
      obtain ⟨rfl, rfl⟩ := returned h
      obtain ⟨slots, region, -, hfull⟩ := allocateThreadLocalStorage_cases htls
      obtain ⟨hfree, hregion⟩ := hfull r rfl
      exact .inr ⟨⟨_, rfl⟩, .inr (.inr (.inr ⟨hfree, region, hregion⟩))⟩
    · rename_i address k₁ htls
      obtain ⟨rfl, rfl⟩ := returned h
      obtain ⟨slots, region, rfl, -⟩ := allocateThreadLocalStorage_cases htls
      refine .inl ⟨_, rfl, fun category type => ?_, rfl, rfl, rfl, rfl, fun id => ?_⟩
      · -- The new thread is alive when it is dormant already.
        have hthread : (k.addThread p).threads[k.threads.length]? =
            some { ownerProcess := p, status := .dormant, tlsAddress := 0, heldMutexes := [] } :=
          List.getElem?_concat_length
        rw [← excess_addThread]
        refine excess_modifyThread _ category type hthread ?_
        unfold ThreadCharged
        simp
      · refine Iff.trans (held_modifyThread _ _ ?_ id) (held_addThread k p id)
        exact fun _ => rfl

end ThreadExcess

variable [DecidableEq P]

/-! ## References -/

section References

variable {k k' : KernelSystem P} {p : P}

theorem objects_create {O : Type} {table : HandleTable O} {object o : O} {s : Nat}
    (h : (table.create object).2.objects s = some o) : table.objects s = some o ∨ object = o := by
  unfold HandleTable.create at h
  simp only at h
  split_ifs at h
  · exact .inl h
  · simp only at h
    split_ifs at h
    · exact .inr (some.inj h)
    · exact .inl h

theorem objects_close {O : Type} {table : HandleTable O} {handle : Handle} {o : O} {s : Nat}
    (h : (table.close handle).2.objects s = some o) : table.objects s = some o := by
  unfold HandleTable.close at h
  by_cases hvalid : ¬table.isValid handle = true
  · rw [if_pos hvalid] at h
    exact h
  · rw [if_neg hvalid] at h
    simp only at h
    split_ifs at h
    exact h

/-- A table in which only objects are put that are there, or one more. -/
theorem isReferenced_setHandleTable {table : HandleTable (Reference P)} {q : ObjectId → Prop}
    (htable : ∀ s < HandleTable.maxCount, ∀ id, table.objects s = some (.object id) →
      k.IsReferenced id ∨ q id) (h : (k.setHandleTable p table).IsReferenced id) :
    k.IsReferenced id ∨ q id := by
  rcases h with ⟨p', s, hs, hobject⟩ | hheld
  · have htables : (k.setHandleTable p table).process.handleTable =
      Function.update k.process.handleTable p table := rfl
    rw [htables] at hobject
    by_cases hp : p' = p
    · subst hp
      rw [Function.update_self] at hobject
      exact htable s hs id hobject
    · rw [Function.update_of_ne hp] at hobject
      exact .inl (.inl ⟨p', s, hs, hobject⟩)
  · exact .inl (.inr hheld)

theorem isReferenced_createHandle (h : (k.createHandle p reference).2.IsReferenced id) :
    k.IsReferenced id ∨ reference = .object id := by
  refine isReferenced_setHandleTable (q := fun id => reference = .object id) ?_ h
  intro s hs id hobject
  rcases objects_create hobject with hold | hnew
  · exact .inl (.inl ⟨p, s, hs, hold⟩)
  · exact .inr hnew

/-- Without a free slot nothing changes. -/
theorem createHandle_full (h : (k.createHandle p reference).1 = .error r) :
    (k.createHandle p reference).2 = k := by
  unfold createHandle HandleTable.create at h ⊢
  simp only at h ⊢
  split_ifs at h with hslot
  simp only [if_pos hslot]
  unfold setHandleTable
  simp only [Function.update_eq_self]

/-- Only what has been created is referred to. -/
def Fresh (k : KernelSystem P) : Prop := ∀ id, k.IsReferenced id → id < k.nextObjectId

/-- What a call keeps that gives back what it reserves. -/
structure Keeps (k k' : KernelSystem P) : Prop where
  excess : ∀ category type, k'.excess category type = k.excess category type
  fresh : k.Fresh → k'.Fresh

omit [DecidableEq P] in
theorem Keeps.refl (k : KernelSystem P) : Keeps k k := ⟨fun _ _ => rfl, id⟩

end References

/-! ## The calls -/

/-- The table has a free slot. -/
def HasFreeHandle (k : KernelSystem P) (p : P) : Prop :=
  (k.process.handleTable p).nextFreeSlot < HandleTable.maxCount

/-- A page for thread local storage can be had. -/
def HasTlsMemory (k : KernelSystem P) (p : P) : Prop :=
  k.hasFreeTlsSlot p = true ∨
    ∀ region, k.baseRegion.linearAllocate citraPageSize ≠ some (none, region)

/-- The arguments of `CreateThread` are checked before the reservation. -/
def Reserves (k : KernelSystem P) (p : P) (priority : Nat) (processorId : Int) : Prop :=
  priority ≤ threadPrioLowest ∧
    ((((k.limits (k.process.resourceLimit p)).getLimitValue .priority % 2 ^ 32).toNat ≤ priority) ∨
      k.process.noThreadRestrictions p = true) ∧
    (k.targetProcessor p processorId).isOk

/-- The call does not fail after a reservation that it does not give back. -/
def Allowed (k : KernelSystem P) (p : P) : Call → Prop
  | .createThread entryPointMapped priority processorId => k.Reserves p priority processorId →
    entryPointMapped = true ∧ k.HasTlsMemory p ∧ k.HasFreeHandle p
  | .createMutex initialLocked => initialLocked ≠ 0 → k.HasFreeHandle p
  | .createSemaphore initialCount maxCount => initialCount ≤ maxCount
  | _ => True

instance (k : KernelSystem P) (p : P) : Decidable (k.HasTlsMemory p) :=
  decidable_of_iff (k.hasFreeTlsSlot p = true ∨
      (k.baseRegion.linearAllocate citraPageSize).map fst ≠ some none) <|
    or_congr Iff.rfl ⟨fun h _ heq => h (congrArg (Option.map fst) heq), fun h heq => by
      obtain ⟨⟨_, region⟩, hregion, rfl⟩ := map_eq_some_iff.mp heq
      exact h region hregion⟩

instance (k : KernelSystem P) (p : P) (priority : Nat) (processorId : Int) :
    Decidable (k.Reserves p priority processorId) :=
  inferInstanceAs (Decidable (_ ∧ _ ∧ _))

instance (k : KernelSystem P) (p : P) : (c : Call) → Decidable (k.Allowed p c)
  | .createThread _ priority processorId =>
    inferInstanceAs (Decidable (k.Reserves p priority processorId → _ ∧ k.HasTlsMemory p ∧ _ < _))
  | .createMutex _ => inferInstanceAs (Decidable (_ → _ < _))
  | .createSemaphore _ _ => inferInstanceAs (Decidable (_ ≤ _))
  | .createEvent | .createTimer | .duplicateHandle _ | .closeHandle _ | .exitThread =>
    inferInstanceAs (Decidable True)

/-- Of a call that creates an object. -/
def Call.Creates : Call → Prop
  | .createThread _ _ _ | .createMutex _ | .createSemaphore _ _ => True
  | .createEvent | .createTimer => True
  | _ => False

section Calls

variable {k k' : KernelSystem P} {p : P} {t : ThreadId}

theorem createHandle_free (reference : Reference P) (h : k.HasFreeHandle p) :
    ∃ handle, (k.createHandle p reference).1 = .ok handle := by
  have hslot : ¬HandleTable.maxCount ≤ (k.process.handleTable p).nextFreeSlot := Nat.not_le.mpr h
  unfold createHandle HandleTable.create
  simp only [if_neg hslot]
  exact ⟨_, rfl⟩

/-- A place is reserved for an object, and the object is there. -/
def reserveObject (k : KernelSystem P) (p : P) (type : ObjectType) : KernelSystem P :=
  (k.reserve (k.process.resourceLimit p) type.limitType).2.addObject type
    (k.process.resourceLimit p)

/-- The calls that create an object, when its arguments are valid. -/
theorem createObject_valid (k : KernelSystem P) (p : P) (type : ObjectType)
    (holder : Option ThreadId) :
    k.createObject p type none holder =
      ((k.reserveObject p type).acquire k.nextObjectId holder).createHandle p
        (.object k.nextObjectId) := by
  unfold createObject
  simp only
  rw [if_neg (by rw [reserve_fst]; decide)]
  rfl

theorem keeps_createObject (k : KernelSystem P) (p : P) (type : ObjectType)
    (holder : Option ThreadId) : Keeps k (k.createObject p type none holder).2 where
  excess := fun category type' => by
    rw [excess_createObject]
    simp
  fresh := fun hfresh id hid => by
    rw [createObject_valid] at hid ⊢
    have hnext : id < k.nextObjectId + 1 := by
      rcases isReferenced_createHandle hid with hid | heq
      · rcases isReferenced_acquire hid with hid | rfl
        · rw [reserveObject, isReferenced_addObject, isReferenced_reserve] at hid
          exact Nat.lt_succ_of_lt (hfresh id hid)
        · exact Nat.lt_succ_self _
      · cases heq
        exact Nat.lt_succ_self _
    have hsame : (((k.reserveObject p type).acquire k.nextObjectId holder).createHandle p
        (.object k.nextObjectId)).2.nextObjectId = k.nextObjectId + 1 := by
      cases holder with
      | none => rfl
      | some t => rfl
    rw [hsame]
    exact hnext

theorem isReferenced_createThreadHandle (hreference : ∀ id, reference ≠ .object id)
    (h : (k.createHandle p reference).2.IsReferenced id) : k.IsReferenced id :=
  (isReferenced_createHandle h).resolve_right (hreference id)

/-- A thread is created with a reservation, or none is made. -/
theorem createThread_cases {priority : Nat} {result : Except Result Handle}
    (hallowed : k.Allowed p (.createThread entryPointMapped priority processorId))
    (h : k.createThread p entryPointMapped priority processorId = some (result, k')) :
    k' = k ∨ (∃ handle, result = .ok handle) ∧ Keeps k k' := by
  unfold createThread at h
  by_cases hpriority : threadPrioLowest < priority
  · rw [if_pos hpriority] at h
    exact .inl (returned h).2.symm
  rw [if_neg hpriority] at h
  by_cases hmax : priority < ((k.limits (k.process.resourceLimit p)).getLimitValue .priority %
      2 ^ 32).toNat ∧ k.process.noThreadRestrictions p = false
  · rw [if_pos hmax] at h
    exact .inl (returned h).2.symm
  rw [if_neg hmax] at h
  cases htarget : k.targetProcessor p processorId with
  | error r =>
    rw [htarget] at h
    exact .inl (returned h).2.symm
  | ok target =>
    rw [htarget] at h
    simp only at h
    rw [if_neg (by rw [reserve_fst]; decide)] at h
    have hreserves : k.Reserves p priority processorId := by
      refine ⟨Nat.le_of_not_lt hpriority, ?_, ?_⟩
      · by_cases hfree : k.process.noThreadRestrictions p = true
        · exact .inr hfree
        · exact .inl (Nat.le_of_not_lt fun hlt => hmax ⟨hlt, Bool.of_not_eq_true hfree⟩)
      · rw [htarget]
        rfl
    obtain ⟨hmapped, htls, hfree⟩ := hallowed hreserves
    split at h
    · cases h
    · rename_i r k₁ hcreate
      -- Every error after the reservation is excluded.
      rcases createKernelThread_cases hcreate with
        ⟨t, heq, -⟩ | ⟨-, hlow | hprocessor | hunmapped | ⟨hslot, region, hregion⟩⟩
      · cases heq
      · exact absurd hlow hpriority
      · have := targetProcessor_le htarget
        omega
      · exact absurd (hmapped.symm.trans hunmapped) (by decide)
      · rcases htls with htls | htls
        · exact absurd (htls.symm.trans hslot) (by decide)
        · exact absurd hregion (htls region)
    · rename_i thread k₁ hcreate
      rcases createKernelThread_cases hcreate with ⟨t, -, hadded⟩ | ⟨⟨r, heq⟩, -⟩
      · have hfree' : k₁.HasFreeHandle p := by
          unfold HasFreeHandle
          rw [hadded.handleTable]
          exact hfree
        obtain ⟨handle, hhandle⟩ := createHandle_free (.thread thread) hfree'
        have hresult : (k₁.createHandle p (.thread thread)).1 = result :=
          congrArg fst (some.inj h)
        have hk : (k₁.createHandle p (.thread thread)).2 = k' := congrArg snd (some.inj h)
        subst hk
        refine .inr ⟨⟨handle, hresult.symm.trans hhandle⟩, fun category type => ?_,
          fun hfresh id hid => ?_⟩
        · rw [excess_createHandle, hadded.excess, excess_reserve]
          have hsame : (k.reserve (k.process.resourceLimit p) .thread).2.process.resourceLimit p =
            k.process.resourceLimit p := rfl
          rw [hsame]
          omega
        · have hid := isReferenced_createThreadHandle (fun _ => by simp) hid
          rw [hadded.isReferenced, isReferenced_reserve] at hid
          have hnext : (k₁.createHandle p (.thread thread)).2.nextObjectId = k.nextObjectId :=
            hadded.next
          rw [hnext]
          exact hfresh id hid
      · cases heq

theorem keeps_run {mainThreadPriority : Nat}
    (h : k.run p entryPointMapped mainThreadPriority = some k') : Keeps k k' := by
  unfold run at h
  simp only at h
  rw [if_neg (by rw [reserve_fst]; decide)] at h
  split at h
  · rename_i thread k₁ hcreate
    cases h
    rcases createKernelThread_cases hcreate with ⟨t, -, hadded⟩ | ⟨⟨r, heq⟩, -⟩
    · refine ⟨fun category type => ?_, fun hfresh id hid => ?_⟩
      · rw [hadded.excess, excess_reserve]
        have hsame : (k.reserve (k.process.resourceLimit p) .thread).2.process.resourceLimit p =
          k.process.resourceLimit p := rfl
        rw [hsame]
        omega
      · rw [hadded.isReferenced, isReferenced_reserve] at hid
        rw [hadded.next]
        exact hfresh id hid
    · cases heq
  · cases h
  · cases h

theorem keeps_duplicateHandle (k : KernelSystem P) (t : ThreadId) (p : P) (handle : Handle) :
    Keeps k (k.duplicateHandle t p handle).2 := by
  refine ⟨fun category type => excess_congr rfl rfl rfl rfl category type, fun hfresh id hid => ?_⟩
  refine hfresh id
    ((isReferenced_setHandleTable (q := fun _ => False) ?_ hid).resolve_right not_false)
  intro s hs id hobject
  refine .inl ?_
  change ((k.process.handleTable p).duplicate (.thread t) (.process p) handle).2.objects s =
    some (.object id) at hobject
  unfold HandleTable.duplicate at hobject
  split at hobject
  · exact .inl ⟨p, s, hs, hobject⟩
  · rename_i object hobject'
    rcases objects_create hobject with hold | rfl
    · exact .inl ⟨p, s, hs, hold⟩
    · -- What is duplicated is in the table.
      unfold HandleTable.getGeneric at hobject'
      split_ifs at hobject' with hthread hprocess hvalid
      · cases hobject'
      · cases hobject'
      · unfold HandleTable.isValid at hvalid
        have hlt : HandleTable.getSlot handle < HandleTable.maxCount := by
          by_contra hge
          simp [hge] at hvalid
        exact .inl ⟨p, _, hlt, hobject'⟩

theorem keeps_closeHandle (k : KernelSystem P) (p : P) (handle : Handle) :
    Keeps k (k.closeHandle p handle).2 := by
  refine ⟨fun category type => excess_congr rfl rfl rfl rfl category type, fun hfresh id hid => ?_⟩
  refine hfresh id
    ((isReferenced_setHandleTable (q := fun _ => False) ?_ hid).resolve_right not_false)
  intro s hs id hobject
  exact .inl (.inl ⟨p, s, hs, objects_close hobject⟩)

/-- A thread that was alive gives its reservation back. -/
theorem keeps_stop (hthread : k.threads[t]? = some thread) (halive : thread.status ≠ .dead)
    (h : k.stop t = some k') : Keeps k k' := by
  unfold stop at h
  rw [hthread] at h
  simp only at h
  split_ifs at h with hpage
  cases h
  refine ⟨fun category type => ?_, fun hfresh id hid => hfresh id ?_⟩
  · have hdead := k.excess_modifyThread_dead category type
      (f := fun thread : Thread P => { thread with status := .dead, heldMutexes := [] })
      hthread halive rfl
    have hslots : ∀ (k : KernelSystem P) slots,
        (k.setTlsSlots thread.ownerProcess slots).excess category type = k.excess category type :=
      fun k slots => excess_congr rfl rfl rfl rfl category type
    rw [excess_release, hslots, hdead]
    have hsame : ∀ (k : KernelSystem P) slots,
      (k.setTlsSlots thread.ownerProcess slots).process.resourceLimit =
        k.process.resourceLimit := fun _ _ => rfl
    rw [hsame]
    exact Int.add_sub_cancel _ _
  · rcases hid with htable | ⟨thread', hmem, hid⟩
    · exact .inl htable
    · obtain ⟨thread'', hmem', rfl | rfl⟩ := mem_modify hmem
      · exact .inr ⟨_, hmem', hid⟩
      · cases hid

theorem keeps_call {reply : Reply} (hthread : k.threads[t]? = some thread)
    (hready : thread.status = .ready) (hallowed : k.Allowed thread.ownerProcess c)
    (h : k.call t thread.ownerProcess c = some (reply, k')) : Keeps k k' := by
  cases c with
  | createThread entryPointMapped priority processorId =>
    obtain ⟨⟨result, k₁⟩, hcreate, heq⟩ := map_eq_some_iff.mp h
    obtain rfl : k₁ = k' := congrArg snd heq
    rcases createThread_cases hallowed hcreate with rfl | ⟨-, hkeeps⟩
    · exact Keeps.refl _
    · exact hkeeps
  | createMutex initialLocked =>
    obtain rfl : (k.createMutex t thread.ownerProcess initialLocked).2 = k' :=
      congrArg snd (some.inj h)
    exact keeps_createObject _ _ _ _
  | createSemaphore initialCount maxCount =>
    obtain rfl : (k.createSemaphore thread.ownerProcess initialCount maxCount).2 = k' :=
      congrArg snd (some.inj h)
    have hle : initialCount ≤ maxCount := hallowed
    unfold createSemaphore
    rw [if_pos hle]
    exact keeps_createObject _ _ _ _
  | createEvent =>
    obtain rfl : (k.createEvent thread.ownerProcess).2 = k' := congrArg snd (some.inj h)
    exact keeps_createObject _ _ _ _
  | createTimer =>
    obtain rfl : (k.createTimer thread.ownerProcess).2 = k' := congrArg snd (some.inj h)
    exact keeps_createObject _ _ _ _
  | duplicateHandle handle =>
    obtain rfl : (k.duplicateHandle t thread.ownerProcess handle).2 = k' :=
      congrArg snd (some.inj h)
    exact keeps_duplicateHandle _ _ _ _
  | closeHandle handle =>
    obtain rfl : (k.closeHandle thread.ownerProcess handle).2 = k' := congrArg snd (some.inj h)
    exact keeps_closeHandle _ _ _
  | exitThread =>
    obtain ⟨k₁, hstop, heq⟩ := map_eq_some_iff.mp h
    obtain rfl : k₁ = k' := congrArg snd heq
    exact keeps_stop hthread (by rw [hready]; decide) hstop

end Calls

/-! ## The invariant -/

/-- Each object has a reservation and each reservation an object; the objects are those that
something refers to. -/
structure Accounted (k : KernelSystem P) : Prop where
  conserved : ∀ category type, k.value category type = k.charged category type
  referenced : ∀ object ∈ k.objects, k.IsReferenced object.id
  fresh : k.Fresh

section Run

variable [Fintype P] {k k' : KernelSystem P}

theorem Accounted.collect (h : k.Accounted) (hkeeps : Keeps k k') : k'.collect.Accounted where
  conserved := fun category type => by
    have hexcess : k'.collect.excess category type = k.excess category type := by
      rw [excess_collect, hkeeps.excess]
    have hbefore : k.excess category type = 0 := by
      unfold excess
      rw [h.conserved]
      exact Int.sub_self _
    rw [hbefore] at hexcess
    exact Int.sub_eq_zero.mp hexcess
  referenced := fun object hobject => by
    rw [collect_objects] at hobject
    rw [isReferenced_collect]
    exact of_decide_eq_true (List.mem_filter.mp hobject).2
  fresh := fun id hid => by
    rw [isReferenced_collect] at hid
    rw [collect_nextObjectId]
    exact hkeeps.fresh h.fresh id hid

/-- The step does not fail after a reservation that it does not give back. -/
def AllowedStep (k : KernelSystem P) : Event P → Prop
  | .run _ _ _ => True
  | .call t c => ∀ thread, k.threads[t]? = some thread → k.Allowed thread.ownerProcess c

instance (k : KernelSystem P) : (e : Event P) → Decidable (k.AllowedStep e)
  | .run _ _ _ => inferInstanceAs (Decidable True)
  | .call t c =>
    inferInstanceAs (Decidable (∀ thread ∈ k.threads[t]?, k.Allowed thread.ownerProcess c))

theorem threadCall_cases {t : ThreadId} {reply : Reply} (h : k.threadCall t c = some (reply, k')) :
    ∃ thread k₁, k.threads[t]? = some thread ∧ thread.status = .ready ∧
      k.call t thread.ownerProcess c = some (reply, k₁) ∧ k' = k₁.collect := by
  unfold threadCall at h
  cases hthread : k.threads[t]? with
  | none =>
    rw [hthread] at h
    cases h
  | some thread =>
    rw [hthread] at h
    simp only at h
    by_cases hready : thread.status = .ready
    · rw [if_pos hready] at h
      obtain ⟨⟨reply₁, k₁⟩, hcall, heq⟩ := map_eq_some_iff.mp h
      obtain ⟨rfl, rfl⟩ := Prod.mk.inj heq
      exact ⟨thread, k₁, rfl, hready, hcall, rfl⟩
    · rw [if_neg hready] at h
      cases h

theorem Accounted.step {e : Event P} (h : k.Accounted) (hallowed : k.AllowedStep e)
    (hstep : k.step e = some k') : k'.Accounted := by
  cases e with
  | run p entryPointMapped mainThreadPriority =>
    obtain ⟨k₁, hrun, rfl⟩ := map_eq_some_iff.mp hstep
    exact h.collect (keeps_run hrun)
  | call t c =>
    obtain ⟨⟨reply, k₁⟩, hthreadCall, rfl⟩ := map_eq_some_iff.mp hstep
    obtain ⟨thread, k₂, hthread, hready, hcall, rfl⟩ := threadCall_cases hthreadCall
    exact h.collect (keeps_call hthread hready (hallowed thread hthread) hcall)

omit [DecidableEq P] [Fintype P] in
theorem accounted_create (limitValues : ResourceLimitCategory → ResourceLimitType → Int)
    (resourceLimit : P → ResourceLimitCategory) (idealProcessor : P → Nat)
    (noThreadRestrictions : P → Bool) (baseRegion : MemoryRegionInfo) (numCores : Nat) :
    (create limitValues resourceLimit idealProcessor noThreadRestrictions baseRegion
      numCores).Accounted where
  conserved := fun _ _ => rfl
  referenced := fun _ hobject => by cases hobject
  fresh := fun id hid => by
    rcases hid with ⟨p, s, -, hobject⟩ | ⟨thread, hmem, -⟩
    · cases hobject
    · cases hmem

/-! ## Calls that fail -/

theorem collect_eq_self (h : ∀ object ∈ k.objects, k.IsReferenced object.id) : k.collect = k := by
  have hall : (k.objects.filter fun object => k.IsReferenced object.id) = k.objects :=
    List.filter_eq_self.mpr fun object hobject => decide_eq_true (h object hobject)
  have hnone : (k.objects.filter fun object => ¬k.IsReferenced object.id) = [] :=
    List.filter_eq_nil_iff.mpr fun object hobject => by simpa using h object hobject
  unfold KernelSystem.collect
  rw [hall, hnone]
  rfl

/-- An object that gets no handle is destroyed. -/
theorem createObject_failed (h : k.Accounted) {p : P} {type : ObjectType}
    (hfailed : (k.createObject p type none none).1 = .error r) :
    (k.createObject p type none none).2.collect.limits = k.limits := by
  rw [createObject_valid] at hfailed ⊢
  rw [createHandle_full hfailed]
  -- The new object is the only one that nothing refers to.
  have hnew : ¬k.IsReferenced k.nextObjectId := fun hid => Nat.lt_irrefl _ (h.fresh _ hid)
  have hremoved : (k.reserveObject p type).objects.filter (fun object => ¬k.IsReferenced object.id) =
      [{ id := k.nextObjectId, type, resourceLimit := some (k.process.resourceLimit p) }] := by
    have hold : (k.objects.filter fun object => ¬k.IsReferenced object.id) = [] :=
      List.filter_eq_nil_iff.mpr fun object hobject => by simpa using h.referenced object hobject
    unfold reserveObject addObject
    rw [List.filter_append]
    have hobjects : (k.reserve (k.process.resourceLimit p) type.limitType).2.objects = k.objects :=
      rfl
    rw [hobjects, hold, List.nil_append]
    exact List.filter_cons_of_pos (decide_eq_true hnew)
  have hcollect : (k.reserveObject p type).collect.limits =
      ((k.reserve (k.process.resourceLimit p) type.limitType).2.release
        (k.process.resourceLimit p) type.limitType).limits := by
    have hsame : (k.reserveObject p type).collect.limits =
        (((k.reserveObject p type).objects.filter
          fun object => ¬k.IsReferenced object.id).foldl destroy _).limits := rfl
    rw [hsame, hremoved]
    rfl
  exact hcollect.trans (release_reserve _ _ _)

theorem limits_of_failed (h : k.Accounted) {t : ThreadId} (hallowed : k.AllowedStep (.call t c))
    (hcreates : c.Creates) (hfailed : k.threadCall t c = some (.handle (.error r), k')) :
    k'.limits = k.limits := by
  obtain ⟨thread, k₁, hthread, -, hcall, rfl⟩ := threadCall_cases hfailed
  have hallowed := hallowed thread hthread
  have hobject : ∀ type, (.handle (k.createObject thread.ownerProcess type none none).1,
      (k.createObject thread.ownerProcess type none none).2) = (Reply.handle (.error r), k₁) →
      k₁.collect.limits = k.limits := by
    intro type heq
    obtain ⟨hresult, rfl⟩ := Prod.mk.inj heq
    exact createObject_failed h (Reply.handle.inj hresult)
  cases c with
  | createThread entryPointMapped priority processorId =>
    obtain ⟨⟨result, k₂⟩, hcreate, heq⟩ := map_eq_some_iff.mp hcall
    obtain ⟨hresult, rfl⟩ := Prod.mk.inj heq
    obtain rfl := Reply.handle.inj hresult
    rcases createThread_cases hallowed hcreate with rfl | ⟨⟨handle, hok⟩, -⟩
    · rw [id, collect_eq_self h.referenced]
    · cases hok
  | createMutex initialLocked =>
    have hcall := some.inj hcall
    by_cases hlocked : initialLocked = 0
    · subst hlocked
      exact hobject .mutex hcall
    · -- With a free slot the call does not fail.
      have hreply : Reply.handle (k.createMutex t thread.ownerProcess initialLocked).1 =
        .handle (.error r) := congrArg fst hcall
      have hresult := Reply.handle.inj hreply
      unfold createMutex at hresult
      rw [if_pos hlocked, createObject_valid] at hresult
      have hfree : (((k.reserve (k.process.resourceLimit thread.ownerProcess)
          ObjectType.mutex.limitType).2.addObject .mutex
          (k.process.resourceLimit thread.ownerProcess)).acquire k.nextObjectId
            (some t)).HasFreeHandle thread.ownerProcess := hallowed hlocked
      obtain ⟨handle, hhandle⟩ := createHandle_free (.object k.nextObjectId) hfree
      cases hhandle.symm.trans hresult
  | createSemaphore initialCount maxCount =>
    have hle : initialCount ≤ maxCount := hallowed
    have hcall := some.inj hcall
    unfold createSemaphore at hcall
    rw [if_pos hle] at hcall
    exact hobject .semaphore hcall
  | createEvent => exact hobject .event (some.inj hcall)
  | createTimer => exact hobject .timer (some.inj hcall)
  | duplicateHandle handle => exact hcreates.elim
  | closeHandle handle => exact hcreates.elim
  | exitThread => exact hcreates.elim

/-- In every run in which no call fails after a reservation that it does not give back, the current
values count the objects that are alive and charged, and a call that fails leaves them. -/
theorem accounted_of_allowed (limitValues : ResourceLimitCategory → ResourceLimitType → Int)
    (resourceLimit : P → ResourceLimitCategory) (idealProcessor : P → Nat)
    (noThreadRestrictions : P → Bool) (baseRegion : MemoryRegionInfo) (numCores : Nat)
    (k : KernelSystem P)
    (h : ReachesIf step AllowedStep (create limitValues resourceLimit idealProcessor
      noThreadRestrictions baseRegion numCores) k) :
    (∀ category type, k.value category type = k.charged category type) ∧
    (∀ category type, 0 ≤ k.value category type) ∧
    (∀ object ∈ k.objects, k.IsReferenced object.id) ∧
    ∀ t c r k', k.AllowedStep (.call t c) → c.Creates →
      k.threadCall t c = some (.handle (.error r), k') → k'.limits = k.limits := by
  have haccounted : k.Accounted :=
    h.invariant (accounted_create limitValues resourceLimit idealProcessor noThreadRestrictions
      baseRegion numCores) fun hk hok hstep => hk.step hok hstep
  refine ⟨haccounted.conserved, fun category type => ?_, haccounted.referenced,
    fun t c r k' hallowed hcreates hcall => limits_of_failed haccounted hallowed hcreates hcall⟩
  rw [haccounted.conserved]
  exact Int.natCast_nonneg _

end Run

/-! ## Reservations that stay -/

/-- One process, of the applications, with two pages for thread local storage. -/
def smallKernel : KernelSystem Unit :=
  create (fun _ _ => 32) (fun _ => .application) (fun _ => 0) (fun _ => true)
    { base := 0, size := 0x2000, freeBlocks := IntervalSet.empty.add ⟨0, 0x2000⟩ } 2

/-- The value and the objects after a run and a call. -/
def afterCall (c : Call) (type : ResourceLimitType) : Option (Int × Nat) :=
  ((smallKernel.step (.run () true 48)).bind fun k => k.step (.call 0 c)).map fun k =>
    (k.value .application type, k.charged .application type)

/-- A process is run, and its threads make an event, a second thread and a semaphore; the event is
closed again, and the second thread exits. -/
def calls : List (Event Unit) :=
  [.run () true 48, .call 0 .createEvent, .call 0 (.createThread true 48 0),
    .call 1 (.createSemaphore 1 2), .call 0 (.closeHandle 1), .call 1 .exitThread]

/-- What is charged after these calls, and that one with a wrong priority changes nothing. -/
theorem accounted_of_allowed_calls :
    ∃ k, calls.foldlM (stepIf step AllowedStep) smallKernel = some k ∧ k.objects.length = 1 ∧
      k.value .application .event = 0 ∧ k.value .application .semaphore = 1 ∧
      k.value .application .thread = 1 ∧
      ∃ r k', k.threadCall 0 (.createThread true 64 0) = some (.handle (.error r), k') ∧
        k'.limits = k.limits := by
  obtain ⟨k, hk, hlength, hevent, hsemaphore, hthread, hok, ⟨reply, k'⟩, hfailed, herror⟩ : ∃ k,
      calls.foldlM (stepIf step AllowedStep) smallKernel = some k ∧ k.objects.length = 1 ∧
      k.charged .application .event = 0 ∧ k.charged .application .semaphore = 1 ∧
      k.charged .application .thread = 1 ∧ k.AllowedStep (.call 0 (.createThread true 64 0)) ∧
      ∃ next, k.threadCall 0 (.createThread true 64 0) = some next ∧
        (match next.1 with | .handle (.error _) => true | _ => false) = true := by
    decide +kernel
  obtain ⟨hvalue, -, -, hfails⟩ := accounted_of_allowed _ _ _ _ _ _ k (ReachesIf.of_stepIf hk)
  refine ⟨k, hk, hlength, by rw [hvalue, hevent]; rfl, by rw [hvalue, hsemaphore]; rfl,
    by rw [hvalue, hthread]; rfl, ?_⟩
  match reply, herror with
  | .handle (.error r), _ => exact ⟨r, k', hfailed, hfails 0 _ r k' hok trivial hfailed⟩

/-- The reservation stays of a semaphore with an initial count over the maximum, and of a thread
with an entry point that is not mapped. -/
theorem reservation_stays :
    afterCall (.createSemaphore 1 0) .semaphore = some (1, 0) ∧
      afterCall (.createThread false 48 0) .thread = some (2, 1) := by decide +kernel

end KernelSystem

end ResourceLimits

end GbaStation.Kernel
