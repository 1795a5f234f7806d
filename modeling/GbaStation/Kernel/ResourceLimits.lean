import GbaStation.Kernel.HandleTable
import GbaStation.Kernel.MemoryRegion
import GbaStation.Kernel.Threads
import Mathlib.Data.Fintype.Basic

/-!
# Resource limits (`core/hle/kernel/resource_limit.cpp`)

How many objects a process may have. The service calls of `svc.cpp` reserve a place for the object
that they create; the destructor of the object gives it back, or `Thread::Stop` does.

- `KernelSystem`: what refers to an object (a handle, or the thread that holds the mutex), and the
  objects that are alive. At the end of a call `collect` destroys what nothing refers to.

A call is made by any thread that is ready. None of the calls makes a thread wait, so no thread is
ever woken. The name of an object, the memory of the processes, and the counters of memory are not
modelled. `none` is a run that does not go on, as in `Threads`.
-/

namespace GbaStation.Kernel

namespace ResourceLimits

abbrev ObjectId := Nat

/-- `ResourceLimitType`: the priority, and the objects that are counted here. -/
inductive ResourceLimitType
  | priority
  | thread
  | event
  | mutex
  | semaphore
  | timer
deriving DecidableEq, Repr

structure ResourceLimit where
  limitValues : ResourceLimitType → Int
  currentValues : ResourceLimitType → Int := fun _ => 0

namespace ResourceLimit

def getLimitValue (l : ResourceLimit) (type : ResourceLimitType) : Int := l.limitValues type

def getCurrentValue (l : ResourceLimit) (type : ResourceLimitType) : Int := l.currentValues type

/-- A reservation over the limit is logged, and made. -/
def reserve (l : ResourceLimit) (type : ResourceLimitType) (amount : Int) : Bool × ResourceLimit :=
  (true, { l with
    currentValues := Function.update l.currentValues type (l.currentValues type + amount) })

def release (l : ResourceLimit) (type : ResourceLimitType) (amount : Int) : Bool × ResourceLimit :=
  (true, { l with
    currentValues := Function.update l.currentValues type (l.currentValues type - amount) })

end ResourceLimit

/-- The objects whose destructor releases their reservation. -/
inductive ObjectType
  | event
  | mutex
  | semaphore
  | timer
deriving DecidableEq, Repr

namespace ObjectType

def limitType : ObjectType → ResourceLimitType
  | .event => .event
  | .mutex => .mutex
  | .semaphore => .semaphore
  | .timer => .timer

/-- The result of a call that finds no place for the object. -/
def outOf : ObjectType → Result
  | .mutex => ⟨0xC860180D⟩
  | .semaphore => ⟨0xC860180E⟩
  | .event => ⟨0xC860180F⟩
  | .timer => ⟨0xC8601810⟩

end ObjectType

def outOfThreads : Result := ⟨0xC860180C⟩

/-- What is in a slot of a handle table. -/
inductive Reference (P : Type)
  | thread (t : ThreadId)
  | process (p : P)
  | object (id : ObjectId)
deriving DecidableEq

structure SyncObject where
  id : ObjectId
  type : ObjectType
  resourceLimit : Option ResourceLimitCategory
deriving DecidableEq

structure Thread (P : Type) where
  ownerProcess : P
  status : ThreadStatus
  tlsAddress : Nat
  heldMutexes : List ObjectId
deriving DecidableEq

/-- The fields of `Process`. -/
structure ProcessFields (P : Type) where
  resourceLimit : P → ResourceLimitCategory
  handleTable : P → HandleTable (Reference P)
  tlsSlots : P → List (BitVec 8)
  idealProcessor : P → Nat
  noThreadRestrictions : P → Bool

structure KernelSystem (P : Type) where
  limits : ResourceLimitCategory → ResourceLimit
  process : ProcessFields P
  /-- The threads by their identity, with those that are dead. -/
  threads : List (Thread P) := []
  objects : List SyncObject := []
  nextObjectId : ObjectId := 0
  baseRegion : MemoryRegionInfo
  numCores : Nat

namespace KernelSystem

variable {P : Type} [DecidableEq P]

/-! ## Reservations -/

def reserve (k : KernelSystem P) (category : ResourceLimitCategory) (type : ResourceLimitType) :
    Bool × KernelSystem P :=
  let (reserved, limit) := (k.limits category).reserve type 1
  (reserved, { k with limits := Function.update k.limits category limit })

def release (k : KernelSystem P) (category : ResourceLimitCategory) (type : ResourceLimitType) :
    KernelSystem P :=
  { k with limits := Function.update k.limits category ((k.limits category).release type 1).2 }

/-! ## The life time of objects -/

/-- A handle refers to the object, or a thread holds the mutex. -/
def IsReferenced (k : KernelSystem P) (id : ObjectId) : Prop :=
  (∃ p, ∃ s < HandleTable.maxCount, (k.process.handleTable p).objects s = some (.object id)) ∨
    ∃ thread ∈ k.threads, id ∈ thread.heldMutexes

/-- One of the `2 ^ depth` numbers from the first on, by halves. -/
def anyFrom (p : Nat → Bool) : Nat → Nat → Bool
  | 0, first => p first
  | depth + 1, first => anyFrom p depth first || anyFrom p depth (first + 2 ^ depth)

omit [DecidableEq P] in
theorem anyFrom_iff (p : Nat → Bool) (depth first : Nat) :
    anyFrom p depth first = true ↔ ∃ s, first ≤ s ∧ s < first + 2 ^ depth ∧ p s = true := by
  induction depth generalizing first with
  | zero => exact ⟨fun h => ⟨first, by omega, by omega, h⟩, fun ⟨s, hs, hlt, h⟩ =>
      (show s = first by omega) ▸ h⟩
  | succ depth ih =>
    rw [anyFrom, Bool.or_eq_true, ih, ih, Nat.pow_succ]
    constructor
    · rintro (⟨s, hs, hlt, h⟩ | ⟨s, hs, hlt, h⟩)
      · exact ⟨s, hs, by omega, h⟩
      · exact ⟨s, by omega, by omega, h⟩
    · rintro ⟨s, hs, hlt, h⟩
      by_cases hhalf : s < first + 2 ^ depth
      · exact .inl ⟨s, hs, hhalf, h⟩
      · exact .inr ⟨s, by omega, by omega, h⟩

instance [Fintype P] (k : KernelSystem P) (id : ObjectId) : Decidable (k.IsReferenced id) :=
  -- The slots are searched by halves, since there are too many for a recursion over each.
  let inTable (p : P) (s : Nat) : Bool :=
    (k.process.handleTable p).objects s = some (.object id)
  decidable_of_iff ((∃ p, anyFrom (inTable p) 12 0 = true) ∨
      ∃ thread ∈ k.threads, id ∈ thread.heldMutexes) <| or_congr
    (exists_congr fun p => (anyFrom_iff _ _ _).trans <| exists_congr fun s => by
      simp [inTable, HandleTable.maxCount]) Iff.rfl

/-- The destructors of the four classes. -/
def destroy (k : KernelSystem P) (object : SyncObject) : KernelSystem P :=
  match object.resourceLimit with
  | some category => k.release category object.type.limitType
  | none => k

/-- Destroying the objects that nothing refers to any more. -/
def collect [Fintype P] (k : KernelSystem P) : KernelSystem P :=
  (k.objects.filter fun object => ¬k.IsReferenced object.id).foldl destroy
    { k with objects := k.objects.filter fun object => k.IsReferenced object.id }

def setHandleTable (k : KernelSystem P) (p : P) (table : HandleTable (Reference P)) :
    KernelSystem P :=
  { k with process.handleTable := Function.update k.process.handleTable p table }

/-! ## Threads -/

/-- The thread after a change. -/
def modifyThread (k : KernelSystem P) (t : ThreadId) (f : Thread P → Thread P) : KernelSystem P :=
  { k with threads := k.threads.modify t f }

/-- A dormant thread, without thread local storage. -/
def addThread (k : KernelSystem P) (p : P) : KernelSystem P :=
  { k with
    threads := k.threads ++
      [{ ownerProcess := p, status := .dormant, tlsAddress := 0, heldMutexes := [] }] }

def tlsAreaVAddr : Nat := 0x1FF82000

def citraPageSize : Nat := 0x1000

def tlsEntrySize : Nat := 0x200

/-- A page has a free slot for thread local storage. -/
def hasFreeTlsSlot (k : KernelSystem P) (p : P) : Bool :=
  (k.process.tlsSlots p).any (· ≠ BitVec.allOnes 8)

/-- The first slot of a page that is not set. -/
def freeTlsSlot (page : BitVec 8) : Nat := (List.range 8).findIdx fun slot => !page.getLsbD slot

def tlsAddress (page slot : Nat) : Nat := tlsAreaVAddr + page * citraPageSize + slot * tlsEntrySize

def setTlsSlots (k : KernelSystem P) (p : P) (slots : List (BitVec 8)) : KernelSystem P :=
  { k with process.tlsSlots := Function.update k.process.tlsSlots p slots }

/-- `Process::AllocateThreadLocalStorage`. -/
def allocateThreadLocalStorage (k : KernelSystem P) (p : P) :
    Option (Except Result Nat × KernelSystem P) :=
  let slots := k.process.tlsSlots p
  if k.hasFreeTlsSlot p then
    let tlsPage := slots.findIdx (· ≠ BitVec.allOnes 8)
    let tlsSlot := freeTlsSlot (slots.getD tlsPage 0)
    some (.ok (tlsAddress tlsPage tlsSlot),
      k.setTlsSlots p (slots.modify tlsPage (· ||| 1#8 <<< tlsSlot)))
  else
    match k.baseRegion.linearAllocate citraPageSize with
    | none => none
    | some (none, region) => some (.error Result.outOfMemory, { k with baseRegion := region })
    | some (some _, region) =>
      some (.ok (tlsAddress slots.length 0),
        ({ k with baseRegion := region } : KernelSystem P).setTlsSlots p (slots ++ [1#8]))

/-- `KernelSystem::CreateThread`, of a thread that is made ready. The caller says whether the entry
point is mapped. -/
def createKernelThread (k : KernelSystem P) (p : P) (entryPointMapped : Bool) (priority : Nat)
    (processorId : Int) : Option (Except Result ThreadId × KernelSystem P) :=
  if priority > threadPrioLowest then some (.error Result.outOfRange, k)
  else if processorId > 4 then some (.error Result.outOfRangeKernel, k)
  else if entryPointMapped = false then some (.error Result.invalidEntryPoint, k)
  -- A processor without a manager is not caught.
  else if processorId < 0 ∨ k.numCores ≤ processorId then none
  else
    match (k.addThread p).allocateThreadLocalStorage p with
    | none => none
    | some (.error result, k') => some (.error result, k')
    | some (.ok address, k') =>
      let t := k.threads.length
      some (.ok t, k'.modifyThread t fun thread =>
        { thread with tlsAddress := address, status := .ready })

/-- `Thread::Stop`. -/
def stop (k : KernelSystem P) (t : ThreadId) : Option (KernelSystem P) :=
  match k.threads[t]? with
  | none => none
  | some thread =>
    let p := thread.ownerProcess
    let slots := k.process.tlsSlots p
    let tlsPage := (thread.tlsAddress - tlsAreaVAddr) / citraPageSize
    let tlsSlot := (thread.tlsAddress - tlsAreaVAddr) % citraPageSize / tlsEntrySize
    if tlsPage < slots.length then
      let k := k.modifyThread t fun thread => { thread with status := .dead, heldMutexes := [] }
      let k := k.setTlsSlots p (slots.modify tlsPage (· &&& ~~~(1#8 <<< tlsSlot)))
      some (k.release (k.process.resourceLimit p) .thread)
    else none

/-- `Process::Run`, up to its main thread. -/
def run (k : KernelSystem P) (p : P) (entryPointMapped : Bool) (mainThreadPriority : Nat) :
    Option (KernelSystem P) :=
  let (reserved, k) := k.reserve (k.process.resourceLimit p) .thread
  if reserved = false then some k
  else
    match k.createKernelThread p entryPointMapped mainThreadPriority
      (k.process.idealProcessor p) with
    | some (.ok _, k) => some k
    -- `Unwrap` of a result that is not a thread.
    | some (.error _, _) | none => none

/-! ## Service calls -/

/-- Putting an object into the handle table. -/
def createHandle (k : KernelSystem P) (p : P) (reference : Reference P) :
    Except Result Handle × KernelSystem P :=
  let (result, table) := (k.process.handleTable p).create reference
  (result, k.setHandleTable p table)

/-- An object that is charged to the processes of a category. -/
def addObject (k : KernelSystem P) (type : ObjectType) (category : ResourceLimitCategory) :
    KernelSystem P :=
  { k with
    objects := k.objects ++ [{ id := k.nextObjectId, type, resourceLimit := some category }]
    nextObjectId := k.nextObjectId + 1 }

/-- The mutex is held by the thread, if there is one. -/
def acquire (k : KernelSystem P) (id : ObjectId) : Option ThreadId → KernelSystem P
  | none => k
  | some t => k.modifyThread t fun thread =>
      { thread with heldMutexes := id :: thread.heldMutexes }

/-- What the calls that create an object have in common: the reservation, the creation, which may
fail, the mutex that is acquired, and the handle. -/
def createObject (k : KernelSystem P) (p : P) (type : ObjectType)
    (invalid : Option Result) (holder : Option ThreadId) : Except Result Handle × KernelSystem P :=
  let category := k.process.resourceLimit p
  let (reserved, k) := k.reserve category type.limitType
  if reserved = false then (.error type.outOf, k)
  else
    match invalid with
    | some result => (.error result, k)
    | none =>
      let id := k.nextObjectId
      ((k.addObject type category).acquire id holder).createHandle p (.object id)

section Calls

variable (k : KernelSystem P) (t : ThreadId) (p : P)

def createMutex (initialLocked : Nat) : Except Result Handle × KernelSystem P :=
  k.createObject p .mutex none (if initialLocked ≠ 0 then some t else none)

def createSemaphore (initialCount maxCount : Int) : Except Result Handle × KernelSystem P :=
  k.createObject p .semaphore
    (if initialCount ≤ maxCount then none else some Result.invalidCombinationKernel) none

def createEvent : Except Result Handle × KernelSystem P := k.createObject p .event none none

def createTimer : Except Result Handle × KernelSystem P := k.createObject p .timer none none

/-- The processor of a new thread: the one of the process, or the one that is asked for. -/
def targetProcessor (processorId : Int) : Except Result Int :=
  let processorId := if processorId = -2 then (k.process.idealProcessor p : Int) else processorId
  if 0 ≤ processorId ∧ processorId ≤ 3 then .ok processorId
  else if processorId = -1 then .ok 0
  else .error Result.outOfRange

def createThread (entryPointMapped : Bool) (priority : Nat) (processorId : Int) :
    Option (Except Result Handle × KernelSystem P) :=
  if threadPrioLowest < priority then some (.error Result.outOfRange, k)
  else
    let category := k.process.resourceLimit p
    let maxPriority := ((k.limits category).getLimitValue .priority % 2 ^ 32).toNat
    if priority < maxPriority ∧ k.process.noThreadRestrictions p = false then
      some (.error Result.notAuthorized, k)
    else
      match k.targetProcessor p processorId with
      | .error result => some (.error result, k)
      | .ok processorId =>
        let (reserved, k) := k.reserve category .thread
        if reserved = false then some (.error outOfThreads, k)
        else
          match k.createKernelThread p entryPointMapped priority processorId with
          | none => none
          | some (.error result, k) => some (.error result, k)
          | some (.ok thread, k) => some (k.createHandle p (.thread thread))

def duplicateHandle (handle : Handle) : Except Result Handle × KernelSystem P :=
  let (result, table) :=
    (k.process.handleTable p).duplicate (.thread t) (.process p) handle
  (result, k.setHandleTable p table)

def closeHandle (handle : Handle) : Result × KernelSystem P :=
  let (result, table) := (k.process.handleTable p).close handle
  (result, k.setHandleTable p table)

end Calls

/-- The service calls. -/
inductive Call where
  | createThread (entryPointMapped : Bool) (priority : Nat) (processorId : Int)
  | createMutex (initialLocked : Nat)
  | createSemaphore (initialCount maxCount : Int)
  | createEvent
  | createTimer
  | duplicateHandle (handle : Handle)
  | closeHandle (handle : Handle)
  | exitThread

/-- What a call returns. -/
inductive Reply where
  | handle (result : Except Result Handle)
  | result (result : Result)
  | exited

/-- The call of a thread of the process. -/
def call (k : KernelSystem P) (t : ThreadId) (p : P) :
    Call → Option (Reply × KernelSystem P)
  | .createThread entryPointMapped priority processorId =>
    (k.createThread p entryPointMapped priority processorId).map (Prod.map .handle id)
  | .createMutex initialLocked => some (Prod.map .handle id (k.createMutex t p initialLocked))
  | .createSemaphore initialCount maxCount =>
    some (Prod.map .handle id (k.createSemaphore p initialCount maxCount))
  | .createEvent => some (Prod.map .handle id (k.createEvent p))
  | .createTimer => some (Prod.map .handle id (k.createTimer p))
  | .duplicateHandle handle => some (Prod.map .handle id (k.duplicateHandle t p handle))
  | .closeHandle handle => some (Prod.map .result id (k.closeHandle p handle))
  -- `ThreadManager::ExitCurrentThread`
  | .exitThread => (k.stop t).map fun k => (.exited, k)

/-- A process is run, or a thread makes a call. -/
inductive Event (P : Type)
  | run (p : P) (entryPointMapped : Bool) (mainThreadPriority : Nat)
  | call (t : ThreadId) (c : Call)

/-- The call of a thread, if it is ready. At its end the objects are destroyed that nothing refers
to. -/
def threadCall [Fintype P] (k : KernelSystem P) (t : ThreadId) (c : Call) :
    Option (Reply × KernelSystem P) :=
  match k.threads[t]? with
  | none => none
  | some thread =>
    if thread.status = .ready then (k.call t thread.ownerProcess c).map (Prod.map id collect)
    else none

def step [Fintype P] (k : KernelSystem P) : Event P → Option (KernelSystem P)
  | .run p entryPointMapped mainThreadPriority =>
    (k.run p entryPointMapped mainThreadPriority).map collect
  | .call t c => (k.threadCall t c).map Prod.snd

/-- A kernel in which no process has run. -/
def create (limitValues : ResourceLimitCategory → ResourceLimitType → Int)
    (resourceLimit : P → ResourceLimitCategory) (idealProcessor : P → Nat)
    (noThreadRestrictions : P → Bool) (baseRegion : MemoryRegionInfo) (numCores : Nat) :
    KernelSystem P where
  limits category := { limitValues := limitValues category }
  process :=
    { resourceLimit
      handleTable := fun _ => HandleTable.init
      tlsSlots := fun _ => []
      idealProcessor
      noThreadRestrictions }
  baseRegion
  numCores

end KernelSystem

end ResourceLimits

end GbaStation.Kernel
