import GbaStation.Kernel.ThreadCreation
import GbaStation.Memory.Progress

/-!
# What a creation that fails leaves (`core/hle/kernel/svc.cpp`, `thread.cpp`, `process.cpp`)

`SVC::CreateThread` does not undo what it has done when a later step fails, so a call that fails
behind the reservation has changed the kernel.
-/

namespace GbaStation.Kernel

namespace ThreadCreation

open Memory (VMManager MemoryRef BackingMem)
open Memory.VMManager (WellFormed pointerAt)
open ResourceLimits (ResourceLimit)
open ResourceLimits.KernelSystem (tlsAreaVAddr citraPageSize tlsEntrySize tlsAddress)

/-! ## Addresses -/

theorem tlsAddress_inj {i j b c : Nat} (hb : b < 8) (hc : c < 8)
    (h : tlsAddress i b = tlsAddress j c) : i = j ∧ b = c := by
  simp only [tlsAddress, citraPageSize, tlsEntrySize] at h
  omega

/-- The slot that `Thread::Stop` computes from an address is the one it was computed for. -/
theorem slot_of_tlsAddress {i b : Nat} (hi : i < 2 ^ 16) (hb : b < 8) :
    sub32 (tlsAddress i b) tlsAreaVAddr / citraPageSize = i ∧
      sub32 (tlsAddress i b) tlsAreaVAddr % citraPageSize / tlsEntrySize = b := by
  have hsub : sub32 (tlsAddress i b) tlsAreaVAddr = i * 0x1000 + b * 0x200 := by
    simp only [sub32, tlsAddress, tlsAreaVAddr, citraPageSize, tlsEntrySize]
    omega
  rw [hsub]
  simp only [citraPageSize, tlsEntrySize]
  omega

/-- A page of thread local storage has memory behind it. -/
def PageMapped (vm : VMManager) (page : Nat) : Prop :=
  ∀ a, tlsAddress page 0 ≤ a → a < tlsAddress page 0 + citraPageSize →
    (pointerAt vm a).isSome = true

/-- `LinearAllocate` takes a block when there is one that is large enough. -/
theorem linearAllocate_cases {r : MemoryRegionInfo} (hr : r.Accounted) (size : Nat) :
    ((∃ i ∈ r.freeBlocks.blocks, size ≤ i.upper - i.lower) ∧
      ∃ o r', r.linearAllocate size = some (some o, r') ∧ o + size ≤ fcramN3DSSize ∧
        r'.Accounted ∧ r'.used = r.used + size) ∨
    ((¬∃ i ∈ r.freeBlocks.blocks, size ≤ i.upper - i.lower) ∧
      r.linearAllocate size = some (none, r)) := by
  have hlim : fcramN3DSSize = 0x10000000 := rfl
  cases hfind : r.freeBlocks.blocks.find? fun i => decide (size ≤ i.upper - i.lower) with
  | some i =>
    left
    have hcall : r.linearAllocate size = some (some i.lower, { r with
        freeBlocks := r.freeBlocks.sub ⟨i.lower, add32 i.lower size⟩
        used := add32 r.used size }) := by
      rw [MemoryRegionInfo.linearAllocate, if_neg (by simp [hr.isLocked]), hfind]
    rcases MemoryRegionInfo.linearAllocate_spec hr hcall with ⟨h, -⟩ | ⟨o, ho, hle, htakes⟩
    · cases h
    · obtain rfl := Option.some.inj ho
      refine ⟨⟨i, List.mem_of_find?_eq_some hfind, by simpa using List.find?_some hfind⟩,
        _, _, hcall, hle, htakes.accounted, ?_⟩
      have hused := hr.used
      have hin := hr.inFCRAM
      exact add32_eq (by omega)
  | none =>
    right
    refine ⟨?_, ?_⟩
    · rintro ⟨i, hi, hsize⟩
      exact absurd (decide_eq_true hsize) (List.find?_eq_none.mp hfind i hi)
    · rw [MemoryRegionInfo.linearAllocate, if_neg (by simp [hr.isLocked]), hfind]

namespace KernelSystem

variable {P : Type} {mems : BackingMem → Prop} {k k' : KernelSystem P} {p : P}

/-! ## What no call breaks -/

/-- The address spaces are well-formed, over memory that FCRAM is in, and the pages for thread
local storage are counted in the region they are from. -/
structure Sound (mems : BackingMem → Prop) (k : KernelSystem P) : Prop where
  region : k.baseRegion.Accounted
  fcram : 0 < k.fcram
  fcramMem : mems k.fcramMem
  spaces : ∀ p, WellFormed mems (k.process p).vmManager
  pages : ∀ p, (k.process p).tlsSlots.length * citraPageSize ≤ k.baseRegion.used

theorem Sound.pages_le (h : Sound mems k) (p : P) : (k.process p).tlsSlots.length ≤ 2 ^ 16 := by
  have hlim : fcramN3DSSize = 0x10000000 := rfl
  have hpages := h.pages p
  have hused := h.region.used
  have hin := h.region.inFCRAM
  simp only [citraPageSize] at hpages
  omega

/-! ## The steps of a creation -/

/-- There is a slot for thread local storage, or a page that it can be in. -/
def HasStorage (k : KernelSystem P) (p : P) : Prop :=
  (∃ slots ∈ (k.process p).tlsSlots, slots ≠ BitVec.allOnes 8) ∨
    ∃ i ∈ k.baseRegion.freeBlocks.blocks, citraPageSize ≤ i.upper - i.lower

/-- `k'` is `k` with a slot that is used now, of a process. -/
structure Allocates (mems : BackingMem → Prop) (p : P) (i b : Nat) (k k' : KernelSystem P) :
    Prop where
  sound : Sound mems k'
  threads : k'.threads = k.threads
  manager : k'.manager = k.manager
  limits : k'.limits = k.limits
  others : ∀ q, q ≠ p → k'.process q = k.process q
  handleTable : (k'.process p).handleTable = (k.process p).handleTable
  slot_lt : b < 8
  fresh : SlotPages.isSet (k.process p).tlsSlots i b = false
  slots : ∀ j c, SlotPages.isSet (k'.process p).tlsSlots j c = true ↔
    SlotPages.isSet (k.process p).tlsSlots j c = true ∨ j = i ∧ c = b
  mapped : ∀ a, (pointerAt (k.process p).vmManager a).isSome = true →
    (pointerAt (k'.process p).vmManager a).isSome = true
  pages : ∀ j < (k'.process p).tlsSlots.length,
    j < (k.process p).tlsSlots.length ∨ PageMapped (k'.process p).vmManager j

theorem firstFree_none_iff :
    SlotPages.firstFree (k.process p).tlsSlots = none ↔
      ¬∃ slots ∈ (k.process p).tlsSlots, slots ≠ BitVec.allOnes 8 := by
  rw [SlotPages.firstFree_eq_none]
  push Not
  rfl

theorem Sound.register (h : Sound mems k) (thread : Thread P) : Sound mems (k.register thread) :=
  ⟨h.region, h.fcram, h.fcramMem, h.spaces, h.pages⟩

theorem Sound.reserve (h : Sound mems k) (category : ResourceLimitCategory) :
    Sound mems (k.reserve category).2 :=
  ⟨h.region, h.fcram, h.fcramMem, h.spaces, h.pages⟩

theorem targetProcessor_range {processorId c : Int} (h : k.targetProcessor p processorId = .ok c) :
    0 ≤ c ∧ c ≤ 3 := by
  unfold targetProcessor at h
  dsimp only at h
  split_ifs at h with h₁ h₂ h₃ h₄
  all_goals
    cases h
    try omega

variable [DecidableEq P]

theorem process_modifyProcess (f : Process P → Process P) (q : P) :
    (k.modifyProcess p f).process q = if q = p then f (k.process p) else k.process q :=
  Function.update_apply _ _ _ _

/-- The address space with one page more. -/
structure Extends (mems : BackingMem → Prop) (vm vm' : VMManager) (page : Nat) : Prop where
  wellFormed : WellFormed mems vm'
  mapped : ∀ a, (pointerAt vm a).isSome = true → (pointerAt vm' a).isSome = true
  page : PageMapped vm' page

/-- A page behind the ones that there are. -/
theorem addTlsPage_some (hs : Sound mems k) {region : MemoryRegionInfo} (hregion : region.Accounted)
    (hused : region.used = k.baseRegion.used + citraPageSize) {offset : Nat}
    (hoffset : offset + citraPageSize ≤ fcramN3DSSize) :
    ∃ vm, Extends mems (k.process p).vmManager vm (k.process p).tlsSlots.length ∧
      ({ k with baseRegion := region } : KernelSystem P).addTlsPage p offset =
        some (({ k with baseRegion := region } : KernelSystem P).modifyProcess p fun process =>
          process.holdTlsPage vm offset) := by
  have hlim : fcramN3DSSize = 0x10000000 := rfl
  have hle : (k.process p).tlsSlots.length * citraPageSize + citraPageSize ≤ fcramN3DSSize := by
    have hpages := hs.pages p
    have haccounted := hregion.used
    have hin := hregion.inFCRAM
    omega
  have halign : tlsAddress (k.process p).tlsSlots.length 0 % Memory.pageSize = 0 := by
    simp only [tlsAddress, tlsAreaVAddr, tlsEntrySize, citraPageSize, Memory.pageSize]
    omega
  have hspace :
      tlsAddress (k.process p).tlsSlots.length 0 + Memory.pageSize ≤ Memory.maxAddress := by
    simp only [tlsAddress, tlsAreaVAddr, tlsEntrySize, citraPageSize, Memory.pageSize,
      Memory.maxAddress] at hle ⊢
    omega
  have hptr : (⟨some k.fcramMem, offset⟩ : MemoryRef).getPtr ≠ 0 := by
    have hpos := hs.fcram
    show k.fcram + offset ≠ 0
    omega
  obtain ⟨r, vm, hcall, hwf, hkeep, hnew⟩ := Memory.VMManager.mapBackingMemory_page (hs.spaces p)
    halign hspace .locked hptr ⟨k.fcramMem, hs.fcramMem, rfl, hoffset⟩
  refine ⟨vm, ⟨hwf, hkeep, hnew⟩, ?_⟩
  have hmap : (k.process p).vmManager.mapBackingMemory (tlsAddress (k.process p).tlsSlots.length 0)
      ⟨some k.fcramMem, offset⟩ citraPageSize .locked = some (r, vm) := hcall
  have href : ({ k with baseRegion := region } : KernelSystem P).getFCRAMRef offset =
      some ⟨some k.fcramMem, offset⟩ := if_pos (by omega)
  rw [addTlsPage, href]
  simp only [Option.bind_eq_bind, Option.bind_some]
  rw [hmap]
  rfl

/-- A slot is found, or there is none and nothing changes. -/
theorem allocateThreadLocalStorage_cases (hs : Sound mems k) (p : P) :
    (k.HasStorage p ∧ ∃ i b k', k.allocateThreadLocalStorage p = some (.ok (tlsAddress i b), k') ∧
      Allocates mems p i b k k') ∨
    (¬k.HasStorage p ∧
      k.allocateThreadLocalStorage p = some (.error Result.outOfMemory, k)) := by
  rw [allocateThreadLocalStorage]
  cases hfree : SlotPages.firstFree (k.process p).tlsSlots with
  | some slot =>
    obtain ⟨i, b⟩ := slot
    obtain ⟨hi, hb, hclear⟩ := SlotPages.firstFree_spec hfree
    have hexists : ∃ slots ∈ (k.process p).tlsSlots, slots ≠ BitVec.allOnes 8 := by
      by_contra hnone
      rw [firstFree_none_iff.mpr hnone] at hfree
      cases hfree
    refine .inl ⟨.inl hexists, i, b, _, rfl, ?_⟩
    -- only the slots of the process change
    refine ⟨⟨hs.region, hs.fcram, hs.fcramMem, fun q => ?_, fun q => ?_⟩, rfl, rfl, rfl,
      fun q hq => ?_, ?_, hb, hclear, fun j c => ?_, fun a ha => ?_, fun j hj => ?_⟩
    · rw [process_modifyProcess]
      split_ifs with hq
      · exact hs.spaces p
      · exact hs.spaces q
    · rw [process_modifyProcess]
      split_ifs with hq
      · show (SlotPages.use _ _ _).length * _ ≤ _
        rw [SlotPages.length_use]
        exact hs.pages p
      · exact hs.pages q
    · rw [process_modifyProcess, if_neg hq]
    · rw [process_modifyProcess, if_pos rfl]
    · rw [process_modifyProcess, if_pos rfl]
      exact SlotPages.isSet_use hi hb
    · rw [process_modifyProcess, if_pos rfl]
      exact ha
    · rw [process_modifyProcess, if_pos rfl] at hj
      rw [show _ = (k.process p).tlsSlots.length from SlotPages.length_use] at hj
      exact .inl hj
  | none =>
    have hnone := firstFree_none_iff.mp hfree
    rcases linearAllocate_cases hs.region citraPageSize with
      ⟨hblock, o, region, hcall, hle, hregion, hused⟩ | ⟨hblock, hcall⟩
    · obtain ⟨vm, hext, hadd⟩ := addTlsPage_some (p := p) hs hregion hused hle
      have hclear : ∀ b, SlotPages.isSet (k.process p).tlsSlots (k.process p).tlsSlots.length b ≠
          true := fun b hset => Nat.lt_irrefl _ (SlotPages.inside_of_isSet hset).1
      refine .inl ⟨.inr hblock, (k.process p).tlsSlots.length, 0, _,
        by simp only [hcall, hadd]; rfl, ?_⟩
      refine ⟨⟨hregion, hs.fcram, hs.fcramMem, fun q => ?_, fun q => ?_⟩, rfl, rfl, rfl,
        fun q hq => ?_, ?_, by decide, (Bool.not_eq_true _).mp (hclear 0), fun j c => ?_,
        fun a ha => ?_, fun j hj => ?_⟩
      · rw [process_modifyProcess]
        split_ifs with hq
        · exact hext.wellFormed
        · exact hs.spaces q
      · rw [process_modifyProcess]
        show _ ≤ region.used
        rw [hused]
        split_ifs with hq
        · show ((k.process p).tlsSlots ++ [1#8]).length * _ ≤ _
          have := hs.pages p
          rw [List.length_append, List.length_singleton, Nat.add_mul, Nat.one_mul]
          omega
        · exact (hs.pages q).trans (Nat.le_add_right _ _)
      · rw [process_modifyProcess, if_neg hq]
      · rw [process_modifyProcess, if_pos rfl]
        rfl
      · rw [process_modifyProcess, if_pos rfl]
        exact SlotPages.isSet_snoc (by decide)
      · rw [process_modifyProcess, if_pos rfl]
        exact hext.mapped a ha
      · rw [process_modifyProcess, if_pos rfl] at hj ⊢
        have hlen : j < ((k.process p).tlsSlots ++ [1#8]).length := hj
        rw [List.length_append, List.length_singleton] at hlen
        rcases Nat.lt_succ_iff_lt_or_eq.mp hlen with hlt | rfl
        · exact .inl hlt
        · exact .inr hext.page
    · refine .inr ⟨not_or.mpr ⟨hnone, hblock⟩, ?_⟩
      simp only [hcall]

/-- The processor that the call is for has a manager. -/
def HasManager (k : KernelSystem P) (processorId : Int) : Prop :=
  0 ≤ processorId ∧ processorId < k.numCores

/-- What `KernelSystem::CreateThread` leaves, of a priority and a processor that are in range. -/
theorem createKernelThread_cases (hs : Sound mems k) (p : P) {a : NewThread} (makeReady : Bool)
    (hpriority : a.priority ≤ threadPrioLowest) (hprocessor : a.processorId ≤ 4) :
    ((k.process p).isValidVirtualAddress a.entryPoint = false ∧
      k.createKernelThread p a makeReady = some (.error Result.invalidEntryPoint, k)) ∨
    ((k.process p).isValidVirtualAddress a.entryPoint = true ∧ ¬k.HasManager a.processorId ∧
      k.createKernelThread p a makeReady = none) ∨
    ((k.process p).isValidVirtualAddress a.entryPoint = true ∧ k.HasManager a.processorId ∧
      ¬k.HasStorage p ∧ k.createKernelThread p a makeReady =
        some (.error Result.outOfMemory, k.register (newThread p a))) ∨
    ((k.process p).isValidVirtualAddress a.entryPoint = true ∧ k.HasManager a.processorId ∧
      k.HasStorage p ∧ ∃ i b k₁, Allocates mems p i b (k.register (newThread p a)) k₁ ∧
        k.createKernelThread p a makeReady = some (.ok k.threads.length,
          k₁.finishThread k.threads.length (newThread p a) (tlsAddress i b) makeReady)) := by
  rw [createKernelThread, if_neg (Nat.not_lt.mpr hpriority), if_neg (Int.not_lt.mpr hprocessor)]
  cases hentry : (k.process p).isValidVirtualAddress a.entryPoint with
  | false => exact .inl ⟨rfl, by rw [if_pos rfl]⟩
  | true =>
    right
    rw [if_neg (by decide)]
    by_cases hmanager : k.HasManager a.processorId
    · have hcore : ¬(a.processorId < 0 ∨ k.numCores ≤ a.processorId) := by
        have := hmanager.1
        have := hmanager.2
        omega
      right
      rw [if_neg hcore]
      dsimp only
      rcases allocateThreadLocalStorage_cases (hs.register (newThread p a)) p with
        ⟨hstorage, i, b, k₁, hcall, hallocates⟩ | ⟨hstorage, hcall⟩
      · rw [hcall]
        exact .inr ⟨rfl, hmanager, hstorage, i, b, k₁, hallocates, rfl⟩
      · rw [hcall]
        exact .inl ⟨rfl, hmanager, hstorage, rfl⟩
    · have hcore : a.processorId < 0 ∨ k.numCores ≤ a.processorId := by
        unfold HasManager at hmanager
        omega
      exact .inl ⟨rfl, hmanager, if_pos hcore⟩

/-! ## Calls that fail -/

/-- The containers and values that a call which fails leaves as they are. -/
structure Unchanged (k k' : KernelSystem P) : Prop where
  thread : ∀ category,
    (k'.limits category).getCurrentValue .thread = (k.limits category).getCurrentValue .thread
  threadList : k'.manager.threadList = k.manager.threadList
  readyQueue : k'.manager.readyQueue = k.manager.readyQueue
  wakeupCallbackTable : k'.manager.wakeupCallbackTable = k.manager.wakeupCallbackTable
  tlsSlots : ∀ p, (k'.process p).tlsSlots = (k.process p).tlsSlots

omit [DecidableEq P] in
theorem Unchanged.refl (k : KernelSystem P) : Unchanged k k :=
  ⟨fun _ => rfl, rfl, rfl, rfl, fun _ => rfl⟩

/-- The priority or the processor is refused, before anything is reserved. -/
def Refused (k : KernelSystem P) (p : P) (a : NewThread) : Prop :=
  threadPrioLowest < a.priority ∨
    (a.priority < k.maxPriority p ∧ (k.process p).noThreadRestrictions = false) ∨
    ∀ processorId, k.targetProcessor p a.processorId ≠ .ok processorId

/-- A call that changes nothing if it fails: it is refused at once, or none of the later steps
fails (a processor without a manager ends the run). -/
def Clean (k : KernelSystem P) (p : P) (a : NewThread) : Prop :=
  k.Refused p a ∨
    (k.process p).isValidVirtualAddress a.entryPoint = true ∧
      ((∀ processorId, k.targetProcessor p a.processorId = .ok processorId →
        ¬k.HasManager processorId) ∨
      k.HasStorage p ∧ (k.process p).handleTable.nextFreeSlot < HandleTable.maxCount)

/-- A call that fails leaves the kernel as it was. -/
def Atomic (k : KernelSystem P) (p : P) (a : NewThread) : Prop :=
  ∀ result k', k.createThread p a = some (.error result, k') → Unchanged k k'

theorem createThread_refused {a : NewThread} (h : k.Refused p a) :
    ∃ result, k.createThread p a = some (.error result, k) := by
  rw [createThread]
  split_ifs with hpriority hrestricted
  · exact ⟨_, rfl⟩
  · exact ⟨_, rfl⟩
  · cases htarget : k.targetProcessor p a.processorId with
    | error result => exact ⟨result, rfl⟩
    | ok c =>
      rcases h with h | h | h
      · exact absurd h hpriority
      · exact absurd h hrestricted
      · exact absurd htarget (h c)

/-- The kernel with a thread of the process reserved. -/
def reserved (k : KernelSystem P) (p : P) : KernelSystem P :=
  (k.reserve (k.process p).resourceLimit).2

/-- What a call leaves that is not refused. -/
theorem createThread_cases (hs : Sound mems k) {a : NewThread} (h : ¬k.Refused p a) :
    ∃ c, k.targetProcessor p a.processorId = .ok c ∧
      (((k.process p).isValidVirtualAddress a.entryPoint = false ∧
        k.createThread p a = some (.error Result.invalidEntryPoint, k.reserved p)) ∨
      ((k.process p).isValidVirtualAddress a.entryPoint = true ∧ ¬k.HasManager c ∧
        k.createThread p a = none) ∨
      ((k.process p).isValidVirtualAddress a.entryPoint = true ∧ k.HasManager c ∧
        ¬k.HasStorage p ∧ k.createThread p a = some (.error Result.outOfMemory,
          (k.reserved p).register (newThread p { a with processorId := c }))) ∨
      ((k.process p).isValidVirtualAddress a.entryPoint = true ∧ k.HasManager c ∧
        k.HasStorage p ∧ ∃ i b k₁, Allocates mems p i b
          ((k.reserved p).register (newThread p { a with processorId := c })) k₁ ∧
          k.createThread p a = some ((k₁.finishThread k.threads.length
            (newThread p { a with processorId := c }) (tlsAddress i b) true).createHandle p
              k.threads.length))) := by
  obtain ⟨hpriority, hrest⟩ := not_or.mp h
  obtain ⟨hrestricted, htarget⟩ := not_or.mp hrest
  push Not at htarget
  obtain ⟨c, hc⟩ := htarget
  refine ⟨c, hc, ?_⟩
  have hrange := (targetProcessor_range hc).2
  rw [createThread, if_neg hpriority, if_neg hrestricted, hc]
  dsimp only
  rw [if_neg (show ¬(k.reserve (k.process p).resourceLimit).1 = false from Bool.noConfusion)]
  rcases createKernelThread_cases (hs.reserve (k.process p).resourceLimit) p true
      (a := { a with processorId := c }) (Nat.not_lt.mp hpriority) (by dsimp only; omega) with
    ⟨hentry, hcall⟩ | ⟨hentry, hmanager, hcall⟩ | ⟨hentry, hmanager, hstorage, hcall⟩ |
      ⟨hentry, hmanager, hstorage, i, b, k₁, hallocates, hcall⟩
  · rw [hcall]
    exact .inl ⟨hentry, rfl⟩
  · rw [hcall]
    exact .inr (.inl ⟨hentry, hmanager, rfl⟩)
  · rw [hcall]
    exact .inr (.inr (.inl ⟨hentry, hmanager, hstorage, rfl⟩))
  · rw [hcall]
    exact .inr (.inr (.inr ⟨hentry, hmanager, hstorage, i, b, k₁, hallocates, rfl⟩))

omit [DecidableEq P] in
/-- With a thread reserved, the value is another one. -/
theorem not_unchanged_of_reserved (p : P) (h : k'.limits = (k.reserved p).limits) :
    ¬Unchanged k k' := by
  intro hsame
  have hvalue := hsame.thread (k.process p).resourceLimit
  have hmore : ((k.reserved p).limits (k.process p).resourceLimit).getCurrentValue .thread =
      (k.limits (k.process p).resourceLimit).getCurrentValue .thread + 1 := by
    simp [reserved, reserve, ResourceLimit.reserve, ResourceLimit.getCurrentValue]
  rw [h, hmore] at hvalue
  omega

/-- A handle is created if the table has a free slot. -/
theorem createHandle_cases (k : KernelSystem P) (p : P) (t : ThreadId) :
    ((k.process p).handleTable.nextFreeSlot < HandleTable.maxCount ∧
      ∃ handle, (k.createHandle p t).1 = .ok handle) ∨
    (¬(k.process p).handleTable.nextFreeSlot < HandleTable.maxCount ∧
      (k.createHandle p t).1 = .error Result.outOfHandles) := by
  have hresult : (k.createHandle p t).1 = ((k.process p).handleTable.create (.thread t)).1 := rfl
  rw [hresult, HandleTable.create]
  split_ifs with hfull
  · exact .inr ⟨Nat.not_lt.mpr hfull, rfl⟩
  · exact .inl ⟨Nat.not_le.mp hfull, _, rfl⟩

/-- A call leaves the kernel as it was if it fails, exactly if it is refused at once or no later
step fails. -/
theorem createThread_atomic_iff (hs : Sound mems k) (p : P) (a : NewThread) :
    k.Atomic p a ↔ k.Clean p a := by
  by_cases hrefused : k.Refused p a
  · obtain ⟨result, hcall⟩ := createThread_refused hrefused
    refine iff_of_true (fun result' k' h => ?_) (.inl hrefused)
    rw [hcall] at h
    cases h
    exact Unchanged.refl k
  · obtain ⟨c, hc, hcases⟩ := createThread_cases hs hrefused
    rw [Clean, or_iff_right hrefused]
    rcases hcases with ⟨hentry, hcall⟩ | ⟨hentry, hmanager, hcall⟩ |
      ⟨hentry, hmanager, hstorage, hcall⟩ |
        ⟨hentry, hmanager, hstorage, i, b, k₁, hallocates, hcall⟩
    · refine iff_of_false (fun h => ?_) (fun h => ?_)
      · refine not_unchanged_of_reserved p ?_ (h _ _ hcall)
        rfl
      · rw [hentry] at h
        exact Bool.noConfusion h.1
    · refine iff_of_true (fun result k' h => ?_) ⟨hentry, .inl fun c' hc' => ?_⟩
      · rw [hcall] at h
        cases h
      · rw [hc] at hc'
        cases hc'
        exact hmanager
    · refine iff_of_false (fun h => ?_) (fun h => ?_)
      · refine not_unchanged_of_reserved p ?_ (h _ _ hcall)
        rfl
      · rcases h.2 with hnone | ⟨hstorage', -⟩
        · exact hnone c hc hmanager
        · exact hstorage hstorage'
    · have htable : ((k₁.finishThread k.threads.length (newThread p { a with processorId := c })
          (tlsAddress i b) true).process p).handleTable = (k.process p).handleTable :=
        hallocates.handleTable
      rcases createHandle_cases (k₁.finishThread k.threads.length
        (newThread p { a with processorId := c }) (tlsAddress i b) true) p k.threads.length with
        ⟨hfree, handle, hresult⟩ | ⟨hfull, hresult⟩
      · rw [htable] at hfree
        refine iff_of_true (fun result k' h => ?_) ⟨hentry, .inr ⟨hstorage, hfree⟩⟩
        rw [hcall, Option.some.injEq] at h
        rw [h] at hresult
        cases hresult
      · rw [htable] at hfull
        refine iff_of_false (fun h => ?_) (fun h => ?_)
        · refine not_unchanged_of_reserved p ?_
            (h _ _ (hcall.trans (congrArg some (Prod.ext hresult rfl))))
          exact hallocates.limits
        · rcases h.2 with hnone | ⟨-, hfree⟩
          · exact hnone c hc hmanager
          · exact hfull hfree

end KernelSystem

end ThreadCreation

end GbaStation.Kernel
