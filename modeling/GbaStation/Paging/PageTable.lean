import GbaStation.Common.Word
import GbaStation.Common.Stops
import Mathlib.Logic.Function.Basic

/-!
# Page tables and rasterizer-cached pages (`core/memory.cpp`, `core/memory.h`)

A page table has a type and a pointer for every page of the address space. Pages whose memory the
rasterizer keeps in its cache have types of their own and no pointer, so that an access to them
takes the slow path; pages with a watchpoint likewise. Which addresses are rasterizer-cached is also
recorded in the `RasterizerCacheMarker`, because a page may be mapped after it was cached.

- Addresses and sizes are `u32` values kept as natural numbers. Pages have the number
  `address / CITRA_PAGE_SIZE`.
- A call that hits an `ASSERT` or an `UNREACHABLE`, or never returns, has no result (`Abort`).
- `MapPages` first flushes the region (`RasterizerFlushVirtualRegion`); what the rasterizer marks
  then is a call of `RasterizerMarkRegionCached` of its own, before the call that maps.
-/

namespace GbaStation.Paging

/-- `CITRA_PAGE_SIZE`. -/
def pageSize : Nat := 0x1000

/-- `PAGE_TABLE_NUM_ENTRIES`. -/
def pageTableNumEntries : Nat := 0x100000

/-! ## The address map -/

def linearHeapVaddr : Nat := 0x14000000
def linearHeapVaddrEnd : Nat := 0x1C000000
def newLinearHeapVaddr : Nat := 0x30000000
def newLinearHeapVaddrEnd : Nat := 0x40000000
def vramVaddr : Nat := 0x1F000000
def vramVaddrEnd : Nat := 0x1F600000
def plugin3GXFbVaddr : Nat := 0x06000000
def plugin3GXFbSize : Nat := 0xA9000
def plugin3GXFbVaddrEnd : Nat := 0x060A9000
def fcramPaddr : Nat := 0x20000000
def fcramPaddrEnd : Nat := 0x28000000
def fcramN3DSPaddrEnd : Nat := 0x30000000
def fcramN3DSSize : Nat := 0x10000000
def vramPaddr : Nat := 0x18000000
def vramPaddrEnd : Nat := 0x18600000
def vramSize : Nat := 0x00600000

/-! ## References to host memory -/

/-- A `BackingMem`: where it lies in host memory, and its size. -/
structure BackingMem where
  ptr : Nat
  size : Nat
  deriving DecidableEq

/-- A `MemoryRef` that is not null. The constructor asserts the bound on the offset. -/
structure HostRef where
  backingMem : BackingMem
  offset : Nat
  offset_le : offset ≤ backingMem.size
  deriving DecidableEq

/-- A `MemoryRef`; `none` is the null reference. -/
abbrev MemoryRef := Option HostRef

namespace HostRef

def getPtr (r : HostRef) : Nat := r.backingMem.ptr + r.offset

def getSize (r : HostRef) : Nat := r.backingMem.size - r.offset

/-- `memory += CITRA_PAGE_SIZE`, which `MapPages` does while there is more than a page left. -/
def nextPage (r : HostRef) : HostRef :=
  if h : pageSize < r.getSize then
    { r with
      offset := r.offset + pageSize
      offset_le := by unfold getSize at h; omega }
  else r

end HostRef

/-- What the memory system is built over, and the address of the plugin framebuffer. -/
structure Layout where
  fcramPtr : Nat
  vramPtr : Nat
  pluginFbAddress : Nat
  pluginFb : pluginFbAddress = 0 ∨ pluginFbAddress % pageSize = 0 ∧ fcramPaddr ≤ pluginFbAddress ∧
    pluginFbAddress + plugin3GXFbSize ≤ fcramN3DSPaddrEnd

namespace Layout

def fcramMem (l : Layout) : BackingMem := ⟨l.fcramPtr, fcramN3DSSize⟩

def vramMem (l : Layout) : BackingMem := ⟨l.vramPtr, vramSize⟩

/-- `GetPointerForRasterizerCache`; `none` where it is `UNREACHABLE`. -/
def getPointerForRasterizerCache (l : Layout) (addr : Nat) : Option HostRef :=
  if h : linearHeapVaddr ≤ addr ∧ addr < linearHeapVaddrEnd then
    some ⟨l.fcramMem, addr - linearHeapVaddr, by
      simp only [fcramMem, linearHeapVaddr, linearHeapVaddrEnd, fcramN3DSSize] at *
      omega⟩
  else if h : newLinearHeapVaddr ≤ addr ∧ addr < newLinearHeapVaddrEnd then
    some ⟨l.fcramMem, addr - newLinearHeapVaddr, by
      simp only [fcramMem, newLinearHeapVaddr, newLinearHeapVaddrEnd, fcramN3DSSize] at *
      omega⟩
  else if h : vramVaddr ≤ addr ∧ addr < vramVaddrEnd then
    some ⟨l.vramMem, addr - vramVaddr, by
      simp only [vramMem, vramVaddr, vramVaddrEnd, vramSize] at *
      omega⟩
  else if h : (plugin3GXFbVaddr ≤ addr ∧ addr < plugin3GXFbVaddrEnd) ∧ l.pluginFbAddress ≠ 0 then
    some ⟨l.fcramMem, addr - plugin3GXFbVaddr + l.pluginFbAddress - fcramPaddr, by
      have := l.pluginFb
      simp only [fcramMem, plugin3GXFbVaddr, plugin3GXFbVaddrEnd, plugin3GXFbSize, fcramPaddr,
        fcramN3DSPaddrEnd, fcramN3DSSize] at *
      omega⟩
  else none

/-- `PhysicalToVirtualAddressForRasterizer`. The order of the cases matters. -/
def physicalToVirtualAddressForRasterizer (l : Layout) (addr : Nat) : List Nat :=
  if vramPaddr ≤ addr ∧ addr < vramPaddrEnd then
    [addr - vramPaddr + vramVaddr]
  else if l.pluginFbAddress ≠ 0 ∧ l.pluginFbAddress ≤ addr ∧
      addr < l.pluginFbAddress + plugin3GXFbSize then
    [addr - l.pluginFbAddress + plugin3GXFbVaddr]
  else if fcramPaddr ≤ addr ∧ addr < fcramPaddrEnd then
    [addr - fcramPaddr + linearHeapVaddr, addr - fcramPaddr + newLinearHeapVaddr]
  else if fcramPaddrEnd ≤ addr ∧ addr < fcramN3DSPaddrEnd then
    [addr - fcramPaddr + newLinearHeapVaddr]
  else []

end Layout

/-! ## The marker -/

/-- An entry of one of the four arrays of the marker. -/
inductive MarkerSlot
  | vram (i : Nat)
  | linearHeap (i : Nat)
  | newLinearHeap (i : Nat)
  | pluginFb (i : Nat)
  deriving DecidableEq

/-- `RasterizerCacheMarker`. -/
structure RasterizerCacheMarker where
  cached : MarkerSlot → Bool := fun _ => false

namespace RasterizerCacheMarker

/-- `RasterizerCacheMarker::At`. -/
def slotAt (addr : Nat) : Option MarkerSlot :=
  if vramVaddr ≤ addr ∧ addr < vramVaddrEnd then
    some (.vram ((addr - vramVaddr) / pageSize))
  else if linearHeapVaddr ≤ addr ∧ addr < linearHeapVaddrEnd then
    some (.linearHeap ((addr - linearHeapVaddr) / pageSize))
  else if newLinearHeapVaddr ≤ addr ∧ addr < newLinearHeapVaddrEnd then
    some (.newLinearHeap ((addr - newLinearHeapVaddr) / pageSize))
  else if plugin3GXFbVaddr ≤ addr ∧ addr < plugin3GXFbVaddrEnd then
    some (.pluginFb ((addr - plugin3GXFbVaddr) / pageSize))
  else none

def mark (m : RasterizerCacheMarker) (addr : Nat) (cached : Bool) : RasterizerCacheMarker :=
  match slotAt addr with
  | some slot => ⟨Function.update m.cached slot cached⟩
  | none => m

def isCached (m : RasterizerCacheMarker) (addr : Nat) : Bool :=
  match slotAt addr with
  | some slot => m.cached slot
  | none => false

end RasterizerCacheMarker

/-! ## Page tables -/

inductive PageType
  | unmapped
  | memory
  | rasterizerCachedMemory
  | memoryWatchpoint
  | rasterizerCachedMemoryWatchpoint
  deriving DecidableEq

structure WatchpointPageInfo where
  watchpointCount : Nat
  memory : MemoryRef

/-- A `PageTable`; the defaults are those of `PageTable::Clear`. -/
structure PageTable where
  pointers : Nat → MemoryRef := fun _ => none
  attributes : Nat → PageType := fun _ => .unmapped
  watchpointPagesMap : Nat → Option WatchpointPageInfo := fun _ => none

/-- Why a call has no result. -/
inductive Abort
  | assertion
  | unreachable
  | neverReturns
  deriving DecidableEq

namespace PageTable

variable (l : Layout) (t : PageTable)

def setPage (page : Nat) (type : PageType) (memory : MemoryRef) : PageTable :=
  { t with
    attributes := Function.update t.attributes page type
    pointers := Function.update t.pointers page memory }

def setType (page : Nat) (type : PageType) : PageTable :=
  { t with attributes := Function.update t.attributes page type }

def setInfo (page : Nat) (info : Option WatchpointPageInfo) : PageTable :=
  { t with watchpointPagesMap := Function.update t.watchpointPagesMap page info }

/-- The body of the loop in `MapPages`. -/
def mapPage (marker : RasterizerCacheMarker) (base : Nat) (memory : MemoryRef) (type : PageType) :
    PageTable :=
  -- memory that is already rasterizer-cached
  if type = .memory ∧ marker.isCached (base * pageSize) then
    t.setPage base .rasterizerCachedMemory none
  else t.setPage base type memory

/-- The loop of `MapPages` over `size` pages from `base`. -/
def mapPages (marker : RasterizerCacheMarker) (type : PageType) :
    PageTable → (base size : Nat) → MemoryRef → Except Abort PageTable
  | t, _, 0, _ => .ok t
  | t, base, size + 1, memory =>
    if base < pageTableNumEntries then
      mapPages marker type (t.mapPage marker base memory type) (base + 1) size
        (memory.map HostRef.nextPage)
    else .error .assertion

/-- `MapMemoryRegion` and `UnmapRegion`: both map pages of a type, to a target. -/
def mapRegion (marker : RasterizerCacheMarker) (base size : Nat) (target : MemoryRef)
    (type : PageType) : Except Abort PageTable :=
  if size % pageSize ≠ 0 ∨ base % pageSize ≠ 0 then .error .assertion
  else t.mapPages marker type (base / pageSize) (size / pageSize) target

/-- The body of the loop in `RegisterWatchpoint`. -/
def registerPage (page : Nat) : Except Abort PageTable :=
  match t.watchpointPagesMap page with
  | some info =>
    .ok (t.setInfo page (some { info with watchpointCount := add32 info.watchpointCount 1 }))
  | none =>
    match t.attributes page with
    | .memory =>
      .ok ((t.setPage page .memoryWatchpoint none).setInfo page (some ⟨1, t.pointers page⟩))
    | .rasterizerCachedMemory =>
      match l.getPointerForRasterizerCache (page * pageSize) with
      | some ref =>
        .ok ((t.setType page .rasterizerCachedMemoryWatchpoint).setInfo page (some ⟨1, some ref⟩))
      | none => .error .unreachable
    -- `continue` without moving on to the next page
    | _ => .error .neverReturns

/-- The body of the loop in `UnregisterWatchpoint`. -/
def unregisterPage (page : Nat) : PageTable :=
  match t.watchpointPagesMap page with
  | none => t
  | some info =>
    let count := sub32 info.watchpointCount 1
    if count = 0 then
      match t.attributes page with
      | .memoryWatchpoint => (t.setPage page .memory info.memory).setInfo page none
      | .rasterizerCachedMemoryWatchpoint =>
        (t.setType page .rasterizerCachedMemory).setInfo page none
      | _ => t.setInfo page none
    else t.setInfo page (some { info with watchpointCount := count })

/-- The loop `while (current < end)` of the two watchpoint functions, a page at a time. When the
last page of the address space is in the region `current` wraps to zero, and it starts again. -/
def overPages (body : PageTable → Nat → Except Abort PageTable) (addr size : Nat) :
    Except Abort PageTable :=
  let last := add32 addr size
  if addr < last then do
    let t ← (List.range' (addr / pageSize)
      ((last - 1) / pageSize + 1 - addr / pageSize)).foldlM body t
    if (last - 1) / pageSize + 1 = pageTableNumEntries then .error .neverReturns else .ok t
  else .ok t

def registerWatchpoint (addr size : Nat) : Except Abort PageTable :=
  t.overPages (fun t page => t.registerPage l page) addr size

def unregisterWatchpoint (addr size : Nat) : Except Abort PageTable :=
  t.overPages (fun t page => .ok (t.unregisterPage page)) addr size

/-- What `RasterizerMarkRegionCached` does to a page table, for one virtual address. -/
def markPage (vaddr : Nat) (cached : Bool) : Except Abort PageTable :=
  let page := vaddr / pageSize
  if cached then
    match t.attributes page with
    | .unmapped => .ok t
    | .memory => .ok (t.setPage page .rasterizerCachedMemory none)
    | .memoryWatchpoint => .ok (t.setPage page .rasterizerCachedMemoryWatchpoint none)
    | _ => .error .unreachable
  else
    match t.attributes page with
    | .unmapped => .ok t
    | .rasterizerCachedMemory =>
      match l.getPointerForRasterizerCache (page * pageSize) with
      | some ref => .ok (t.setPage page .memory (some ref))
      | none => .error .unreachable
    | .rasterizerCachedMemoryWatchpoint => .ok (t.setType page .memoryWatchpoint)
    | _ => .error .unreachable

end PageTable

/-! ## The memory system -/

/-- What a `MemorySystem` has besides the layout: the marker and the registered page tables. -/
structure MemorySystem where
  cacheMarker : RasterizerCacheMarker := {}
  pageTableList : List PageTable := []

namespace MemorySystem

variable (l : Layout) (s : MemorySystem)

/-- A change of the page table at a place of the list. -/
def onTable (i : Nat) (f : PageTable → Except Abort PageTable) : Except Abort MemorySystem :=
  match s.pageTableList[i]? with
  | none => .ok s
  | some t => do
    let t ← f t
    .ok { s with pageTableList := s.pageTableList.set i t }

/-- The physical addresses `RasterizerMarkRegionCached` goes through, one for each page. -/
def markedPaddrs (start size : Nat) : List Nat :=
  if start = 0 then []
  else
    let numPages := add32 (sub32 (sub32 (add32 start size) 1 / pageSize) (start / pageSize)) 1
    (List.range numPages).map fun i => add32 start (i * pageSize)

/-- The body of the loop over the virtual addresses of a physical address. -/
def markVaddr (cached : Bool) (vaddr : Nat) : Except Abort MemorySystem := do
  let tables ← s.pageTableList.mapM fun t => t.markPage l vaddr cached
  .ok { cacheMarker := s.cacheMarker.mark vaddr cached, pageTableList := tables }

/-- The body of the loop over the pages. -/
def markPaddr (cached : Bool) (paddr : Nat) : Except Abort MemorySystem :=
  (l.physicalToVirtualAddressForRasterizer paddr).foldlM (fun s v => s.markVaddr l cached v) s

def rasterizerMarkRegionCached (start size : Nat) (cached : Bool) : Except Abort MemorySystem :=
  (markedPaddrs start size).foldlM (fun s p => s.markPaddr l cached p) s

/-- A call. Page tables are named by their place in the list of the registered ones; the target of
a mapping is never null. -/
inductive Op
  | registerPageTable
  | unregisterPageTable (i : Nat)
  | mapMemoryRegion (i base size : Nat) (target : HostRef)
  | unmapRegion (i base size : Nat)
  | registerWatchpoint (i addr size : Nat)
  | unregisterWatchpoint (i addr size : Nat)
  | rasterizerMarkRegionCached (start size : Nat) (cached : Bool)

def step : Op → Except Abort MemorySystem
  | .registerPageTable => .ok { s with pageTableList := s.pageTableList ++ [{}] }
  | .unregisterPageTable i => .ok { s with pageTableList := s.pageTableList.eraseIdx i }
  | .mapMemoryRegion i base size target =>
    s.onTable i fun t => t.mapRegion s.cacheMarker base size (some target) .memory
  | .unmapRegion i base size =>
    s.onTable i fun t => t.mapRegion s.cacheMarker base size none .unmapped
  | .registerWatchpoint i addr size => s.onTable i fun t => t.registerWatchpoint l addr size
  | .unregisterWatchpoint i addr size => s.onTable i fun t => t.unregisterWatchpoint addr size
  | .rasterizerMarkRegionCached start size cached => s.rasterizerMarkRegionCached l start size
    cached

/-- A run from a memory system without page tables. -/
def run (ops : List Op) : Except Abort MemorySystem := ops.foldlM (fun s op => s.step l op) {}

end MemorySystem

end GbaStation.Paging
