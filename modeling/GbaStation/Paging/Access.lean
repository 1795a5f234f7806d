import GbaStation.Paging.PageTable
import GbaStation.Common.ByteMemory

/-!
# Reads and writes through a page table (`core/memory.cpp`)

The scalar accesses (`Read`, `Write`) take the pointer of a page where there is one, and look at
the page type otherwise. The block accesses (`ReadBlock`, `WriteBlock`, `ZeroBlock`, `CopyBlock`) go
through a range page by page.

- A `Machine` is the memory system, the bytes of host memory, and the state of the GPU.
- A process is named by the place of its page table.
- The four block functions share the schedule of their loops (`chunks`): none of them lets the
  memory decide where the next page starts.
-/

namespace GbaStation.Paging

/-- How `RasterizerFlushVirtualRegion` changes what the rasterizer has cached. -/
inductive FlushMode
  | flush
  | invalidate
  | flushAndInvalidate
  deriving DecidableEq

structure Machine (G : Type) where
  system : MemorySystem
  host : Nat → Byte
  gpu : G

/-- What the memory system calls the GPU for. -/
structure Gpu (G : Type) where
  flushRegion : (paddr size : Nat) → Machine G → Machine G
  invalidateRegion : (paddr size : Nat) → Machine G → Machine G
  flushAndInvalidateRegion : (paddr size : Nat) → Machine G → Machine G
  readReg : (addr : Nat) → Machine G → Machine G × Nat
  writeReg : (addr value : Nat) → Machine G → Machine G

namespace Machine

variable {G : Type} (l : Layout) (r : Gpu G)

/-- The page table of a process. -/
def table (m : Machine G) (process : Nat) : PageTable :=
  m.system.pageTableList.getD process {}

/-! ## Flushing -/

/-- `CheckRegion` in `RasterizerFlushVirtualRegion`. -/
def checkRegion (start size : Nat) (mode : FlushMode) (regionStart regionEnd paddrStart : Nat)
    (m : Machine G) : Machine G :=
  let last := add32 start size
  if regionEnd ≤ start ∨ last ≤ regionStart then m
  else
    let overlapStart := max start regionStart
    let overlapEnd := min last regionEnd
    let physicalStart := paddrStart + (overlapStart - regionStart)
    let overlapSize := overlapEnd - overlapStart
    match mode with
    | .flush => r.flushRegion physicalStart overlapSize m
    | .invalidate => r.invalidateRegion physicalStart overlapSize m
    | .flushAndInvalidate => r.flushAndInvalidateRegion physicalStart overlapSize m

def rasterizerFlushVirtualRegion (start size : Nat) (mode : FlushMode) (m : Machine G) :
    Machine G :=
  let m := m.checkRegion r start size mode linearHeapVaddr linearHeapVaddrEnd fcramPaddr
  let m := m.checkRegion r start size mode newLinearHeapVaddr newLinearHeapVaddrEnd fcramPaddr
  let m := m.checkRegion r start size mode vramVaddr vramVaddrEnd vramPaddr
  if l.pluginFbAddress ≠ 0 then
    m.checkRegion r start size mode plugin3GXFbVaddr plugin3GXFbVaddrEnd l.pluginFbAddress
  else m

/-! ## Scalar accesses -/

/-- The bit of an address that Luma maps physical memory at. -/
def lumaAliasBit : Nat := 0x80000000

def ioAreaPaddr : Nat := 0x10100000

/-- The end of an access that is not served by the pointer: `Read` from the page type on. -/
def readSlow (process size vaddr : Nat) (m : Machine G) : Except Abort (Machine G × Nat) :=
  let page := vaddr / pageSize
  match (m.table process).attributes page with
  | .unmapped => .ok (m, 0)
  | .memory => .error .assertion
  | .memoryWatchpoint =>
    match (m.table process).watchpointPagesMap page with
    | some ⟨_, some ref⟩ =>
      .ok (m, littleEndian (copyOut m.host (ref.getPtr + vaddr % pageSize) size))
    | _ => .error .assertion
  | .rasterizerCachedMemory | .rasterizerCachedMemoryWatchpoint =>
    let m := m.rasterizerFlushVirtualRegion l r vaddr size .flush
    match l.getPointerForRasterizerCache vaddr with
    | some ref => .ok (m, littleEndian (copyOut m.host ref.getPtr size))
    | none => .error .unreachable

/-- `Read<T>` for a type of `size` bytes. -/
def read (process size vaddr : Nat) (m : Machine G) : Except Abort (Machine G × Nat) :=
  match (m.table process).pointers (vaddr / pageSize) with
  | some ref =>
    .ok (m, littleEndian (copyOut m.host (ref.getPtr + vaddr % pageSize) size))
  | none =>
    if lumaAliasBit ≤ vaddr ∧ (vaddr - lumaAliasBit) / 0x10000000 = 2 then
      .ok (m, littleEndian (copyOut m.host (l.fcramPtr + (vaddr - lumaAliasBit - fcramPaddr)) size))
    else if lumaAliasBit ≤ vaddr ∧ (vaddr - lumaAliasBit) / 0x10000000 = 1 ∧
        ioAreaPaddr ≤ vaddr - lumaAliasBit then
      let (m, value) := r.readReg (vaddr - lumaAliasBit - ioAreaPaddr + 0x1EC00000) m
      .ok (m, value % 0x100 ^ size)
    else m.readSlow l r process size vaddr

/-- `Write` from the page type on. -/
def writeSlow (process size vaddr value : Nat) (m : Machine G) : Except Abort (Machine G) :=
  let page := vaddr / pageSize
  match (m.table process).attributes page with
  | .unmapped => .ok m
  | .memory => .error .assertion
  | .memoryWatchpoint =>
    match (m.table process).watchpointPagesMap page with
    | some ⟨_, some ref⟩ =>
      .ok { m with host := copyIn m.host (ref.getPtr + vaddr % pageSize) size (bytesOf value) }
    | _ => .error .assertion
  | .rasterizerCachedMemory | .rasterizerCachedMemoryWatchpoint =>
    let m := m.rasterizerFlushVirtualRegion l r vaddr size .invalidate
    match l.getPointerForRasterizerCache vaddr with
    | some ref => .ok { m with host := copyIn m.host ref.getPtr size (bytesOf value) }
    | none => .error .unreachable

/-- `Write<T>` for a type of `size` bytes. -/
def write (process size vaddr value : Nat) (m : Machine G) : Except Abort (Machine G) :=
  match (m.table process).pointers (vaddr / pageSize) with
  | some ref =>
    .ok { m with host := copyIn m.host (ref.getPtr + vaddr % pageSize) size (bytesOf value) }
  | none =>
    if lumaAliasBit ≤ vaddr ∧ (vaddr - lumaAliasBit) / 0x10000000 = 2 then
      .ok { m with
        host := copyIn m.host (l.fcramPtr + (vaddr - lumaAliasBit - fcramPaddr)) size
          (bytesOf value) }
    else if lumaAliasBit ≤ vaddr ∧ (vaddr - lumaAliasBit) / 0x10000000 = 1 ∧
        ioAreaPaddr ≤ vaddr - lumaAliasBit then
      if size = 4 then
        .ok (r.writeReg (vaddr - lumaAliasBit - ioAreaPaddr + 0x1EC00000) value m)
      else .error .assertion
    else m.writeSlow l r process size vaddr value

/-! ## Block accesses -/

/-- The part of a range that lies in one page. -/
structure Chunk where
  page : Nat
  offset : Nat
  size : Nat

/-- `current_vaddr`. -/
def Chunk.vaddr (c : Chunk) : Nat := c.page * pageSize + c.offset

/-- The iterations of a loop `while (remaining_size > 0)`; each handles at least one byte. -/
def chunksFrom : (fuel page offset remaining : Nat) → List Chunk
  | 0, _, _, _ => []
  | fuel + 1, page, offset, remaining =>
    if remaining = 0 then []
    else
      let copyAmount := min (pageSize - offset) remaining
      ⟨page, offset, copyAmount⟩ :: chunksFrom fuel (page + 1) 0 (remaining - copyAmount)

def chunks (addr size : Nat) : List Chunk :=
  chunksFrom size (addr / pageSize) (addr % pageSize) size

/-- The body of the loop in `ReadBlockImpl`. -/
def readChunk (process : Nat) (m : Machine G) (c : Chunk) : Except Abort (Machine G × List Byte) :=
  match (m.table process).attributes c.page with
  | .unmapped => .ok (m, List.replicate c.size 0)
  | .memory =>
    match (m.table process).pointers c.page with
    | some ref => .ok (m, copyOut m.host (ref.getPtr + c.offset) c.size)
    | none => .error .assertion
  | .memoryWatchpoint =>
    match (m.table process).watchpointPagesMap c.page with
    | some ⟨_, some ref⟩ => .ok (m, copyOut m.host (ref.getPtr + c.offset) c.size)
    | _ => .error .assertion
  | .rasterizerCachedMemory | .rasterizerCachedMemoryWatchpoint =>
    let m := m.rasterizerFlushVirtualRegion l r c.vaddr c.size .flush
    match l.getPointerForRasterizerCache c.vaddr with
    | some ref => .ok (m, copyOut m.host ref.getPtr c.size)
    | none => .error .unreachable

/-- `ReadBlockImpl`; the bytes are those of the destination buffer. -/
def readBlock (process addr size : Nat) (m : Machine G) : Except Abort (Machine G × List Byte) :=
  (chunks addr size).foldlM (fun (m, bytes) c => do
    let (m, chunk) ← m.readChunk l r process c
    .ok (m, bytes ++ chunk)) (m, [])

/-- The bytes a source buffer has when the host memory is as given. A buffer outside the emulated
memory does not depend on it; `CopyBlock` passes a pointer into host memory. -/
abbrev Source := (host : Nat → Byte) → Nat → Byte

def Source.buffer (bytes : Nat → Byte) : Source := fun _ j => bytes j

def Source.pointer (ptr : Nat) : Source := fun host j => host (ptr + j)

/-- `src_buffer += n`. -/
def Source.drop (src : Source) (n : Nat) : Source := fun host j => src host (n + j)

/-- `memcpy` from a source buffer. -/
def copyFrom (m : Machine G) (ptr size : Nat) (src : Source) : Machine G :=
  { m with host := copyIn m.host ptr size (src m.host) }

/-- The body of the loop in `WriteBlockImpl`. -/
def writeChunk (process : Nat) (m : Machine G) (c : Chunk) (src : Source) :
    Except Abort (Machine G) :=
  match (m.table process).attributes c.page with
  | .unmapped => .ok m
  | .memory =>
    match (m.table process).pointers c.page with
    | some ref => .ok (m.copyFrom (ref.getPtr + c.offset) c.size src)
    | none => .error .assertion
  | .memoryWatchpoint =>
    match (m.table process).watchpointPagesMap c.page with
    | some ⟨_, some ref⟩ => .ok (m.copyFrom (ref.getPtr + c.offset) c.size src)
    | _ => .error .assertion
  | .rasterizerCachedMemory | .rasterizerCachedMemoryWatchpoint =>
    let m := m.rasterizerFlushVirtualRegion l r c.vaddr c.size .invalidate
    match l.getPointerForRasterizerCache c.vaddr with
    | some ref => .ok (m.copyFrom ref.getPtr c.size src)
    | none => .error .unreachable

/-- The loop of `WriteBlockImpl`. -/
def writeChunks (process : Nat) : List Chunk → Source → Machine G → Except Abort (Machine G)
  | [], _, m => .ok m
  | c :: cs, src, m => do
    let m ← m.writeChunk l r process c src
    writeChunks process cs (src.drop c.size) m

/-- `WriteBlockImpl`. -/
def writeBlock (process addr size : Nat) (src : Source) (m : Machine G) :
    Except Abort (Machine G) :=
  m.writeChunks l r process (chunks addr size) src

/-- The body of the loop in `ZeroBlock`. -/
def zeroChunk (process : Nat) (m : Machine G) (c : Chunk) : Except Abort (Machine G) :=
  match (m.table process).attributes c.page with
  | .unmapped => .ok m
  | .memory =>
    match (m.table process).pointers c.page with
    | some ref => .ok { m with host := copyIn m.host (ref.getPtr + c.offset) c.size fun _ => 0 }
    | none => .error .assertion
  | .memoryWatchpoint =>
    match (m.table process).watchpointPagesMap c.page with
    | some ⟨_, some ref⟩ =>
      .ok { m with host := copyIn m.host (ref.getPtr + c.offset) c.size fun _ => 0 }
    | _ => .error .assertion
  | .rasterizerCachedMemory | .rasterizerCachedMemoryWatchpoint =>
    let m := m.rasterizerFlushVirtualRegion l r c.vaddr c.size .invalidate
    match l.getPointerForRasterizerCache c.vaddr with
    | some ref => .ok { m with host := copyIn m.host ref.getPtr c.size fun _ => 0 }
    | none => .error .unreachable

def zeroBlock (process addr size : Nat) (m : Machine G) : Except Abort (Machine G) :=
  (chunks addr size).foldlM (fun m c => m.zeroChunk l r process c) m

/-- The body of the loop in `CopyBlock`, for the destination address it has come to. -/
def copyChunk (destProcess srcProcess dest : Nat) (m : Machine G) (c : Chunk) :
    Except Abort (Machine G) :=
  match (m.table srcProcess).attributes c.page with
  | .unmapped => m.zeroBlock l r destProcess dest c.size
  | .memory =>
    match (m.table srcProcess).pointers c.page with
    | some ref => m.writeBlock l r destProcess dest c.size (.pointer (ref.getPtr + c.offset))
    | none => .error .assertion
  | .memoryWatchpoint =>
    match (m.table srcProcess).watchpointPagesMap c.page with
    | some ⟨_, some ref⟩ =>
      m.writeBlock l r destProcess dest c.size (.pointer (ref.getPtr + c.offset))
    | _ => .error .assertion
  | .rasterizerCachedMemory | .rasterizerCachedMemoryWatchpoint =>
    let m := m.rasterizerFlushVirtualRegion l r c.vaddr c.size .flush
    match l.getPointerForRasterizerCache c.vaddr with
    | some ref => m.writeBlock l r destProcess dest c.size (.pointer ref.getPtr)
    | none => .error .unreachable

/-- The loop of `CopyBlock`. -/
def copyChunks (destProcess srcProcess : Nat) :
    List Chunk → (dest : Nat) → Machine G → Except Abort (Machine G)
  | [], _, m => .ok m
  | c :: cs, dest, m => do
    let m ← m.copyChunk l r destProcess srcProcess dest c
    copyChunks destProcess srcProcess cs (add32 dest c.size) m

def copyBlock (destProcess srcProcess dest src size : Nat) (m : Machine G) :
    Except Abort (Machine G) :=
  m.copyChunks l r destProcess srcProcess (chunks src size) dest

end Machine

end GbaStation.Paging
