import GbaStation.Common.PagedMemory

/-!
# The module registry of the RO service (`core/hle/service/ldr_ro/`)

`ldr:ro` loads relocatable modules (CRO) into a process and keeps the loaded ones on two lists,
linked through two words of the modules' own headers. The lists start at the static module (CRS).

- Addresses and sizes are natural numbers below `2 ^ 32`. Module memory is `PagedMemory`: the
  service reads and writes it through `MemorySystem`.
- `none` is the failed assertion of `Register` or the `UNREACHABLE` of `Unregister`.
-/

namespace GbaStation.Ldr

/-! ## Constants -/

def croHashSize : Nat := 0x80
def croHeaderSize : Nat := 0x138
def magicCro0 : Nat := 0x304F5243
def magicFixd : Nat := 0x44584946
def processImageVaddr : Nat := 0x00100000
def processImageVaddrEnd : Nat := 0x04000000

/-- The error results of the service. -/
inductive ErrorCode where
  | alreadyInitialized
  | notInitialized
  | bufferTooSmall
  | misalignedAddress
  | misalignedSize
  | illegalAddress
  | invalidMemoryState
  | notLoaded
  | notZero
  | croFormat (description : Nat)
  | kernel (raw : Nat)
deriving DecidableEq, Repr

/-! ## Module headers (`CROHelper`) -/

/-- The header fields that the registry reads or writes, by their index. -/
inductive HeaderField where
  | magic
  | nextCRO
  | previousCRO
  | fileSize
  | fixedSize
deriving DecidableEq, Repr

def HeaderField.index : HeaderField → Nat
  | .magic => 0
  | .nextCRO => 2
  | .previousCRO => 3
  | .fileSize => 4
  | .fixedSize => 6

/-- `CROHelper::Field`. -/
def field (address : Nat) (f : HeaderField) : Nat := address + croHashSize + f.index * 4

def getField (m : PagedMemory) (address : Nat) (f : HeaderField) : Nat :=
  m.read32 (field address f)

def setField (m : PagedMemory) (address : Nat) (f : HeaderField) (value : Nat) : PagedMemory :=
  m.write32 (field address f) value

def nextModule (m : PagedMemory) (address : Nat) : Nat := getField m address .nextCRO
def previousModule (m : PagedMemory) (address : Nat) : Nat := getField m address .previousCRO

def setNextModule (m : PagedMemory) (address next : Nat) : PagedMemory :=
  setField m address .nextCRO next

def setPreviousModule (m : PagedMemory) (address previous : Nat) : PagedMemory :=
  setField m address .previousCRO previous

/-- `CROHelper::InitCRS`. -/
def initCRS (m : PagedMemory) (crs : Nat) : PagedMemory :=
  setPreviousModule (setNextModule m crs 0) crs 0

/-- `CROHelper::Register`. -/
def register (m : PagedMemory) (crs address : Nat) (autoLink : Bool) : Option PagedMemory :=
  let head := if autoLink then nextModule m crs else previousModule m crs
  if head ≠ 0 then
    let tail := previousModule m head
    if nextModule m tail ≠ 0 then none
    else
      let m := setPreviousModule m address tail
      let m := setNextModule m tail address
      let m := setPreviousModule m head address
      some (setNextModule m address 0)
  else
    let m := setPreviousModule m address address
    let m := if autoLink then setNextModule m crs address else setPreviousModule m crs address
    some (setNextModule m address 0)

/-- The end of `CROHelper::Unregister`. -/
def unlinkSelf (m : PagedMemory) (address : Nat) : PagedMemory :=
  setPreviousModule (setNextModule m address 0) address 0

/-- `CROHelper::Unregister`. -/
def unregister (m : PagedMemory) (crs address : Nat) : Option PagedMemory :=
  let nextHead := nextModule m crs
  let previousHead := previousModule m crs
  let next := nextModule m address
  let previous := previousModule m address
  if address = nextHead ∨ address = previousHead then
    let m := if next ≠ 0 then setPreviousModule m next previous else m
    let m :=
      if address = previousHead then setPreviousModule m crs next else setNextModule m crs next
    some (unlinkSelf m address)
  else if next ≠ 0 then
    let m := setNextModule m previous next
    let m := setPreviousModule m next previous
    some (unlinkSelf m address)
  else
    let m := setNextModule m previous 0
    if nextHead ≠ 0 ∧ previousModule m nextHead = address then
      some (unlinkSelf (setPreviousModule m nextHead previous) address)
    else if previousHead ≠ 0 ∧ previousModule m previousHead = address then
      some (unlinkSelf (setPreviousModule m previousHead previous) address)
    else none

/-- `CROHelper::IsLoaded`. -/
def isLoaded (m : PagedMemory) (address : Nat) : Bool :=
  getField m address .magic = magicCro0 || getField m address .magic = magicFixd

/-- `CROHelper::IsFixed`. -/
def isFixed (m : PagedMemory) (address : Nat) : Bool := getField m address .magic = magicFixd

/-! ## Parts of a request -/

/-- What a part of a request does: the bytes it writes, and its error. -/
structure Part where
  writes : List (Nat × Byte)
  error : Option ErrorCode

/-- `CROHelper::Rebase`, with the checks of `RebaseHeader` that see the registry. `part` is the
rest of it. -/
def rebase (m : PagedMemory) (address : Nat) (part : Part) : PagedMemory × Option ErrorCode :=
  if getField m address .magic ≠ magicCro0 then (m, some (.croFormat 0x11))
  else if nextModule m address ≠ 0 ∨ previousModule m address ≠ 0 then
    (m, some (.croFormat 0x11))
  else if getField m address .fixedSize ≠ 0 then (m, some (.croFormat 0x11))
  else (m.writeAll part.writes, part.error)

/-- `CROHelper::Unrebase`, that writes `tables` and `header` but for the registry's fields. -/
def unrebase (m : PagedMemory) (address : Nat) (tables header : List (Nat × Byte)) :
    PagedMemory :=
  let m := m.writeAll tables
  let m := setPreviousModule (setNextModule m address 0) address 0
  let m := setField m address .fixedSize 0
  m.writeAll header

/-- `Process::Map`: pages that are mapped already, or beyond the address space, cannot be mapped. -/
def mapBuffer (m : PagedMemory) (address size : Nat) (image : Nat → Byte)
    (error : Option ErrorCode) : Except ErrorCode PagedMemory :=
  match error with
  | some e => .error e
  | none =>
    if 2 ^ 32 < address + size then .error (.kernel 0xE0A01BF5)
    else if (List.range (size / PagedMemory.pageSize)).any fun i =>
        m.mapped (address / PagedMemory.pageSize + i) then
      .error (.kernel 0xE0A01BF5)
    else .ok (m.map address size image)

/-- `Process::Unmap`. -/
def unmapBuffer (m : PagedMemory) (address size : Nat) (error : Option ErrorCode) : PagedMemory :=
  match error with
  | some _ => m
  | none => m.unmap address size

/-! ## Requests -/

/-- The service, with the slot of its session. -/
structure RO where
  memory : PagedMemory
  /-- The address of the static module, or 0. -/
  loadedCrs : Nat

structure InitializeRequest where
  crsBufferPtr : Nat
  crsSize : Nat
  crsAddress : Nat
  crsAddress_lt : crsAddress < 2 ^ 32
  /-- Whether `VerifyBufferState` accepts the buffer, and what the buffer holds. -/
  bufferState : Bool
  image : Nat → Byte
  map : Option ErrorCode
  rebase : Part

structure LoadRequest where
  croBufferPtr : Nat
  croAddress : Nat
  croAddress_lt : croAddress < 2 ^ 32
  croSize : Nat
  zero : Nat
  autoLink : Bool
  /-- Whether `VerifyBufferState` accepts the buffer, and what the buffer holds. -/
  bufferState : Bool
  image : Nat → Byte
  map : Option ErrorCode
  rebase : Part
  link : Part
  /-- What `Fix` writes but for the fixed size, and that size. -/
  fix : List (Nat × Byte)
  fixSize : Nat
  fixSize_lt : fixSize < 2 ^ 32
  unmapTail : Option ErrorCode
  /-- The error of `ReprotectRange`, if there are executable pages. -/
  reprotect : Option ErrorCode
  /-- The error, which is ignored, of the `Unmap` of an error exit. -/
  cleanup : Option ErrorCode

structure UnloadRequest where
  croAddress : Nat
  unlink : Part
  clearRelocations : Part
  tables : List (Nat × Byte)
  header : List (Nat × Byte)
  unmap : Option ErrorCode

structure ShutdownRequest where
  tables : List (Nat × Byte)
  header : List (Nat × Byte)
  unmap : Option ErrorCode

namespace RO

open PagedMemory

/-- `RO::Initialize`. -/
def initializeService (s : RO) (r : InitializeRequest) : RO × Except ErrorCode Unit :=
  if s.loadedCrs ≠ 0 then (s, .error .alreadyInitialized)
  else if r.crsSize < croHeaderSize then (s, .error .bufferTooSmall)
  else if r.crsBufferPtr % pageSize ≠ 0 then (s, .error .misalignedAddress)
  else if r.crsAddress % pageSize ≠ 0 then (s, .error .misalignedAddress)
  else if r.crsSize % pageSize ≠ 0 then (s, .error .misalignedSize)
  else if !r.bufferState then (s, .error .invalidMemoryState)
  else if r.crsAddress < processImageVaddr ∨
      processImageVaddrEnd < add32 r.crsAddress r.crsSize then
    (s, .error .illegalAddress)
  else
    match mapBuffer s.memory r.crsAddress r.crsSize r.image r.map with
    | .error e => (s, .error e)
    | .ok m =>
      match Ldr.rebase (initCRS m r.crsAddress) r.crsAddress r.rebase with
      | (m, some e) => ({ s with memory := m }, .error e)
      | (m, none) => (⟨m, r.crsAddress⟩, .ok ())

/-- The end of `RO::LoadCRO`, behind `Fix`. -/
def loadFixed (m : PagedMemory) (r : LoadRequest) : PagedMemory × Except ErrorCode Nat :=
  let tail : PagedMemory × Option ErrorCode :=
    if r.fixSize = r.croSize then (m, none)
    else
      (unmapBuffer m (add32 r.croAddress r.fixSize) (sub32 r.croSize r.fixSize) r.unmapTail,
        r.unmapTail)
  match tail with
  | (m, some e) => (unmapBuffer m r.croAddress r.croSize r.cleanup, .error e)
  | (m, none) =>
    match r.reprotect with
    | some e => (unmapBuffer m r.croAddress r.croSize r.cleanup, .error e)
    | none => (m, .ok r.fixSize)

/-- `RO::LoadCRO`, behind `Map`. `VerifyHash` accepts every module. -/
def loadMapped (m : PagedMemory) (crs : Nat) (r : LoadRequest) :
    Option (PagedMemory × Except ErrorCode Nat) :=
  match Ldr.rebase m r.croAddress r.rebase with
  | (m, some e) => some (unmapBuffer m r.croAddress r.croSize r.cleanup, .error e)
  | (m, none) =>
    let m := m.writeAll r.link.writes
    match r.link.error with
    | some e => some (unmapBuffer m r.croAddress r.croSize r.cleanup, .error e)
    | none => do
      let m ← register m crs r.croAddress r.autoLink
      let m := setField (m.writeAll r.fix) r.croAddress .fixedSize r.fixSize
      return loadFixed m r

/-- `RO::LoadCRO`. -/
def loadCRO (s : RO) (r : LoadRequest) : Option (RO × Except ErrorCode Nat) :=
  if s.loadedCrs = 0 then some (s, .error .notInitialized)
  else if r.croSize < croHeaderSize then some (s, .error .bufferTooSmall)
  else if r.croBufferPtr % pageSize ≠ 0 then some (s, .error .misalignedAddress)
  else if r.croAddress % pageSize ≠ 0 then some (s, .error .misalignedAddress)
  else if r.croSize % pageSize ≠ 0 then some (s, .error .misalignedSize)
  else if !r.bufferState then some (s, .error .invalidMemoryState)
  else if r.croAddress < processImageVaddr ∨
      processImageVaddrEnd < add32 r.croAddress r.croSize then
    some (s, .error .illegalAddress)
  else if r.zero ≠ 0 then some (s, .error .notZero)
  else
    match mapBuffer s.memory r.croAddress r.croSize r.image r.map with
    | .error e => some (s, .error e)
    | .ok m => do
      let (m, result) ← loadMapped m s.loadedCrs r
      return ({ s with memory := m }, result)

/-- Whether `RO::UnloadCRO` gets past its checks. -/
def unloadAccepted (s : RO) (r : UnloadRequest) : Bool :=
  s.loadedCrs ≠ 0 && r.croAddress % pageSize = 0 && isLoaded s.memory r.croAddress

/-- `RO::UnloadCRO`, behind `Unregister`. -/
def unloadUnregistered (m : PagedMemory) (fixedSize : Nat) (r : UnloadRequest) :
    PagedMemory × Except ErrorCode Unit :=
  let m := m.writeAll r.unlink.writes
  match r.unlink.error with
  | some e => (m, .error e)
  | none =>
    let clear : PagedMemory × Option ErrorCode :=
      if isFixed m r.croAddress then (m, none)
      else (m.writeAll r.clearRelocations.writes, r.clearRelocations.error)
    match clear with
    | (m, some e) => (m, .error e)
    | (m, none) =>
      let m := unmapBuffer (unrebase m r.croAddress r.tables r.header) r.croAddress fixedSize
        r.unmap
      match r.unmap with
      | some e => (m, .error e)
      | none => (m, .ok ())

/-- `RO::UnloadCRO`. -/
def unloadCRO (s : RO) (r : UnloadRequest) : Option (RO × Except ErrorCode Unit) :=
  if s.loadedCrs = 0 then some (s, .error .notInitialized)
  else if r.croAddress % pageSize ≠ 0 then some (s, .error .misalignedAddress)
  else if !isLoaded s.memory r.croAddress then some (s, .error .notLoaded)
  else do
    let fixedSize := getField s.memory r.croAddress .fixedSize
    let m ← unregister s.memory s.loadedCrs r.croAddress
    let (m, result) := unloadUnregistered m fixedSize r
    return ({ s with memory := m }, result)

/-- `RO::Shutdown`. -/
def shutdown (s : RO) (r : ShutdownRequest) : RO × Except ErrorCode Unit :=
  if s.loadedCrs = 0 then (s, .error .notInitialized)
  else
    let m := unrebase s.memory s.loadedCrs r.tables r.header
    let m := unmapBuffer m s.loadedCrs (getField m s.loadedCrs .fileSize) r.unmap
    (⟨m, 0⟩, match r.unmap with
      | some e => .error e
      | none => .ok ())

end RO

/-! ## Runs -/

inductive Request where
  | initializeService (r : InitializeRequest)
  | loadCRO (r : LoadRequest)
  | unloadCRO (r : UnloadRequest)
  | shutdown (r : ShutdownRequest)

/-- The modules that were loaded and not unloaded, by the results of the requests, in the order of
the loads. -/
structure Loaded where
  autoLinked : List Nat
  others : List Nat
deriving DecidableEq, Repr

/-- Every module that is loaded. -/
def Loaded.all (l : Loaded) : List Nat := l.autoLinked ++ l.others

def Loaded.load (l : Loaded) (address : Nat) (autoLink : Bool) : Loaded :=
  if autoLink then { l with autoLinked := l.autoLinked ++ [address] }
  else { l with others := l.others ++ [address] }

def Loaded.unload (l : Loaded) (address : Nat) : Loaded :=
  ⟨l.autoLinked.erase address, l.others.erase address⟩

namespace RO

/-- The service and the loaded modules after a request. -/
def step (s : RO) (l : Loaded) : Request → Option (RO × Loaded)
  | .initializeService r => some ((s.initializeService r).1, l)
  | .loadCRO r => do
    let (s, result) ← s.loadCRO r
    return (s, if result.toBool then l.load r.croAddress r.autoLink else l)
  | .unloadCRO r => do
    let (s, result) ← s.unloadCRO r
    return (s, if result.toBool then l.unload r.croAddress else l)
  | .shutdown r => some ((s.shutdown r).1, l)

/-- The service and the loaded modules after a run, unless an assertion fails. -/
def run (s : RO) (l : Loaded) : List Request → Option (RO × Loaded)
  | [] => some (s, l)
  | r :: rs => (s.step l r).bind fun (s, l) => s.run l rs

end RO

end GbaStation.Ldr
