import GbaStation.Common.Checked
import GbaStation.Kernel.Result

/-!
# Translating command buffers (`core/hle/ipc.h`, `kernel/ipc.cpp`, `kernel/hle_ipc.cpp`)

A command is a header word, normal parameters and translate parameters, which are descriptors each
with words of their own. Three functions walk over the descriptors: `TranslateCommandBuffer` between
two processes, and `PopulateFromIncomingCommandBuffer` and `WriteToOutgoingCommandBuffer` between a
process and a service of the emulator. What they ask of the rest of the kernel is a parameter here
(`Services`); the walk itself, with every access to the words of the command, is not.

- The index is advanced inside the cases, by a number of words that depends on the descriptor.
- An access outside the words of the command stops with `Fault.read` or `Fault.write`, a failed
  `ASSERT` with `Fault.assertion`.
- The recorder of the IPC debugger and the log of unsupported descriptors are left out.
-/

namespace GbaStation.Kernel

/-- A word of a command. -/
abbrev CommandWord := BitVec 32

/-- `ErrCodes::CommandTooLarge`, as `TranslateCommandBuffer` puts it together. -/
def Result.commandTooLarge : Result := ⟨0xC8A01836⟩

namespace Ipc

/-- `COMMAND_BUFFER_LENGTH`: the size of the command buffer area in words. -/
def commandBufferLength : Nat := 0x100 / 4

theorem commandBufferLength_pos : 0 < commandBufferLength := by decide

abbrev CommandBuffer := Vector CommandWord commandBufferLength

/-! ## Headers and descriptors -/

/-- `Header::translate_params_size`. -/
def translateParamsSize (header : CommandWord) : Nat := header.toNat % 2 ^ 6

/-- `Header::normal_params_size`. -/
def normalParamsSize (header : CommandWord) : Nat := header.toNat / 2 ^ 6 % 2 ^ 6

def untranslatedSize (header : CommandWord) : Nat := 1 + normalParamsSize header

def commandSize (header : CommandWord) : Nat := untranslatedSize header + translateParamsSize header

/-- `DescriptorType`, and the value of the type bits that it has no name for. -/
inductive DescriptorType
  | copyHandle
  | moveHandle
  | callingPid
  | staticBuffer
  | pxiBuffer
  | mappedBuffer
  | unnamed
deriving DecidableEq, Repr

/-- `GetDescriptorType`. -/
def getDescriptorType (descriptor : CommandWord) : DescriptorType :=
  if descriptor &&& 0xF = 0 then
    if descriptor &&& 0x30 = 0 then .copyHandle
    else if descriptor &&& 0x30 = 0x10 then .moveHandle
    else if descriptor &&& 0x30 = 0x20 then .callingPid
    else .unnamed
  else if descriptor &&& 0x8 ≠ 0 then .mappedBuffer
  else if descriptor &&& 0x4 ≠ 0 then .pxiBuffer
  else .staticBuffer

/-- `HandleNumberFromDesc`. -/
def handleNumberFromDesc (handleDescriptor : CommandWord) : Nat :=
  handleDescriptor.toNat / 2 ^ 26 + 1

/-- `MoveHandleDesc`. -/
def moveHandleDesc (numHandles : CommandWord) : CommandWord := 0x10 ||| ((numHandles - 1) <<< 26)

/-- `CopyHandleDesc`. -/
def copyHandleDesc (numHandles : CommandWord) : CommandWord := 0x00 ||| ((numHandles - 1) <<< 26)

/-! ## The walk over the descriptors -/

variable {β σ : Type}

/-- What a case leaves behind: the function returns, or goes on at an index. -/
inductive Step (β σ : Type)
  | returned (result : Result) (buffers : β) (state : σ)
  | next (i : Nat) (buffers : β) (state : σ)

/-- The loops `while (i < command_size)`. `descriptor` reads the word at the index and `translate`
is the `switch`, at the index behind it. -/
def translateWords (commandSize : Nat) (descriptor : Nat → β → Except Fault (CommandWord × β))
    (translate : CommandWord → Nat → β → σ → Except Fault (Step β σ)) :
    Nat → Nat → β → σ → Except Fault (Result × β × σ)
  | 0, _, _, _ => .error .unreachable
  | fuel + 1, i, buffers, state =>
    if commandSize ≤ i then .ok (Result.success, buffers, state) else do
    let (word, buffers) ← descriptor i buffers
    match ← translate word (i + 1) buffers state with
    | .returned result buffers state => .ok (result, buffers, state)
    | .next i buffers state => translateWords commandSize descriptor translate fuel i buffers state

/-- The loops `for (u32 j = 0; j < num_handles; ++j)`: the word at the index is replaced, or its
replacement is written elsewhere. -/
def translateHandles (read : Nat → β → Except Fault CommandWord)
    (write : Nat → CommandWord → β → Except Fault β)
    (handle : CommandWord → σ → Option (CommandWord × σ)) :
    Nat → Nat → β → σ → Except Fault (β × σ)
  | 0, _, buffers, state => .ok (buffers, state)
  | n + 1, i, buffers, state => do
    let word ← read i buffers
    match handle word state with
    | none => .error .assertion
    | some (word, state) =>
      let buffers ← write i word buffers
      translateHandles read write handle n (i + 1) buffers state

/-- `cmd_buf[i]` as a value. -/
def readWord (i : Nat) (words : List CommandWord) : Except Fault CommandWord :=
  match words[i]? with
  | some word => .ok word
  | none => .error .read

/-- `cmd_buf[i] = word`. -/
def writeWord (i : Nat) (word : CommandWord) (words : List CommandWord) :
    Except Fault (List CommandWord) :=
  if i < words.length then .ok (words.set i word) else .error .write

/-- What the cases do with the rest of the kernel, each with the descriptor and its parameter;
`none` is a failed `ASSERT`. -/
structure Services (σ : Type) where
  /-- The new word for a handle. -/
  handle : (descriptor handle : CommandWord) → σ → Option (CommandWord × σ)
  callingPid : σ → CommandWord
  staticBuffer : (descriptor address : CommandWord) → σ → Option (CommandWord × σ)
  /-- No new word where the source skips the parameter. -/
  mappedBuffer : (descriptor address : CommandWord) → σ → Option (Option CommandWord × σ)

/-- The `switch` that `TranslateCommandBuffer` and `PopulateFromIncomingCommandBuffer` share, up to
where they find a word, where they put its replacement, and what they do when there are more
handles than words left. -/
def incomingDescriptor (read : Nat → β → Except Fault CommandWord)
    (write : Nat → CommandWord → β → Except Fault β) (tooLarge : β → σ → Except Fault (Step β σ))
    (k : Services σ) (commandSize : Nat) (descriptor : CommandWord) (i : Nat) (b : β) (s : σ) :
    Except Fault (Step β σ) :=
  match getDescriptorType descriptor with
  | .copyHandle | .moveHandle =>
    let numHandles := handleNumberFromDesc descriptor
    if commandSize < i + numHandles then tooLarge b s else do
    let (b, s) ← translateHandles read write (k.handle descriptor) numHandles i b s
    .ok (.next (i + numHandles) b s)
  | .callingPid => do
    let b ← write i (k.callingPid s) b
    .ok (.next (i + 1) b s)
  | .staticBuffer => do
    let address ← read i b
    match k.staticBuffer descriptor address s with
    | none => .error .assertion
    | some (word, s) =>
      let b ← write i word b
      .ok (.next (i + 1) b s)
  | .mappedBuffer => do
    let address ← read i b
    match k.mappedBuffer descriptor address s with
    | none => .error .assertion
    | some (none, s) => .ok (.next (i + 1) b s)
    | some (some word, s) =>
      let b ← write i word b
      .ok (.next (i + 1) b s)
  | .pxiBuffer | .unnamed => .ok (.next i b s)

/-! ## `TranslateCommandBuffer` -/

/-- The `switch` of `TranslateCommandBuffer`, which returns an error for too many handles. -/
def translateDescriptor (k : Services σ) (commandSize : Nat) (descriptor : CommandWord) (i : Nat)
    (cmdBuf : List CommandWord) (s : σ) : Except Fault (Step (List CommandWord) σ) :=
  incomingDescriptor readWord writeWord
    (fun cmdBuf s => .ok (.returned Result.commandTooLarge cmdBuf s)) k commandSize descriptor i
    cmdBuf s

/-- `TranslateCommandBuffer`, from the words of the source to the words for the destination. Only
the words of the command are read from the source, so that there are no others to access. -/
def translateCommandBuffer (k : Services σ) (src : CommandBuffer) (s : σ) :
    Except Fault (Result × List CommandWord × σ) :=
  let header := src[0]
  let size := commandSize header
  if commandBufferLength < size then .error .assertion else
  translateWords size (fun i cmdBuf => do .ok (← readWord i cmdBuf, cmdBuf))
    (translateDescriptor k size) (size + 1) (untranslatedSize header) (src.toList.take size) s

/-! ## `PopulateFromIncomingCommandBuffer` -/

/-- The words of the source and those of the context. -/
structure Buffers where
  src : List CommandWord
  dst : List CommandWord

namespace Buffers

def read (i : Nat) (b : Buffers) : Except Fault CommandWord := readWord i b.src

def write (i : Nat) (word : CommandWord) (b : Buffers) : Except Fault Buffers := do
  .ok { b with dst := ← writeWord i word b.dst }

/-- `descriptor = cmd_buf[i] = src_cmdbuf[i]`. -/
def copy (i : Nat) (b : Buffers) : Except Fault (CommandWord × Buffers) := do
  let word ← b.read i
  .ok (word, ← b.write i word)

/-- The words of a command of the given size, with the untranslated ones copied. -/
def start (src dst : CommandBuffer) (untranslatedSize size : Nat) : Buffers where
  src := src.toList.take size
  dst := (src.toList.take untranslatedSize ++ dst.toList.drop untranslatedSize).take size

end Buffers

/-- The `switch` of `PopulateFromIncomingCommandBuffer`, where too many handles fail an `ASSERT`. -/
def populateDescriptor (k : Services σ) (commandSize : Nat) (descriptor : CommandWord) (i : Nat)
    (b : Buffers) (s : σ) : Except Fault (Step Buffers σ) :=
  incomingDescriptor Buffers.read Buffers.write (fun _ _ => .error .assertion) k commandSize
    descriptor i b s

/-- `PopulateFromIncomingCommandBuffer`; `cmdBuf` is what the context held before. -/
def populateFromIncomingCommandBuffer (k : Services σ) (src cmdBuf : CommandBuffer) (s : σ) :
    Except Fault (Result × Buffers × σ) :=
  let header := src[0]
  let size := commandSize header
  if commandBufferLength < size then .error .assertion else
  translateWords size Buffers.copy (populateDescriptor k size) (size + 1) (untranslatedSize header)
    (.start src cmdBuf (untranslatedSize header) size) s

/-! ## `WriteToOutgoingCommandBuffer` -/

/-- What its cases do with the rest of the kernel. The parameter of a static buffer is not read. -/
structure OutgoingServices (σ : Type) where
  handle : (handle : CommandWord) → σ → Option (CommandWord × σ)
  staticBuffer : (descriptor : CommandWord) → σ → Option (CommandWord × σ)
  mappedBuffer : (id : CommandWord) → σ → Option CommandWord

/-- The `switch` of `WriteToOutgoingCommandBuffer`, which has no case for the process id. -/
def writeDescriptor (k : OutgoingServices σ) (commandSize : Nat) (descriptor : CommandWord)
    (i : Nat) (b : Buffers) (s : σ) : Except Fault (Step Buffers σ) :=
  match getDescriptorType descriptor with
  | .copyHandle | .moveHandle =>
    let numHandles := handleNumberFromDesc descriptor
    if commandSize < i + numHandles then .error .assertion else do
    let (b, s) ← translateHandles Buffers.read Buffers.write k.handle numHandles i b s
    .ok (.next (i + numHandles) b s)
  | .staticBuffer =>
    match k.staticBuffer descriptor s with
    | none => .error .assertion
    | some (word, s) => do
      let b ← b.write i word
      .ok (.next (i + 1) b s)
  | .mappedBuffer => do
    let id ← b.read i
    match k.mappedBuffer id s with
    | none => .error .assertion
    | some word =>
      let b ← b.write i word
      .ok (.next (i + 1) b s)
  | .callingPid | .pxiBuffer | .unnamed => .ok (.next i b s)

/-- `WriteToOutgoingCommandBuffer`; `dst` is what the destination held before. -/
def writeToOutgoingCommandBuffer (k : OutgoingServices σ) (cmdBuf dst : CommandBuffer) (s : σ) :
    Except Fault (Result × Buffers × σ) :=
  let header := cmdBuf[0]
  let size := commandSize header
  if commandBufferLength < size then .error .assertion else
  translateWords size Buffers.copy (writeDescriptor k size) (size + 1) (untranslatedSize header)
    (.start cmdBuf dst (untranslatedSize header) size) s

end Ipc

end GbaStation.Kernel
