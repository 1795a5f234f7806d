import GbaStation.FileSys.IpsPatch

/-!
# BPS patches (`core/file_sys/patch.cpp`)

`ApplyBpsPatch` and the `Bps::PatchApplier`: a patch is a list of commands, and each one appends
bytes to the target, from the source or the target at the same place, from the patch, or from a
place relative to where the last copy ended.

Numbers are `u32` in the source and wrap, as do the relative offsets, which are `std::size_t`. The
checksum is a parameter. An empty `std::optional` that is dereferenced stops with
`Fault.assertion`, and a loop that does not end would stop with `Fault.unreachable`.

- `applyBpsPatch_iff`: the patches for which everything is inside and a buffer that is left with
  success is the target. A patch without its footer is not among them, nor a copy inside the target
  from before its first byte, nor a target that is shorter than the buffer, which is never cut.
-/

namespace GbaStation.FileSys

/-! ## Streams -/

/-- `Stream::ReadNumber` on the bytes that are left: the number, and how many bytes it takes. -/
def readNumberLoop : List Byte → (data shift : Nat) → Nat × Nat
  | [], data, _ => (data, 0)
  | x :: rest, data, shift =>
    let data := (data + x.toNat % 0x80 * shift) % 2 ^ 32
    if 0x80 ≤ x.toNat then (data, 1)
    else
      let shift := shift * 0x80 % 2 ^ 32
      let (data, n) := readNumberLoop rest ((data + shift) % 2 ^ 32) shift
      (data, n + 1)

/-- `Stream::ReadNumber`: the number and the offset behind it. -/
def readNumber (patch : List Byte) (offset : Nat) : Nat × Nat :=
  let (data, n) := readNumberLoop (patch.drop offset) 0 1
  (data, offset + n)

/-- `Stream::Read`; `none` is `false`. -/
def streamRead (stream : List Byte) (offset length : Nat) :
    Except Fault (Option (List Byte × Nat)) :=
  if stream.length < offset + length then .ok none else do
  let bytes ← readAt stream offset length
  .ok (some (bytes, offset + length))

/-- `Stream::Seek`: the new offset. -/
def seek (stream : List Byte) (offset : Nat) : Option Nat :=
  if stream.length < offset then none else some offset

/-! ## Commands -/

/-- The offsets of `PatchApplier` and the target. The offset of the source stream is set before
every use. -/
structure BpsApplier where
  patchOffset : Nat
  targetOffset : Nat
  sourceRelativeOffset : Nat
  targetRelativeOffset : Nat
  target : List Byte

/-- `Stream::CopyFrom` of the target: the applier, and the offset of the other stream. -/
def copyFrom (s : BpsApplier) (other : List Byte) (otherOffset length : Nat) :
    Except Fault (Option (BpsApplier × Nat)) :=
  if s.target.length < s.targetOffset + length then .ok none else do
  match ← streamRead other otherOffset length with
  | none => .ok none
  | some (bytes, otherOffset) => do
    let target ← storeAt s.target s.targetOffset bytes
    .ok (some ({ s with target := target, targetOffset := s.targetOffset + length }, otherOffset))

/-- `offset += (data & 1 ? -1 : +1) * int(data >> 1)`. -/
def moveOffset (offset data : Nat) : Nat :=
  if data % 2 = 1 then (offset + (2 ^ 64 - data / 2)) % 2 ^ 64 else (offset + data / 2) % 2 ^ 64

/-- `SourceRead`. -/
def sourceRead (source : List Byte) (s : BpsApplier) (length : Nat) :
    Except Fault (Bool × BpsApplier) :=
  match seek source s.targetOffset with
  | none => .ok (false, s)
  | some offset => do
    match ← copyFrom s source offset length with
    | none => .ok (false, s)
    | some (s, _) => .ok (true, s)

/-- `TargetRead`. -/
def targetRead (patch : List Byte) (s : BpsApplier) (length : Nat) :
    Except Fault (Bool × BpsApplier) := do
  match ← copyFrom s patch s.patchOffset length with
  | none => .ok (false, s)
  | some (s, patchOffset) => .ok (true, { s with patchOffset := patchOffset })

/-- `SourceCopy`. -/
def sourceCopy (source patch : List Byte) (s : BpsApplier) (length : Nat) :
    Except Fault (Bool × BpsApplier) :=
  let (data, patchOffset) := readNumber patch s.patchOffset
  let s := { s with
    patchOffset := patchOffset, sourceRelativeOffset := moveOffset s.sourceRelativeOffset data }
  match seek source s.sourceRelativeOffset with
  | none => .ok (false, s)
  | some offset => do
    match ← copyFrom s source offset length with
    | none => .ok (false, s)
    | some (s, _) => .ok (true, { s with
        sourceRelativeOffset := (s.sourceRelativeOffset + length) % 2 ^ 64 })

/-- The loop of `TargetCopy`, byte by byte. -/
def copyBytes (targetOffset : Nat) :
    Nat → Nat → Nat → List Byte → Except Fault (Nat × List Byte)
  | 0, _, relative, target => .ok (relative, target)
  | n + 1, i, relative, target => do
    let value ← byteAt target relative
    let target ← storeByte target (targetOffset + i) value
    copyBytes targetOffset n (i + 1) ((relative + 1) % 2 ^ 64) target

/-- `TargetCopy`. -/
def targetCopy (patch : List Byte) (s : BpsApplier) (length : Nat) :
    Except Fault (Bool × BpsApplier) :=
  let (data, patchOffset) := readNumber patch s.patchOffset
  let s := { s with
    patchOffset := patchOffset, targetRelativeOffset := moveOffset s.targetRelativeOffset data }
  if s.target.length < s.targetOffset + length then .ok (false, s)
  else if s.target.length < (s.targetRelativeOffset + length) % 2 ^ 64 then .ok (false, s)
  else do
    let (relative, target) ← copyBytes s.targetOffset length 0 s.targetRelativeOffset s.target
    .ok (true, { s with
      target := target, targetRelativeOffset := relative, targetOffset := s.targetOffset + length })

/-- `HandleCommand`. -/
def handleCommand (source patch : List Byte) (s : BpsApplier) :
    Except Fault (Bool × BpsApplier) :=
  let (data, patchOffset) := readNumber patch s.patchOffset
  let s := { s with patchOffset := patchOffset }
  let length := data / 4 + 1
  match data % 4 with
  | 0 => sourceRead source s length
  | 1 => targetRead patch s length
  | 2 => sourceCopy source patch s length
  | _ => targetCopy patch s length

/-- The loop of `Apply`: whether all commands succeeded. -/
def handleCommands (source patch : List Byte) (commandEnd : Nat) :
    Nat → BpsApplier → Except Fault (Bool × BpsApplier)
  | 0, _ => .error .unreachable
  | fuel + 1, s =>
    if commandEnd ≤ s.patchOffset then .ok (true, s) else do
    match ← handleCommand source patch s with
    | (false, s) => .ok (false, s)
    | (true, s) => handleCommands source patch commandEnd fuel s

/-! ## `ApplyBpsPatch` -/

/-- The characters of "BPS1". -/
def bpsMagic : List Byte := [0x42, 0x50, 0x53, 0x31]

def footerSize : Nat := 12

/-- `*m_patch.Read<u32>()`, and `Read` of four characters. -/
def readFour (patch : List Byte) (offset : Nat) : Except Fault (List Byte × Nat) := do
  match ← streamRead patch offset 4 with
  | none => .error .assertion
  | some r => .ok r

variable (crc32 : List Byte → Nat)

/-- `PatchApplier::Apply`: the status and the target that it leaves. -/
def applyBps (source target patch : List Byte) : Except Fault (ResultStatus × List Byte) := do
  let (magic, offset) ← readFour patch 0
  if magic ≠ bpsMagic then .ok (.errorPatches, target) else
  let (sourceSize, offset) := readNumber patch offset
  let (targetSize, offset) := readNumber patch offset
  let (metadataSize, offset) := readNumber patch offset
  if source.length < sourceSize ∨ target.length < targetSize ∨ metadataSize ≠ 0 then
    .ok (.errorPatches, target)
  else
  let commandStart := offset
  let commandEnd := sizeSub patch.length footerSize
  let footer := (seek patch commandEnd).getD offset
  let (sourceCrc32, footer) ← readFour patch footer
  let (targetCrc32, _) ← readFour patch footer
  if crc32 (← readAt source 0 sourceSize) ≠ littleEndian sourceCrc32 then
    .ok (.errorPatchesInvalidTitle, target)
  else
  let target := List.replicate target.length 0
  match ← handleCommands source patch commandEnd (patch.length + 1)
      ⟨commandStart, 0, 0, 0, target⟩ with
  | (false, s) => .ok (.errorPatches, s.target)
  | (true, s) =>
    if crc32 (← readAt s.target 0 targetSize) ≠ littleEndian targetCrc32 then
      .ok (.errorPatches, s.target)
    else .ok (.success, s.target)

/-- `std::vector::resize`. -/
def resize (buffer : List Byte) (size : Nat) : List Byte :=
  buffer.take size ++ List.replicate (size - buffer.length) 0

/-- `ApplyBpsPatch`. -/
def applyBpsPatch (patch buffer : List Byte) : Except Fault (ResultStatus × List Byte) :=
  let offset := (seek patch 4).getD 0
  let (sourceSize, offset) := readNumber patch offset
  let (targetSize, _) := readNumber patch offset
  let buffer := if sourceSize < targetSize then resize buffer targetSize else buffer
  applyBps crc32 buffer buffer patch

/-! ## The format -/

/-- A command with what it reads from the patch: its bytes, or the number that moves an offset. -/
inductive BpsCommand
  | sourceRead (length : Nat)
  | targetRead (length : Nat) (data : List Byte)
  | sourceCopy (length move : Nat)
  | targetCopy (length move : Nat)

/-- The command at an offset, and the offset behind it. -/
def decodeCommand (patch : List Byte) (offset : Nat) : BpsCommand × Nat :=
  let (data, offset) := readNumber patch offset
  let length := data / 4 + 1
  match data % 4 with
  | 0 => (.sourceRead length, offset)
  | 1 => (.targetRead length (bytesAt patch offset length), offset + length)
  | 2 => (.sourceCopy length (readNumber patch offset).1, (readNumber patch offset).2)
  | _ => (.targetCopy length (readNumber patch offset).1, (readNumber patch offset).2)

/-- The commands that begin before the end. -/
def decodeCommands (patch : List Byte) (commandEnd : Nat) : Nat → Nat → List BpsCommand
  | 0, _ => []
  | fuel + 1, offset =>
    if commandEnd ≤ offset then []
    else
      let (command, offset) := decodeCommand patch offset
      command :: decodeCommands patch commandEnd fuel offset

/-- The bytes that commands have written, and where the relative offsets are. -/
structure BpsOutput where
  bytes : List Byte
  source : Nat
  target : Nat

/-- Bytes copied from the output itself, one by one, so that they may be some that were just
copied. What is not written yet is zero. -/
def appendCopies : Nat → Nat → List Byte → List Byte
  | 0, _, bytes => bytes
  | n + 1, offset, bytes => appendCopies n (offset + 1) (bytes ++ [bytes.getD offset 0])

/-- A command on a target of a given size. -/
def BpsCommand.run (source : List Byte) (targetSize : Nat) (o : BpsOutput) :
    BpsCommand → Option BpsOutput
  | sourceRead length =>
    if o.bytes.length + length ≤ targetSize ∧ o.bytes.length + length ≤ source.length then
      some { o with bytes := o.bytes ++ bytesAt source o.bytes.length length }
    else none
  | targetRead length data =>
    if o.bytes.length + length ≤ targetSize ∧ data.length = length then
      some { o with bytes := o.bytes ++ data }
    else none
  | sourceCopy length move =>
    let offset := moveOffset o.source move
    if o.bytes.length + length ≤ targetSize ∧ offset + length ≤ source.length then
      some { o with bytes := o.bytes ++ bytesAt source offset length, source := offset + length }
    else none
  | targetCopy length move =>
    let offset := moveOffset o.target move
    if o.bytes.length + length ≤ targetSize ∧ offset + length ≤ targetSize then
      some { o with bytes := appendCopies length offset o.bytes, target := offset + length }
    else none

/-- A row of commands. -/
def runCommands (source : List Byte) (targetSize : Nat) (commands : List BpsCommand)
    (o : BpsOutput) : Option BpsOutput :=
  commands.foldlM (fun o c => c.run source targetSize o) o

/-- Bytes of a target, and zeros behind them. -/
def padded (targetSize : Nat) (bytes : List Byte) : List Byte :=
  bytes ++ List.replicate (targetSize - bytes.length) 0

/-- The target: what the commands write, and zeros behind it. -/
def bpsTarget (source : List Byte) (targetSize : Nat) (commands : List BpsCommand) :
    Option (List Byte) :=
  (runCommands source targetSize commands ⟨[], 0, 0⟩).map fun o => padded targetSize o.bytes

/-! ## Copies that stay inside -/

/-- A copy inside the target that has room there, from a place so far back that its end wraps: it
begins before the target. -/
def BpsCommand.BeginsBefore (targetSize : Nat) (o : BpsOutput) : BpsCommand → Prop
  | .targetCopy length move =>
    o.bytes.length + length ≤ targetSize ∧ 2 ^ 64 ≤ moveOffset o.target move + length
  | _ => False

/-- No copy begins before the target, up to the first command that does not fit. -/
def CopiesInside (source : List Byte) (targetSize : Nat) : List BpsCommand → BpsOutput → Prop
  | [], _ => True
  | c :: commands, o =>
    ¬c.BeginsBefore targetSize o ∧
      ∀ o', c.run source targetSize o = some o' → CopiesInside source targetSize commands o'

/-! ## Numbers -/

theorem readNumberLoop_le (bytes : List Byte) :
    ∀ {data shift : Nat}, (readNumberLoop bytes data shift).2 ≤ bytes.length := by
  induction bytes with
  | nil => exact fun {_ _} => Nat.le_refl _
  | cons x rest ih =>
    intro data shift
    rw [readNumberLoop]
    split_ifs with hx
    · exact Nat.succ_le_succ (Nat.zero_le _)
    · exact Nat.succ_le_succ ih

theorem readNumberLoop_pos {x : Byte} {rest : List Byte} {data shift : Nat} :
    0 < (readNumberLoop (x :: rest) data shift).2 := by
  rw [readNumberLoop]
  split_ifs with hx
  · exact Nat.one_pos
  · exact Nat.succ_pos _

theorem readNumberLoop_lt (bytes : List Byte) :
    ∀ {data shift : Nat}, data < 2 ^ 32 → (readNumberLoop bytes data shift).1 < 2 ^ 32 := by
  induction bytes with
  | nil => exact fun {_ _} h => h
  | cons x rest ih =>
    intro data shift h
    rw [readNumberLoop]
    split_ifs with hx
    · exact Nat.mod_lt _ (by decide)
    · exact ih (Nat.mod_lt _ (by decide))

section Numbers

variable {patch : List Byte} {offset : Nat}

theorem le_readNumber : offset ≤ (readNumber patch offset).2 := Nat.le_add_right _ _

theorem lt_readNumber (h : offset < patch.length) : offset < (readNumber patch offset).2 := by
  have hpos : 0 < (readNumberLoop (patch.drop offset) 0 1).2 := by
    rw [List.drop_eq_getElem_cons h]
    exact readNumberLoop_pos
  exact Nat.lt_add_of_pos_right hpos

theorem readNumber_le (h : offset ≤ patch.length) : (readNumber patch offset).2 ≤ patch.length := by
  have hle : (readNumberLoop (patch.drop offset) 0 1).2 ≤ (patch.drop offset).length :=
    readNumberLoop_le _
  rw [List.length_drop] at hle
  show offset + (readNumberLoop (patch.drop offset) 0 1).2 ≤ patch.length
  omega

theorem readNumber_lt : (readNumber patch offset).1 < 2 ^ 32 := readNumberLoop_lt _ (by decide)

end Numbers

theorem moveOffset_lt (offset data : Nat) : moveOffset offset data < 2 ^ 64 := by
  rw [moveOffset]
  split_ifs with h
  · exact Nat.mod_lt _ (by decide)
  · exact Nat.mod_lt _ (by decide)

/-! ## Copying -/

section Copying

variable {targetSize : Nat} {bytes : List Byte}

theorem length_padded (h : bytes.length ≤ targetSize) :
    (padded targetSize bytes).length = targetSize := by
  rw [padded, List.length_append, List.length_replicate]
  omega

theorem padded_nil : padded targetSize [] = List.replicate targetSize 0 := rfl

/-- Bytes that are stored behind those that were written. -/
theorem splice_padded {data : List Byte} (h : bytes.length + data.length ≤ targetSize) :
    splice (padded targetSize bytes) bytes.length data = padded targetSize (bytes ++ data) := by
  have hdrop : (bytes ++ List.replicate (targetSize - bytes.length) (0 : Byte)).drop
      (bytes.length + data.length) =
        List.replicate (targetSize - (bytes.length + data.length)) 0 := by
    rw [List.drop_append, List.drop_eq_nil_of_le (Nat.le_add_right _ _), List.nil_append,
      List.drop_replicate]
    congr 1
    omega
  rw [padded, splice, hdrop, List.take_left, padded, List.length_append]

theorem byteAt_padded {i : Nat} (h : bytes.length ≤ targetSize) (hi : i < targetSize) :
    byteAt (padded targetSize bytes) i = .ok (bytes.getD i 0) := by
  rw [byteAt_inside (by rwa [length_padded h])]
  congr 1
  by_cases hlt : i < bytes.length
  · rw [List.getD_eq_getElem?_getD, List.getElem?_eq_getElem hlt, Option.getD_some]
    exact List.getElem_append_left hlt
  · rw [List.getD_eq_getElem?_getD, List.getElem?_eq_none (Nat.not_lt.mp hlt), Option.getD_none]
    simp only [padded]
    rw [List.getElem_append_right (Nat.not_lt.mp hlt), List.getElem_replicate]

theorem storeByte_padded {b : Byte} (h : bytes.length < targetSize) :
    storeByte (padded targetSize bytes) bytes.length b =
      .ok (padded targetSize (bytes ++ [b])) := by
  have hlen := length_padded (Nat.le_of_lt h)
  have hset : (splice (padded targetSize bytes) bytes.length []).set bytes.length b =
      splice (padded targetSize bytes) bytes.length ([] ++ [b]) :=
    splice_snoc (show bytes.length + 0 < (padded targetSize bytes).length by omega)
  rw [splice_nil, List.nil_append, splice_padded (Nat.succ_le_of_lt h)] at hset
  rw [storeByte_inside b (by omega)]
  exact congrArg Except.ok hset

theorem length_appendCopies (n : Nat) :
    ∀ {offset : Nat} {bytes : List Byte},
      (appendCopies n offset bytes).length = bytes.length + n := by
  induction n with
  | zero => exact fun {_ _} => rfl
  | succ n ih =>
    intro offset bytes
    rw [appendCopies, ih, List.length_append, List.length_singleton]
    omega

/-- The loop of a copy inside the target. -/
theorem copyBytes_padded {targetOffset : Nat} (hsize : targetSize < 2 ^ 64) (n : Nat) :
    ∀ {i relative : Nat} {bytes : List Byte}, targetOffset + i = bytes.length →
      bytes.length + n ≤ targetSize → relative + n ≤ targetSize →
      copyBytes targetOffset n i relative (padded targetSize bytes) =
        .ok (relative + n, padded targetSize (appendCopies n relative bytes)) := by
  induction n with
  | zero => exact fun _ _ _ => rfl
  | succ n ih =>
    intro i relative bytes hi hfits hrelative
    have hnext : (relative + 1) % 2 ^ 64 = relative + 1 := Nat.mod_eq_of_lt (by omega)
    have hlen : (bytes ++ [bytes.getD relative 0]).length = bytes.length + 1 := by simp
    have hrest := @ih (i + 1) (relative + 1) (bytes ++ [bytes.getD relative 0]) (by omega)
      (by omega) (by omega)
    rw [copyBytes, byteAt_padded (by omega) (by omega)]
    simp only [bind, Except.bind]
    rw [hi, storeByte_padded (by omega), hnext]
    simp only
    rw [hrest, appendCopies, show relative + 1 + n = relative + (n + 1) by omega]

end Copying

/-! ## The state of the applier -/

/-- The applier has written what the commands so far write. -/
structure BpsApplier.Agrees (targetSize : Nat) (s : BpsApplier) (o : BpsOutput) : Prop where
  bytes_le : o.bytes.length ≤ targetSize
  target : s.target = padded targetSize o.bytes
  targetOffset : s.targetOffset = o.bytes.length
  source : s.sourceRelativeOffset = o.source
  relative : s.targetRelativeOffset = o.target

section Commands

variable {source patch other : List Byte} {targetSize otherOffset length : Nat} {s : BpsApplier}
  {o : BpsOutput}

theorem BpsApplier.Agrees.length_target (h : s.Agrees targetSize o) :
    s.target.length = targetSize := by
  rw [h.target, length_padded h.bytes_le]

theorem copyFrom_fits (h : s.Agrees targetSize o) (hfits : o.bytes.length + length ≤ targetSize)
    (hinside : otherOffset + length ≤ other.length) :
    copyFrom s other otherOffset length =
      .ok (some ({ s with
        target := padded targetSize (o.bytes ++ bytesAt other otherOffset length),
        targetOffset := o.bytes.length + length }, otherOffset + length)) := by
  have hlen := length_bytesAt hinside
  have hstore : storeAt s.target o.bytes.length (bytesAt other otherOffset length) =
      .ok (splice s.target o.bytes.length (bytesAt other otherOffset length)) :=
    storeAt_inside (by rw [h.length_target]; omega)
  rw [copyFrom, if_neg (by rw [h.length_target, h.targetOffset]; omega), streamRead,
    if_neg (Nat.not_lt.mpr hinside), readAt_inside hinside]
  simp only [bind, Except.bind]
  rw [h.targetOffset, hstore, h.target, splice_padded (by omega)]

theorem copyFrom_none (h : s.Agrees targetSize o)
    (hout : ¬(o.bytes.length + length ≤ targetSize ∧ otherOffset + length ≤ other.length)) :
    copyFrom s other otherOffset length = .ok none := by
  rw [copyFrom, h.length_target, h.targetOffset]
  by_cases hfits : targetSize < o.bytes.length + length
  · rw [if_pos hfits]
  · rw [if_neg hfits, streamRead, if_pos (by omega)]
    rfl

/-- The applier after bytes of another stream. -/
theorem BpsApplier.Agrees.copied (h : s.Agrees targetSize o)
    (hfits : o.bytes.length + length ≤ targetSize)
    (hinside : otherOffset + length ≤ other.length) :
    BpsApplier.Agrees targetSize { s with
        target := padded targetSize (o.bytes ++ bytesAt other otherOffset length),
        targetOffset := o.bytes.length + length }
      { o with bytes := o.bytes ++ bytesAt other otherOffset length } := by
  have hlen : (o.bytes ++ bytesAt other otherOffset length).length = o.bytes.length + length := by
    rw [List.length_append, length_bytesAt hinside]
  constructor
  · exact hlen.trans_le hfits
  · rfl
  · exact hlen.symm
  · exact h.source
  · exact h.relative

/-- What the applier does with a command: it reads before the target, the command does not fit, or
it writes what the command writes and goes on at an offset of the patch. -/
def Handles (source : List Byte) (targetSize : Nat) (c : BpsCommand) (next : Nat) (o : BpsOutput)
    (r : Except Fault (Bool × BpsApplier)) : Prop :=
  (c.BeginsBefore targetSize o ∧ r = .error .read) ∨
  (¬c.BeginsBefore targetSize o ∧ c.run source targetSize o = none ∧ ∃ s', r = .ok (false, s')) ∨
  (¬c.BeginsBefore targetSize o ∧ ∃ o' s', c.run source targetSize o = some o' ∧
    r = .ok (true, s') ∧ s'.Agrees targetSize o' ∧ s'.patchOffset = next)

theorem sourceRead_handles (h : s.Agrees targetSize o) :
    Handles source targetSize (.sourceRead length) s.patchOffset o
      (sourceRead source s length) := by
  right
  by_cases hfits : o.bytes.length + length ≤ targetSize ∧ o.bytes.length + length ≤ source.length
  · right
    refine ⟨id, _, _, if_pos hfits, ?_, h.copied hfits.1 hfits.2, rfl⟩
    rw [sourceRead, seek, h.targetOffset, if_neg (by omega)]
    simp only
    rw [copyFrom_fits h hfits.1 hfits.2]
    rfl
  · left
    refine ⟨id, if_neg hfits, s, ?_⟩
    rw [sourceRead, seek, h.targetOffset]
    by_cases hseek : source.length < o.bytes.length
    · rw [if_pos hseek]
    · rw [if_neg hseek]
      simp only
      rw [copyFrom_none h hfits]
      rfl

theorem targetRead_handles (h : s.Agrees targetSize o) (hoffset : s.patchOffset ≤ patch.length) :
    Handles source targetSize (.targetRead length (bytesAt patch s.patchOffset length))
      (s.patchOffset + length) o (targetRead patch s length) := by
  right
  have hdata : (bytesAt patch s.patchOffset length).length = length ↔
      s.patchOffset + length ≤ patch.length := by
    rw [bytesAt, List.length_take, List.length_drop]
    omega
  by_cases hfits : o.bytes.length + length ≤ targetSize ∧ s.patchOffset + length ≤ patch.length
  · right
    refine ⟨id, _, { s with
        patchOffset := s.patchOffset + length
        target := padded targetSize (o.bytes ++ bytesAt patch s.patchOffset length)
        targetOffset := o.bytes.length + length },
      if_pos ⟨hfits.1, hdata.mpr hfits.2⟩, ?_, ?_, rfl⟩
    · rw [targetRead, copyFrom_fits h hfits.1 hfits.2]
      rfl
    · obtain ⟨hle, htarget, hlen, hsource, hrelative⟩ := h.copied hfits.1 hfits.2
      exact ⟨hle, htarget, hlen, hsource, hrelative⟩
  · left
    refine ⟨id, if_neg fun hrun => hfits ⟨hrun.1, hdata.mp hrun.2⟩, s, ?_⟩
    rw [targetRead, copyFrom_none h hfits]
    rfl

theorem sourceCopy_handles (h : s.Agrees targetSize o) (hsource : source.length < 2 ^ 64) :
    Handles source targetSize (.sourceCopy length (readNumber patch s.patchOffset).1)
      (readNumber patch s.patchOffset).2 o (sourceCopy source patch s length) := by
  right
  rcases hnumber : readNumber patch s.patchOffset with ⟨move, next⟩
  have hmoved : BpsApplier.Agrees targetSize { s with
      patchOffset := next, sourceRelativeOffset := moveOffset s.sourceRelativeOffset move }
      { o with source := moveOffset o.source move } :=
    ⟨h.bytes_le, h.target, h.targetOffset, congrArg (moveOffset · move) h.source, h.relative⟩
  rw [sourceCopy, hnumber]
  simp only
  rw [h.source] at hmoved ⊢
  by_cases hfits : o.bytes.length + length ≤ targetSize ∧
      moveOffset o.source move + length ≤ source.length
  · right
    have hwrap : (moveOffset o.source move + length) % 2 ^ 64 = moveOffset o.source move + length :=
      Nat.mod_eq_of_lt (by omega)
    refine ⟨id, _, { s with
        patchOffset := next
        sourceRelativeOffset := moveOffset o.source move + length
        target := padded targetSize (o.bytes ++ bytesAt source (moveOffset o.source move) length)
        targetOffset := o.bytes.length + length }, if_pos hfits, ?_, ?_, rfl⟩
    · rw [seek, if_neg (by omega)]
      simp only
      rw [copyFrom_fits hmoved hfits.1 hfits.2]
      simp only [bind, Except.bind, hwrap]
    · obtain ⟨hle, htarget, hlen, -, hrelative⟩ := hmoved.copied hfits.1 hfits.2
      exact ⟨hle, htarget, hlen, rfl, hrelative⟩
  · left
    refine ⟨id, if_neg hfits, { s with
      patchOffset := next, sourceRelativeOffset := moveOffset o.source move }, ?_⟩
    rw [seek]
    by_cases hseek : source.length < moveOffset o.source move
    · rw [if_pos hseek]
    · rw [if_neg hseek]
      simp only
      rw [copyFrom_none hmoved hfits]
      rfl

theorem targetCopy_handles (h : s.Agrees targetSize o) (hsize : targetSize < 2 ^ 63)
    (hlength : 0 < length) :
    Handles source targetSize (.targetCopy length (readNumber patch s.patchOffset).1)
      (readNumber patch s.patchOffset).2 o (targetCopy patch s length) := by
  rcases hnumber : readNumber patch s.patchOffset with ⟨move, next⟩
  have hmove := moveOffset_lt o.target move
  rw [targetCopy, hnumber]
  simp only
  rw [h.length_target, h.targetOffset, h.relative, h.target]
  by_cases hfits : o.bytes.length + length ≤ targetSize
  · rw [if_neg (Nat.not_lt.mpr hfits)]
    by_cases hbefore : 2 ^ 64 ≤ moveOffset o.target move + length
    · left
      -- the sum wraps, the check passes, and the first byte is read before the target
      refine ⟨⟨hfits, hbefore⟩, ?_⟩
      have hwrap : (moveOffset o.target move + length) % 2 ^ 64 =
          moveOffset o.target move + length - 2 ^ 64 := by
        rw [Nat.mod_eq_sub_mod hbefore, Nat.mod_eq_of_lt (by omega)]
      obtain ⟨n, rfl⟩ := Nat.exists_eq_succ_of_ne_zero (Nat.ne_of_gt hlength)
      have hlen := length_padded h.bytes_le
      rw [hwrap, if_neg (by omega), copyBytes, byteAt_outside (by omega)]
      rfl
    · right
      have hnot : ¬BpsCommand.BeginsBefore targetSize o (.targetCopy length move) :=
        fun hb => hbefore hb.2
      have hwrap : (moveOffset o.target move + length) % 2 ^ 64 =
          moveOffset o.target move + length := Nat.mod_eq_of_lt (by omega)
      rw [hwrap]
      by_cases hinside : moveOffset o.target move + length ≤ targetSize
      · right
        rw [if_neg (Nat.not_lt.mpr hinside)]
        refine ⟨hnot, _, {
            patchOffset := next
            targetOffset := o.bytes.length + length
            sourceRelativeOffset := s.sourceRelativeOffset
            targetRelativeOffset := moveOffset o.target move + length
            target := padded targetSize
              (appendCopies length (moveOffset o.target move) o.bytes) },
          if_pos ⟨hfits, hinside⟩, ?_, ?_, rfl⟩
        · rw [copyBytes_padded (by omega) length rfl hfits hinside]
          rfl
        · constructor
          · exact (length_appendCopies length).trans_le hfits
          · rfl
          · exact (length_appendCopies length).symm
          · exact h.source
          · rfl
      · left
        rw [if_pos (Nat.not_le.mp hinside)]
        exact ⟨hnot, if_neg fun hrun => hinside hrun.2, _, rfl⟩
  · right; left
    rw [if_pos (Nat.not_le.mp hfits)]
    exact ⟨fun hb => hfits hb.1, if_neg fun hrun => hfits hrun.1, _, rfl⟩

theorem handleCommand_handles (h : s.Agrees targetSize o) (hsource : source.length < 2 ^ 64)
    (hsize : targetSize < 2 ^ 63) (hoffset : s.patchOffset ≤ patch.length) :
    Handles source targetSize (decodeCommand patch s.patchOffset).1
      (decodeCommand patch s.patchOffset).2 o (handleCommand source patch s) := by
  have hle := readNumber_le hoffset
  rcases hnumber : readNumber patch s.patchOffset with ⟨data, next⟩
  rw [hnumber] at hle
  have hmoved : BpsApplier.Agrees targetSize { s with patchOffset := next } o :=
    ⟨h.bytes_le, h.target, h.targetOffset, h.source, h.relative⟩
  have hlength : 0 < data / 4 + 1 := Nat.succ_pos _
  rw [decodeCommand, handleCommand, hnumber]
  simp only
  split
  · exact sourceRead_handles hmoved
  · exact targetRead_handles hmoved hle
  · exact sourceCopy_handles hmoved hsource
  · exact targetCopy_handles hmoved hsize hlength

theorem lt_decodeCommand {offset : Nat} (h : offset < patch.length) :
    offset < (decodeCommand patch offset).2 := by
  have hlt := lt_readNumber h
  rcases hnumber : readNumber patch offset with ⟨data, next⟩
  rw [hnumber] at hlt
  rw [decodeCommand, hnumber]
  simp only
  split
  · exact hlt
  · exact Nat.lt_add_right _ hlt
  · exact hlt.trans_le le_readNumber
  · exact hlt.trans_le le_readNumber

/-- The loop over the commands: it ends, and has read before the target, met a command that does
not fit, or written what the commands write. -/
theorem handleCommands_cases {commandEnd : Nat} (hsource : source.length < 2 ^ 64)
    (hsize : targetSize < 2 ^ 63) (hend : commandEnd ≤ patch.length) (fuel : Nat) :
    ∀ {s : BpsApplier} {o : BpsOutput}, s.Agrees targetSize o →
      patch.length ≤ s.patchOffset + fuel →
      (¬CopiesInside source targetSize (decodeCommands patch commandEnd fuel s.patchOffset) o ∧
        handleCommands source patch commandEnd (fuel + 1) s = .error .read) ∨
      (CopiesInside source targetSize (decodeCommands patch commandEnd fuel s.patchOffset) o ∧
        runCommands source targetSize (decodeCommands patch commandEnd fuel s.patchOffset) o =
          none ∧
        ∃ s', handleCommands source patch commandEnd (fuel + 1) s = .ok (false, s')) ∨
      (CopiesInside source targetSize (decodeCommands patch commandEnd fuel s.patchOffset) o ∧
        ∃ o' s', runCommands source targetSize
            (decodeCommands patch commandEnd fuel s.patchOffset) o = some o' ∧
          handleCommands source patch commandEnd (fuel + 1) s = .ok (true, s') ∧
          s'.Agrees targetSize o') := by
  induction fuel with
  | zero =>
    intro s o h hfuel
    right; right
    rw [handleCommands, if_pos (by omega)]
    exact ⟨trivial, o, s, rfl, rfl, h⟩
  | succ fuel ih =>
    intro s o h hfuel
    rw [handleCommands, decodeCommands]
    by_cases hdone : commandEnd ≤ s.patchOffset
    · right; right
      rw [if_pos hdone, if_pos hdone]
      exact ⟨trivial, o, s, rfl, rfl, h⟩
    rw [if_neg hdone, if_neg hdone]
    have hlt := lt_decodeCommand (show s.patchOffset < patch.length by omega)
    have hoffset : s.patchOffset ≤ patch.length := by omega
    have hcommand := handleCommand_handles h hsource hsize hoffset
    rcases hdecode : decodeCommand patch s.patchOffset with ⟨c, next⟩
    rw [hdecode] at hcommand hlt
    rcases hcommand with ⟨hbefore, hturn⟩ | ⟨hbefore, hrun, s', hturn⟩ |
        ⟨hbefore, o', s', hrun, hturn, hagrees, hnext⟩
    · left
      rw [hturn]
      exact ⟨fun hinside => hinside.1 hbefore, rfl⟩
    · right; left
      rw [hturn]
      refine ⟨⟨hbefore, fun o' ho' => ?_⟩, ?_, s', rfl⟩
      · rw [hrun] at ho'
        cases ho'
      · rw [runCommands, List.foldlM_cons, hrun]
        rfl
    · -- the command is done: the rest is the induction hypothesis
      have hrest := ih hagrees (by rw [hnext]; simp only at hlt; omega)
      rw [hnext] at hrest
      have hinside : CopiesInside source targetSize
          (c :: decodeCommands patch commandEnd fuel next) o ↔
            CopiesInside source targetSize (decodeCommands patch commandEnd fuel next) o' := by
        refine ⟨fun hc => hc.2 o' hrun, fun hc => ⟨hbefore, fun o'' ho'' => ?_⟩⟩
        rw [hrun] at ho''
        cases ho''
        exact hc
      have hcommands : runCommands source targetSize
          (c :: decodeCommands patch commandEnd fuel next) o =
            runCommands source targetSize (decodeCommands patch commandEnd fuel next) o' := by
        rw [runCommands, List.foldlM_cons, hrun]
        rfl
      rw [hinside, hcommands, hturn]
      exact hrest

end Commands

/-! ## The whole patch -/

def bpsSourceSize (patch : List Byte) : Nat := (readNumber patch 4).1

def bpsTargetSize (patch : List Byte) : Nat := (readNumber patch (readNumber patch 4).2).1

/-- The size of the metadata and the offset of the first command. -/
def bpsMetadata (patch : List Byte) : Nat × Nat :=
  readNumber patch (readNumber patch (readNumber patch 4).2).2

def bpsCommands (patch : List Byte) : List BpsCommand :=
  decodeCommands patch (patch.length - footerSize) patch.length (bpsMetadata patch).2

/-- The checksums in the footer. -/
def bpsSourceChecksum (patch : List Byte) : Nat :=
  littleEndian (bytesAt patch (patch.length - 12) 4)

def bpsTargetChecksum (patch : List Byte) : Nat :=
  littleEndian (bytesAt patch (patch.length - 8) 4)

/-- The buffer that is the source, and has the size of the target. -/
def bpsSource (patch buffer : List Byte) : List Byte :=
  if bpsSourceSize patch < bpsTargetSize patch then resize buffer (bpsTargetSize patch) else buffer

/-- The header is that of a patch, and its sizes fit the buffer. -/
def HeaderFits (patch source : List Byte) : Prop :=
  bytesAt patch 0 4 = bpsMagic ∧ bpsSourceSize patch ≤ source.length ∧
    bpsTargetSize patch ≤ source.length ∧ (bpsMetadata patch).1 = 0

/-- The patch is for this source. -/
def SourceMatches (patch source : List Byte) : Prop :=
  crc32 (bytesAt source 0 (bpsSourceSize patch)) = bpsSourceChecksum patch

/-- The commands fit, and write bytes with the checksum of the target. -/
def TargetMatches (patch source : List Byte) : Prop :=
  ∃ target, bpsTarget source source.length (bpsCommands patch) = some target ∧
    crc32 (bytesAt target 0 (bpsTargetSize patch)) = bpsTargetChecksum patch

/-- No access of a patch is outside: it has its magic; when its header fits, it has its footer, and
when it is for this source, no copy begins before the target. -/
def BpsInside (patch source : List Byte) : Prop :=
  4 ≤ patch.length ∧ (HeaderFits patch source → footerSize ≤ patch.length ∧
    (SourceMatches crc32 patch source →
      CopiesInside source source.length (bpsCommands patch) ⟨[], 0, 0⟩))

/-- The buffer is the target of the patch. -/
structure IsBpsTarget (patch source buffer : List Byte) : Prop where
  size : buffer.length = bpsTargetSize patch
  commands : bpsTarget source (bpsTargetSize patch) (bpsCommands patch) = some buffer
  checksum : crc32 buffer = bpsTargetChecksum patch

section Whole

variable {patch source buffer : List Byte}

theorem readFour_inside {offset : Nat} (h : offset + 4 ≤ patch.length) :
    readFour patch offset = .ok (bytesAt patch offset 4, offset + 4) := by
  rw [readFour, streamRead, if_neg (Nat.not_lt.mpr h), readAt_inside h]
  rfl

theorem readFour_short {offset : Nat} (h : patch.length < offset + 4) :
    readFour patch offset = .error .assertion := by
  rw [readFour, streamRead, if_pos h]
  rfl

/-- The three numbers of the header take a byte each, or the patch ends before. -/
theorem bpsMetadata_end (h : 4 ≤ patch.length) :
    7 ≤ (bpsMetadata patch).2 ∨ patch.length ≤ (bpsMetadata patch).2 := by
  rw [bpsMetadata]
  rcases hsource : readNumber patch 4 with ⟨sourceSize, first⟩
  rcases htarget : readNumber patch first with ⟨targetSize, second⟩
  rcases hmetadata : readNumber patch second with ⟨metadataSize, third⟩
  have hlt (a b : Nat) (r : Nat × Nat) (hr : readNumber patch a = r) (hb : r.2 = b) :
      a ≤ b ∧ (a < patch.length → a < b) := by
    subst hr hb
    exact ⟨le_readNumber, lt_readNumber⟩
  have h₁ := hlt 4 first _ hsource rfl
  have h₂ := hlt first second _ htarget rfl
  have h₃ := hlt second third _ hmetadata rfl
  omega

theorem applyBps_header (h : 4 ≤ patch.length) (hheader : ¬HeaderFits patch source) :
    applyBps crc32 source source patch = .ok (.errorPatches, source) := by
  rw [applyBps, readFour_inside (by omega)]
  simp only [bind, Except.bind]
  by_cases hmagic : bytesAt patch 0 4 = bpsMagic
  · rw [if_neg (not_not.mpr hmagic), if_pos]
    by_contra hsizes
    push Not at hsizes
    exact hheader ⟨hmagic, hsizes⟩
  · rw [if_pos hmagic]

/-- A patch whose footer is cut off: the numbers in it are taken from an empty optional. -/
theorem applyBps_short (h : 4 ≤ patch.length) (hheader : HeaderFits patch source)
    (hshort : patch.length < footerSize) :
    applyBps crc32 source source patch = .error .assertion := by
  obtain ⟨hmagic, hsource, htarget, hmetadata⟩ := hheader
  have hend := bpsMetadata_end h
  rw [footerSize] at hshort
  have hseek : seek patch (sizeSub patch.length footerSize) = none := by
    rw [sizeSub, footerSize, if_neg (by omega), seek, if_pos (by omega)]
  rw [applyBps, readFour_inside (by omega)]
  simp only [bind, Except.bind]
  rw [if_neg (not_not.mpr hmagic), if_neg]
  · rw [hseek, Option.getD_none, show (readNumber patch (readNumber patch (readNumber patch
      (0 + 4)).2).2).2 = (bpsMetadata patch).2 from rfl]
    by_cases hfirst : (bpsMetadata patch).2 + 4 ≤ patch.length
    · have hsecond : patch.length < (bpsMetadata patch).2 + 4 + 4 := by omega
      rw [readFour_inside hfirst]
      simp only
      rw [readFour_short hsecond]
    · rw [readFour_short (Nat.not_le.mp hfirst)]
  · rintro (hlt | hlt | hne)
    exacts [Nat.not_lt.mpr hsource hlt, Nat.not_lt.mpr htarget hlt, hne hmetadata]

/-- The applier before the first command. -/
def BpsApplier.init (patch : List Byte) (targetSize : Nat) : BpsApplier :=
  ⟨(bpsMetadata patch).2, 0, 0, 0, List.replicate targetSize 0⟩

theorem BpsApplier.init_agrees (targetSize : Nat) :
    (BpsApplier.init patch targetSize).Agrees targetSize ⟨[], 0, 0⟩ :=
  ⟨Nat.zero_le _, padded_nil.symm, rfl, rfl, rfl⟩

section Footer

variable (hheader : HeaderFits patch source) (hlen : footerSize ≤ patch.length)
include hheader hlen

/-- A whole patch: what is done about the result of the loop. -/
theorem applyBps_footer {r : Except Fault (Bool × BpsApplier)}
    (hloop : handleCommands source patch (patch.length - footerSize) (patch.length + 1)
      (BpsApplier.init patch source.length) = r) :
    (¬SourceMatches crc32 patch source →
      applyBps crc32 source source patch = .ok (.errorPatchesInvalidTitle, source)) ∧
    (SourceMatches crc32 patch source →
      (∀ f, r = .error f → applyBps crc32 source source patch = .error f) ∧
      (∀ s, r = .ok (false, s) →
        applyBps crc32 source source patch = .ok (.errorPatches, s.target)) ∧
      ∀ s, r = .ok (true, s) → s.target.length = source.length →
        applyBps crc32 source source patch =
          .ok (if crc32 (bytesAt s.target 0 (bpsTargetSize patch)) = bpsTargetChecksum patch then
            .success else .errorPatches, s.target)) := by
  obtain ⟨hmagic, hsource, htarget, hmetadata⟩ := hheader
  rw [footerSize] at hlen
  have hend : sizeSub patch.length footerSize = patch.length - footerSize := if_pos hlen
  have hseek : seek patch (patch.length - footerSize) = some (patch.length - footerSize) :=
    if_neg (by omega)
  have hsourceChecksum : readFour patch (patch.length - 12) =
      .ok (bytesAt patch (patch.length - 12) 4, patch.length - 8) := by
    rw [readFour_inside (by omega), show patch.length - 12 + 4 = patch.length - 8 by omega]
  have htargetChecksum : readFour patch (patch.length - 8) =
      .ok (bytesAt patch (patch.length - 8) 4, patch.length - 8 + 4) :=
    readFour_inside (by omega)
  have hread : readAt source 0 (bpsSourceSize patch) =
      .ok (bytesAt source 0 (bpsSourceSize patch)) := readAt_inside (by omega)
  have hsizes : ¬(source.length < (readNumber patch (0 + 4)).1 ∨
      source.length < (readNumber patch (readNumber patch (0 + 4)).2).1 ∨
        (readNumber patch (readNumber patch (readNumber patch (0 + 4)).2).2).1 ≠ 0) := by
    rintro (hlt | hlt | hne)
    exacts [Nat.not_lt.mpr hsource hlt, Nat.not_lt.mpr htarget hlt, hne hmetadata]
  rw [applyBps, readFour_inside (by omega)]
  simp only [bind, Except.bind]
  rw [if_neg (not_not.mpr hmagic), if_neg hsizes, hend, hseek, Option.getD_some, footerSize,
    hsourceChecksum]
  simp only
  rw [htargetChecksum]
  rw [show (readNumber patch (0 + 4)).1 = bpsSourceSize patch from rfl, hread]
  simp only
  rw [BpsApplier.init, footerSize] at hloop
  constructor
  · exact fun hmatch => if_pos hmatch
  · intro hmatch
    have hchecksum : ¬crc32 (bytesAt source 0 (bpsSourceSize patch)) ≠
        littleEndian (bytesAt patch (patch.length - 12) 4) := not_not.mpr hmatch
    rw [if_neg hchecksum, show (readNumber patch (readNumber patch (readNumber patch
      (0 + 4)).2).2).2 = (bpsMetadata patch).2 from rfl, hloop]
    refine ⟨?_, ?_, ?_⟩
    · rintro f rfl
      rfl
    · rintro s rfl
      rfl
    · rintro s rfl hs
      have hreadTarget : readAt s.target 0 (readNumber patch (readNumber patch (0 + 4)).2).1 =
          .ok (bytesAt s.target 0 (bpsTargetSize patch)) :=
        readAt_inside (by rw [hs, Nat.zero_add]; exact htarget)
      simp only
      rw [hreadTarget]
      simp only
      by_cases hchecksum : crc32 (bytesAt s.target 0 (bpsTargetSize patch)) =
          bpsTargetChecksum patch
      · have hequal : ¬crc32 (bytesAt s.target 0 (bpsTargetSize patch)) ≠
            littleEndian (bytesAt patch (patch.length - 8) 4) := not_not.mpr hchecksum
        rw [if_neg hequal, if_pos hchecksum]
      · rw [if_neg hchecksum]
        exact if_pos hchecksum

end Footer

theorem bytesAt_length (bytes : List Byte) : bytesAt bytes 0 bytes.length = bytes := by
  rw [bytesAt, List.drop_zero, List.take_length]

/-- What `Apply` does: nothing of it is outside and no target is accepted, it stops, or it leaves
the target. -/
theorem applyBps_cases (hsource : source.length < 2 ^ 63) :
    (¬BpsInside crc32 patch source ∧ ∃ f, f ≠ .unreachable ∧
      applyBps crc32 source source patch = .error f) ∨
    (BpsInside crc32 patch source ∧
      ¬(HeaderFits patch source ∧ SourceMatches crc32 patch source ∧
        TargetMatches crc32 patch source) ∧
      ∃ status target, status ≠ .success ∧
        applyBps crc32 source source patch = .ok (status, target)) ∨
    (BpsInside crc32 patch source ∧
      (HeaderFits patch source ∧ SourceMatches crc32 patch source ∧
        TargetMatches crc32 patch source) ∧
      ∃ target, applyBps crc32 source source patch = .ok (.success, target) ∧
        bpsTarget source source.length (bpsCommands patch) = some target ∧
        crc32 (bytesAt target 0 (bpsTargetSize patch)) = bpsTargetChecksum patch ∧
        target.length = source.length) := by
  by_cases hmagic : 4 ≤ patch.length
  swap
  · left
    refine ⟨fun h => hmagic h.1, .assertion, by decide, ?_⟩
    rw [applyBps, readFour_short (by omega)]
    rfl
  by_cases hheader : HeaderFits patch source
  swap
  · right; left
    refine ⟨⟨hmagic, fun h => absurd h hheader⟩, fun h => hheader h.1, .errorPatches, source,
      by decide, applyBps_header crc32 hmagic hheader⟩
  by_cases hlen : footerSize ≤ patch.length
  swap
  · left
    exact ⟨fun h => hlen (h.2 hheader).1, .assertion, by decide,
      applyBps_short crc32 hmagic hheader (Nat.not_le.mp hlen)⟩
  obtain ⟨hother, hmatches⟩ := applyBps_footer crc32 hheader hlen rfl
  by_cases hmatch : SourceMatches crc32 patch source
  swap
  · right; left
    refine ⟨⟨hmagic, fun _ => ⟨hlen, fun h => absurd h hmatch⟩⟩, fun h => hmatch h.2.1,
      .errorPatchesInvalidTitle, source, by decide, hother hmatch⟩
  obtain ⟨herror, hfailed, hdone⟩ := hmatches hmatch
  have hinside : BpsInside crc32 patch source ↔
      CopiesInside source source.length (bpsCommands patch) ⟨[], 0, 0⟩ :=
    ⟨fun h => (h.2 hheader).2 hmatch, fun h => ⟨hmagic, fun _ => ⟨hlen, fun _ => h⟩⟩⟩
  rw [hinside]
  have hwide : source.length < 2 ^ 64 := by omega
  have hinit : (BpsApplier.init patch source.length).Agrees source.length ⟨[], 0, 0⟩ :=
    BpsApplier.init_agrees _
  rcases handleCommands_cases hwide hsource (Nat.sub_le patch.length footerSize) patch.length
      hinit (Nat.le_add_left _ _) with
    ⟨hbefore, hloop⟩ | ⟨hcopies, hrun, s, hloop⟩ | ⟨hcopies, o, s, hrun, hloop, hagrees⟩
  · left
    exact ⟨hbefore, .read, by decide, herror _ hloop⟩
  · right; left
    refine ⟨hcopies, ?_, .errorPatches, s.target, by decide, hfailed s hloop⟩
    rintro ⟨-, -, target, htarget, -⟩
    have hnone : runCommands source source.length (bpsCommands patch) ⟨[], 0, 0⟩ = none := hrun
    rw [bpsTarget, hnone] at htarget
    cases htarget
  · have hsome : runCommands source source.length (bpsCommands patch) ⟨[], 0, 0⟩ = some o := hrun
    have htarget : bpsTarget source source.length (bpsCommands patch) = some s.target := by
      rw [hagrees.target, bpsTarget, hsome]
      rfl
    have happly := hdone s hloop hagrees.length_target
    by_cases hchecksum : crc32 (bytesAt s.target 0 (bpsTargetSize patch)) =
        bpsTargetChecksum patch
    · right; right
      rw [if_pos hchecksum] at happly
      exact ⟨hcopies, ⟨hheader, hmatch, s.target, htarget, hchecksum⟩, s.target, happly, htarget,
        hchecksum, hagrees.length_target⟩
    · right; left
      rw [if_neg hchecksum] at happly
      refine ⟨hcopies, ?_, .errorPatches, s.target, by decide, happly⟩
      rintro ⟨-, -, target, hsome, htargetChecksum⟩
      rw [htarget] at hsome
      cases hsome
      exact hchecksum htargetChecksum

theorem length_resize (size : Nat) : (resize buffer size).length = size := by
  rw [resize, List.length_append, List.length_take, List.length_replicate]
  omega

theorem applyBpsPatch_eq (h : 4 ≤ patch.length) :
    applyBpsPatch crc32 patch buffer =
      applyBps crc32 (bpsSource patch buffer) (bpsSource patch buffer) patch := by
  rw [applyBpsPatch, seek, if_neg (Nat.not_lt.mpr h), Option.getD_some]
  rfl

theorem applyBpsPatch_short (h : patch.length < 4) :
    applyBpsPatch crc32 patch buffer = .error .assertion := by
  simp only [applyBpsPatch, applyBps, readFour_short (show patch.length < 0 + 4 from h), bind,
    Except.bind]

theorem length_bpsSource_lt (hbuffer : buffer.length < 2 ^ 63) :
    (bpsSource patch buffer).length < 2 ^ 63 := by
  have hsize : bpsTargetSize patch < 2 ^ 32 := readNumber_lt
  rw [bpsSource]
  split_ifs with h
  · rw [length_resize]
    omega
  · exact hbuffer

/-- The buffer has the size of the target from the start, or is given it. -/
theorem length_bpsSource_iff :
    (bpsSource patch buffer).length = bpsTargetSize patch ↔
      bpsSourceSize patch < bpsTargetSize patch ∨ buffer.length = bpsTargetSize patch := by
  rw [bpsSource]
  split_ifs with h
  · exact iff_of_true (length_resize _) (.inl h)
  · exact ⟨.inr, fun hor => hor.resolve_left h⟩

end Whole

/-- For every patch and every buffer that a vector can hold, the loop ends, all accesses are inside,
and a buffer that is left with success is the target of the patch, exactly when the patch stays
inside and, if it is accepted, the buffer has or is given the size of its target. -/
theorem applyBpsPatch_iff (patch buffer : List Byte) (hbuffer : buffer.length < 2 ^ 63) :
    (applyBpsPatch crc32 patch buffer ≠ .error .unreachable ∧
      Safe (applyBpsPatch crc32 patch buffer) ∧
      ∀ target, applyBpsPatch crc32 patch buffer = .ok (.success, target) →
        IsBpsTarget crc32 patch (bpsSource patch buffer) target) ↔
    BpsInside crc32 patch (bpsSource patch buffer) ∧
      (HeaderFits patch (bpsSource patch buffer) →
        SourceMatches crc32 patch (bpsSource patch buffer) →
        TargetMatches crc32 patch (bpsSource patch buffer) →
          bpsSourceSize patch < bpsTargetSize patch ∨ buffer.length = bpsTargetSize patch) := by
  by_cases hmagic : 4 ≤ patch.length
  swap
  · refine iff_of_false (fun h => ?_) fun h => hmagic h.1.1
    rw [applyBpsPatch_short crc32 (Nat.not_le.mp hmagic)] at h
    exact (safe_error _).mp h.2.1
  rw [applyBpsPatch_eq crc32 hmagic, ← length_bpsSource_iff]
  rcases @applyBps_cases crc32 patch _ (length_bpsSource_lt hbuffer) with
    ⟨houtside, f, -, hf⟩ | ⟨hinside, hrefused, status, target, hstatus, happly⟩ |
    ⟨hinside, ⟨hheader, hsource, htarget⟩, target, happly, hcommands, hchecksum, hlen⟩
  · rw [hf]
    exact iff_of_false (fun h => (safe_error f).mp h.2.1) fun h => houtside h.1
  · rw [happly]
    refine iff_of_true ⟨by simp, ⟨_, rfl⟩, fun target' h => ?_⟩
      ⟨hinside, fun h₁ h₂ h₃ => absurd ⟨h₁, h₂, h₃⟩ hrefused⟩
    cases h
    exact absurd rfl hstatus
  · rw [happly]
    constructor
    · rintro ⟨-, -, h⟩
      refine ⟨hinside, fun _ _ _ => ?_⟩
      rw [← hlen]
      exact (h target rfl).size
    · rintro ⟨-, h⟩
      have hsize := h hheader hsource htarget
      refine ⟨by simp, ⟨_, rfl⟩, fun target' ht => ?_⟩
      cases ht
      have hchecksum' : crc32 target = bpsTargetChecksum patch := by
        rwa [← hsize, ← hlen, bytesAt_length] at hchecksum
      exact ⟨hlen.trans hsize, hsize ▸ hcommands, hchecksum'⟩

/-- The checksum of a letter, for the patches below. -/
def letterCrc32 (bytes : List Byte) : Nat := if bytes = [0x61] then 0xE8B7BE43 else 0

def letterFooter : List Byte :=
  [0x43, 0xBE, 0xB7, 0xE8, 0x43, 0xBE, 0xB7, 0xE8, 0, 0, 0, 0]

/-- A patch that keeps its source of one letter. -/
def letterPatch : List Byte := bpsMagic ++ [0x81, 0x81, 0x80, 0x80] ++ letterFooter

theorem letterPatch_applied : IsBpsTarget letterCrc32 letterPatch [0x61] [0x61] := by
  have hcopies : CopiesInside [0x61] 1 [.sourceRead 1] ⟨[], 0, 0⟩ := ⟨id, fun _ _ => trivial⟩
  exact ((applyBpsPatch_iff letterCrc32 letterPatch [0x61] (by decide)).mpr
    ⟨⟨by decide, fun _ => ⟨by decide, fun _ => hcopies⟩⟩, fun _ _ _ => .inr rfl⟩).2.2 _ rfl

/-- A patch without a footer, one that copies from before the target, and one whose target is
shorter than the buffer. -/
theorem applyBpsPatch_fails :
    applyBpsPatch letterCrc32 (bpsMagic ++ [0x80, 0x80, 0x80]) [] = .error .assertion ∧
      applyBpsPatch letterCrc32 (bpsMagic ++ [0x81, 0x81, 0x80, 0x83, 0x83] ++ letterFooter)
        [0x61] = .error .read ∧
      applyBpsPatch letterCrc32 letterPatch [0x61, 0x62] = .ok (.success, [0x61, 0]) ∧
      bpsTargetSize letterPatch = 1 :=
  ⟨rfl, rfl, rfl, rfl⟩

end GbaStation.FileSys
