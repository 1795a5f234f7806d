import Mathlib.Algebra.Order.Ring.Int
import Mathlib.Data.List.OfFn
import Mathlib.Logic.Function.Basic

/-!
# The program and swizzle data of a shader unit (`video_core/pica/shader_setup.cpp`)

A `ShaderSetup` keeps the program that was written, a second copy with a fixup applied, and hashes
of the program and of the swizzle data that are computed on demand.

- The hash function (`ComputeHash64`) and the table of the programs that need a fixup are
  parameters; `fixupOf` is the table of the source.
- Not modelled: uniforms, the entry point and the pointer to the compiled shader.
-/

namespace GbaStation.Pica

/-! ## The setup -/

/-- `MAX_PROGRAM_CODE_LENGTH` and `MAX_SWIZZLE_DATA_LENGTH`. -/
def maxProgramCodeLength : Nat := 4096

instance : NeZero maxProgramCodeLength := ⟨by decide⟩

/-- `ProgramCode` and `SwizzleData`. -/
abbrev ProgramCode := Fin maxProgramCodeLength → BitVec 32

abbrev Hash := BitVec 64

structure ShaderSetup where
  requiresFixup : Bool := false
  hasFixup : Bool := false
  programCode : ProgramCode := fun _ => 0
  programCodeFixup : ProgramCode := fun _ => 0
  swizzleData : ProgramCode := fun _ => 0
  programCodeHashDirty : Bool := true
  swizzleDataHashDirty : Bool := true
  programCodePendingFixup : Bool := true
  biggestProgramSize : Nat := 0
  biggestSwizzleSize : Nat := 0
  programCodeHash : Hash := 0
  swizzleDataHash : Hash := 0

/-- The arguments of `fix_3d_classics_common`. What it writes lies in the first 4096 bytes. -/
structure Fixup where
  offsetBase : Nat
  movSwizzle : BitVec 32
  inCopy : offsetBase / 4 + 0x20 < 1024

namespace Fixup

/-- The word behind the last one that is written. -/
def size (f : Fixup) : Nat := f.offsetBase / 4 + 0x20 + 1

/-- The `memmove` of seven words that makes room for an instruction. -/
def makeRoom (f : Fixup) (code : ProgramCode) : ProgramCode := fun i =>
  if h : f.offsetBase / 4 < i.val ∧ i.val ≤ f.offsetBase / 4 + 7 then
    code ⟨i.val - 1, by omega⟩
  else code i

/-- The writes of `fix_3d_classics_common`. -/
def patch (f : Fixup) (code : ProgramCode) : ProgramCode :=
  have := f.inCopy
  Function.update
    (Function.update (f.makeRoom code)
      ⟨f.offsetBase / 4, by unfold maxProgramCodeLength; omega⟩ (0x4c000000 ||| f.movSwizzle))
    ⟨f.offsetBase / 4 + 0x20, by unfold maxProgramCodeLength; omega⟩ 0x88000000

end Fixup

/-- The programs that need a fixup, by their hash. -/
def fixupOf (hash : Hash) : Option Fixup :=
  if hash = 0x0797513756f2c8c9 then some ⟨0x510, 0xA, by decide⟩
  else if hash = 0x188e959fbe31324d then some ⟨0x50C, 0xA, by decide⟩
  else if hash = 0x5954c8e4d13cdd86 then some ⟨0xAE0, 0xC, by decide⟩
  else if hash = 0x27496993b307355b then some ⟨0xAF0, 0xC, by decide⟩
  else none

/-- The first words of an array, as `ComputeHash64` reads them. -/
def firstWords (code : ProgramCode) (size : Nat) : List (BitVec 32) :=
  List.ofFn fun i : Fin (min size maxProgramCodeLength) => code (i.castLE (Nat.min_le_right _ _))

namespace ShaderSetup

section
variable (computeHash64 : List (BitVec 32) → Hash) (select : Hash → Option Fixup)

def makeProgramCodeDirty (s : ShaderSetup) : ShaderSetup :=
  { s with programCodeHashDirty := true, programCodePendingFixup := true, hasFixup := false }

def makeSwizzleDataDirty (s : ShaderSetup) : ShaderSetup := { s with swizzleDataHashDirty := true }

/-- `GetProgramCode`. -/
def getProgramCode (s : ShaderSetup) : ProgramCode :=
  if s.hasFixup then s.programCodeFixup else s.programCode

/-- `GetSwizzleData`. -/
def getSwizzleData (s : ShaderSetup) : ProgramCode := s.swizzleData

/-- `UpdateProgramCode` of one word. -/
def updateProgramWord (s : ShaderSetup) (offset : Fin maxProgramCodeLength) (value : BitVec 32) :
    ShaderSetup :=
  if s.programCode offset = value then s
  else
    let s := { s with programCode := Function.update s.programCode offset value }
    let s := if s.programCodeHashDirty then s else s.makeProgramCodeDirty
    if offset.val + 1 > s.biggestProgramSize then { s with biggestProgramSize := offset.val + 1 }
    else s

/-- `UpdateProgramCode` of a whole program. -/
def updateProgramCode (s : ShaderSetup) (other : ProgramCode) (otherSize : Nat) : ShaderSetup :=
  makeProgramCodeDirty
    { s with
      programCode := other
      biggestProgramSize := max s.biggestProgramSize otherSize }

/-- `UpdateSwizzleData` of one word. -/
def updateSwizzleWord (s : ShaderSetup) (offset : Fin maxProgramCodeLength) (value : BitVec 32) :
    ShaderSetup :=
  if s.swizzleData offset = value then s
  else
    let s := { s with swizzleData := Function.update s.swizzleData offset value }
    let s := if s.swizzleDataHashDirty then s else s.makeSwizzleDataDirty
    if offset.val + 1 > s.biggestSwizzleSize then { s with biggestSwizzleSize := offset.val + 1 }
    else s

/-- `UpdateSwizzleData` of all the data. -/
def updateSwizzleData (s : ShaderSetup) (other : ProgramCode) (otherSize : Nat) : ShaderSetup :=
  makeSwizzleDataDirty
    { s with
      swizzleData := other
      biggestSwizzleSize := max s.biggestSwizzleSize otherSize }

/-- `GetProgramCodeHash`. -/
def getProgramCodeHash (s : ShaderSetup) : Hash × ShaderSetup :=
  if s.programCodeHashDirty then
    let hash := computeHash64 (firstWords s.getProgramCode s.biggestProgramSize)
    (hash, { s with programCodeHash := hash, programCodeHashDirty := false })
  else (s.programCodeHash, s)

/-- `GetSwizzleDataHash`. -/
def getSwizzleDataHash (s : ShaderSetup) : Hash × ShaderSetup :=
  if s.swizzleDataHashDirty then
    let hash := computeHash64 (firstWords s.swizzleData s.biggestSwizzleSize)
    (hash, { s with swizzleDataHash := hash, swizzleDataHashDirty := false })
  else (s.swizzleDataHash, s)

/-- `prepare_for_fixup`. The length of the `memcpy` is the number of words, taken as bytes. -/
def prepareForFixup (s : ShaderSetup) : ShaderSetup :=
  { s with
    programCodeFixup := fun i =>
      if 4 * i.val < maxProgramCodeLength then s.programCode i else s.programCodeFixup i
    hasFixup := true
    programCodeHashDirty := true }

/-- `fix_3d_classics_common`. -/
def fix3dClassicsCommon (s : ShaderSetup) (f : Fixup) : ShaderSetup :=
  { s with
    programCodeFixup := f.patch s.programCodeFixup
    biggestProgramSize :=
      if s.biggestProgramSize ≤ f.offsetBase / 4 + 0x20 then f.offsetBase / 4 + 0x20 + 1
      else s.biggestProgramSize }

/-- `DoProgramCodeFixup`. -/
def doProgramCodeFixup (s : ShaderSetup) : ShaderSetup :=
  if !s.requiresFixup || !s.programCodePendingFixup then s
  else
    let (hash, s) := getProgramCodeHash computeHash64 { s with programCodePendingFixup := false }
    match select hash with
    | some f => s.prepareForFixup.fix3dClassicsCommon f
    | none => s

/-! ## Runs -/

/-- The operations on a setup. A size is at most the length of the array. -/
inductive Op
  | updateProgramWord (offset : Fin maxProgramCodeLength) (value : BitVec 32)
  | updateProgramCode (other : ProgramCode) (otherSize : Fin (maxProgramCodeLength + 1))
  | updateSwizzleWord (offset : Fin maxProgramCodeLength) (value : BitVec 32)
  | updateSwizzleData (other : ProgramCode) (otherSize : Fin (maxProgramCodeLength + 1))
  | getProgramCodeHash
  | getSwizzleDataHash
  | doProgramCodeFixup
  | setRequiresFixup (value : Bool)

def step (s : ShaderSetup) : Op → ShaderSetup
  | .updateProgramWord offset value => s.updateProgramWord offset value
  | .updateProgramCode other otherSize => s.updateProgramCode other otherSize
  | .updateSwizzleWord offset value => s.updateSwizzleWord offset value
  | .updateSwizzleData other otherSize => s.updateSwizzleData other otherSize
  | .getProgramCodeHash => (s.getProgramCodeHash computeHash64).2
  | .getSwizzleDataHash => (s.getSwizzleDataHash computeHash64).2
  | .doProgramCodeFixup => s.doProgramCodeFixup computeHash64 select
  | .setRequiresFixup value => { s with requiresFixup := value }

end

end ShaderSetup

/-! ## What the setup stands for -/

/-- The program and the swizzle data written last, and the fixup that was found for the program
since it was written. -/
structure ProgramText where
  program : ProgramCode := fun _ => 0
  swizzle : ProgramCode := fun _ => 0
  fixup : Option Fixup := none

namespace ProgramText

/-- The program to run. -/
def code (g : ProgramText) : ProgramCode :=
  match g.fixup with
  | none => g.program
  | some f => f.patch g.program

/-- What an operation on the setup `s` means. A word that is written over itself is no write. -/
def step (computeHash64 : List (BitVec 32) → Hash) (select : Hash → Option Fixup)
    (s : ShaderSetup) (g : ProgramText) : ShaderSetup.Op → ProgramText
  | .updateProgramWord offset value =>
    if g.program offset = value then g
    else { g with program := Function.update g.program offset value, fixup := none }
  | .updateProgramCode other _ => { g with program := other, fixup := none }
  | .updateSwizzleWord offset value =>
    { g with swizzle := Function.update g.swizzle offset value }
  | .updateSwizzleData other _ => { g with swizzle := other }
  | .doProgramCodeFixup =>
    if s.requiresFixup && g.fixup.isNone then
      { g with fixup := select (computeHash64 (firstWords g.program s.biggestProgramSize)) }
    else g
  | .getProgramCodeHash | .getSwizzleDataHash | .setRequiresFixup _ => g

end ProgramText

namespace ShaderSetup

variable {computeHash64 : List (BitVec 32) → Hash} {select : Hash → Option Fixup}

/-- The states reached from a new setup by operations that all meet a condition, with what they
stand for. -/
inductive Reached (computeHash64 : List (BitVec 32) → Hash) (select : Hash → Option Fixup)
    (Meets : ShaderSetup → Op → Prop) : ShaderSetup → ProgramText → Prop
  | new : Reached computeHash64 select Meets {} {}
  | op {s : ShaderSetup} {g : ProgramText} {o : Op} (h : Reached computeHash64 select Meets s g)
      (ho : Meets s o) :
      Reached computeHash64 select Meets (s.step computeHash64 select o)
        (g.step computeHash64 select s o)

/-- The operations after which the setup is what it stands for: no word is written between a fixup
and the next hash, a program that gets a fixup ends within the part that is copied, and what is
written as a whole ends within its size. -/
def KeepsText (computeHash64 : List (BitVec 32) → Hash) (select : Hash → Option Fixup)
    (s : ShaderSetup) : Op → Prop
  | .updateProgramWord offset value =>
    s.programCode offset = value ∨ s.hasFixup = false ∨ s.programCodeHashDirty = false
  | .updateProgramCode other otherSize =>
    ∀ i : Fin maxProgramCodeLength, max s.biggestProgramSize otherSize ≤ i.val → other i = 0
  | .updateSwizzleData other otherSize =>
    ∀ i : Fin maxProgramCodeLength, max s.biggestSwizzleSize otherSize ≤ i.val → other i = 0
  | .doProgramCodeFixup =>
    s.requiresFixup = true → s.programCodePendingFixup = true →
      select (computeHash64 (firstWords s.programCode s.biggestProgramSize)) ≠ none →
        ∀ i : Fin maxProgramCodeLength, 1024 ≤ i.val → s.programCode i = 0
  | _ => True

end ShaderSetup

end GbaStation.Pica
