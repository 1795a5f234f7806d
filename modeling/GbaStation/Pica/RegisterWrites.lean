import GbaStation.Pica.PackedAttribute
import GbaStation.Pica.ShaderSetup

/-!
# Writes to the internal registers (`video_core/pica/pica_core.cpp`)

A command list writes words to registers. Some of them are ports: they push a word to the queue of
the immediate mode or of a shader unit, or store it in a table at an offset that is in a register
itself and that moves on.

- Every store in a table is checked: there is no result if its index is outside.
- What a draw does (`DrawImmediate`, `DrawArrays`) to the shader units and to the rest of the world,
  and what an interrupt, the primitive assembler and the command list do, is a parameter, `Device`.
- Not modelled: dirty flags, debugging and the delay generator.
-/

namespace GbaStation.Pica

/-! ## State -/

/-- An array of the source at an index: there is no result outside. -/
def storeTable {α : Type*} {n : Nat} (table : Fin n → α) (index : Nat) (value : α) :
    Option (Fin n → α) :=
  if h : index < n then some (Function.update table ⟨index, h⟩ value) else none

/-- `ShaderSetup` with its uniforms and their queue. -/
structure ShaderUnitSetup (F : Type) where
  setup : ShaderSetup
  f : Fin 96 → Vec4 F
  b : Fin 16 → Bool
  i : Fin 4 → Vec4 (BitVec 8)
  uniformQueue : PackedAttribute

structure ImmediateModeState (F : Type) where
  inputVertex : Fin 16 → Vec4 F
  currentAttribute : Nat
  resetGeometryPipeline : Bool
  queue : PackedAttribute

namespace ImmediateModeState

def reset {F : Type} (immediate : ImmediateModeState F) : ImmediateModeState F :=
  { immediate with
    currentAttribute := 0
    resetGeometryPipeline := true
    queue := immediate.queue.reset }

end ImmediateModeState

structure ProcTex where
  noiseTable : Fin 128 → Word
  colorMapTable : Fin 128 → Word
  alphaMapTable : Fin 128 → Word
  colorTable : Fin 256 → Word
  colorDiffTable : Fin 256 → Word

/-- `PicaCore`, with the rest of the world. -/
structure PicaCore (F Ω : Type) where
  regArray : Nat → Word
  gsSetup : ShaderUnitSetup F
  vsSetup : ShaderUnitSetup F
  proctex : ProcTex
  luts : Fin 24 → Fin 256 → Word
  fogLut : Fin 128 → Word
  inputDefaultAttributes : Fin 16 → Vec4 F
  immediate : ImmediateModeState F
  stopRequested : Bool
  outside : Ω

/-! ## Registers -/

def numRegs : Nat := 0x300

/-- `RegsInternal::gs` and `RegsInternal::vs`. -/
def ShaderKind.base : ShaderKind → Nat
  | .gs => 0x280
  | .vs => 0x2b0

namespace ShaderKind

def outputMask (unit : ShaderKind) : Nat := unit.base + 0xd

def uniformSetup (unit : ShaderKind) : Nat := unit.base + 0x10

def programOffset (unit : ShaderKind) : Nat := unit.base + 0x1b

def swizzleOffset (unit : ShaderKind) : Nat := unit.base + 0x25

end ShaderKind

/-- The case labels of `WriteInternalReg`. -/
inductive InternalReg
  | irqRequest
  | triangleTopology
  | restartPrimitive
  | defaultAttributesIndex
  | defaultAttributesValue
  | gpuMode
  | commandBufferTrigger (index : Nat)
  | triggerDraw (isIndexed : Bool)
  | boolUniforms (unit : ShaderKind)
  | intUniform (unit : ShaderKind) (index : Nat)
  | uniformValue (unit : ShaderKind)
  | programWord (unit : ShaderKind)
  | swizzleWord (unit : ShaderKind)
  | vsOutputMask
  | lutData
  | fogLutData
  | proctexLutData
  | other

/-- The labels of a shader unit, by the place in its registers. -/
def shaderRegOf (unit : ShaderKind) (place : Nat) : InternalReg :=
  if place = 0 then .boolUniforms unit
  else if place < 5 then .intUniform unit (place - 1)
  else if place = 0xd ∧ unit = .vs then .vsOutputMask
  else if 0x11 ≤ place ∧ place < 0x19 then .uniformValue unit
  else if 0x1c ≤ place ∧ place < 0x24 then .programWord unit
  else if 0x26 ≤ place ∧ place < 0x2e then .swizzleWord unit
  else .other

def regOf (id : Nat) : InternalReg :=
  if id = 0x10 then .irqRequest
  else if 0xb0 ≤ id ∧ id < 0xb8 then .proctexLutData
  else if 0xe8 ≤ id ∧ id < 0xf0 then .fogLutData
  else if 0x1c8 ≤ id ∧ id < 0x1d0 then .lutData
  else if id = 0x22e then .triggerDraw false
  else if id = 0x22f then .triggerDraw true
  else if id = 0x232 then .defaultAttributesIndex
  else if 0x233 ≤ id ∧ id < 0x236 then .defaultAttributesValue
  else if 0x23c ≤ id ∧ id < 0x23e then .commandBufferTrigger (id - 0x23c)
  else if id = 0x245 then .gpuMode
  else if id = 0x25e then .triangleTopology
  else if id = 0x25f then .restartPrimitive
  else if 0x280 ≤ id ∧ id < 0x2b0 then shaderRegOf .gs (id - 0x280)
  else if 0x2b0 ≤ id ∧ id < 0x2e0 then shaderRegOf .vs (id - 0x2b0)
  else .other

/-- A `BitField` of a register. -/
def field (w : Word) (position bits : Nat) : Nat := (w.extractLsb' position bits).toNat

/-- `BitField::Assign`. -/
def assignField (w : Word) (position bits : Nat) (value : Word) : Word :=
  let mask := ((1 <<< bits : Word) - 1) <<< position
  (w &&& ~~~mask) ||| ((value <<< position) &&& mask)

/-- `ExpandBitsToBytes`. -/
def expandBitsToBytes (mask : BitVec 4) : Word :=
  (if mask.getLsbD 0 then 0x000000ff else 0) ||| (if mask.getLsbD 1 then 0x0000ff00 else 0) |||
    (if mask.getLsbD 2 then 0x00ff0000 else 0) ||| (if mask.getLsbD 3 then 0xff000000 else 0)

def anyByteMatch (a b : Word) : Bool :=
  (a &&& 0xFF) == (b &&& 0xFF) || ((a >>> 8) &&& 0xFF) == ((b >>> 8) &&& 0xFF) ||
    ((a >>> 16) &&& 0xFF) == ((b >>> 16) &&& 0xFF) || ((a >>> 24) &&& 0xFF) == ((b >>> 24) &&& 0xFF)

/-- One call of `WriteInternalReg`. -/
structure RegWrite where
  id : Nat
  value : Word
  mask : BitVec 4

/-! ## The rest of the world -/

/-- What a draw leaves of what it can change. -/
structure Drawn (F Ω : Type) where
  gsUniforms : Fin 96 → Vec4 F
  gsSetup : ShaderSetup
  vsSetup : ShaderSetup
  outside : Ω

/-- The decoding of floats, the drawing, and what else happens outside. -/
structure Device (F Ω : Type) extends F24Codec F where
  drawImmediate : PicaCore F Ω → Drawn F Ω
  drawArrays : Bool → PicaCore F Ω → Drawn F Ω
  effect : InternalReg → PicaCore F Ω → Ω

namespace PicaCore

variable {F Ω : Type}

def unit (core : PicaCore F Ω) : ShaderKind → ShaderUnitSetup F
  | .gs => core.gsSetup
  | .vs => core.vsSetup

def setUnit (core : PicaCore F Ω) (kind : ShaderKind) (setup : ShaderUnitSetup F) : PicaCore F Ω :=
  match kind with
  | .gs => { core with gsSetup := setup }
  | .vs => { core with vsSetup := setup }

def setReg (core : PicaCore F Ω) (id : Nat) (value : Word) : PicaCore F Ω :=
  { core with regArray := Function.update core.regArray id value }

/-- The masked store at the start of `WriteInternalReg`. -/
def maskedStore (core : PicaCore F Ω) (write : RegWrite) : PicaCore F Ω :=
  let writeMask := expandBitsToBytes write.mask
  core.setReg write.id ((core.regArray write.id &&& ~~~writeMask) ||| (write.value &&& writeMask))

def drawn (core : PicaCore F Ω) (drawn : Drawn F Ω) : PicaCore F Ω :=
  { core with
    gsSetup := { core.gsSetup with f := drawn.gsUniforms, setup := drawn.gsSetup }
    vsSetup := { core.vsSetup with setup := drawn.vsSetup }
    outside := drawn.outside }

/-- What is written to the vertex shader unit is also written to the geometry shader unit. -/
def sharesUnit (core : PicaCore F Ω) : Bool :=
  field (core.regArray 0x244) 0 1 == 0 && field (core.regArray 0x229) 0 2 == 0

/-- `max_input_attrib_index`. -/
def maxInputAttribIndex (core : PicaCore F Ω) : Nat := field (core.regArray 0x242) 0 4

end PicaCore

/-! ## The bodies of the cases -/

section Bodies

variable {F Ω : Type} (device : Device F Ω)

/-- `WriteUniformBoolReg`. -/
def ShaderUnitSetup.writeUniformBoolReg (s : ShaderUnitSetup F) (value : Word) :
    ShaderUnitSetup F := { s with b := fun i => value.getLsbD i.val }

/-- `WriteUniformIntReg`. -/
def ShaderUnitSetup.writeUniformIntReg (s : ShaderUnitSetup F) (index : Nat)
    (values : Vec4 (BitVec 8)) : Option (ShaderUnitSetup F) := do
  let i ← storeTable s.i index values
  return { s with i }

/-- `UpdateProgramCode`. -/
def ShaderUnitSetup.updateProgramCode (s : ShaderUnitSetup F) (offset : Nat) (value : Word) :
    Option (ShaderUnitSetup F) :=
  if h : offset < maxProgramCodeLength then
    some { s with setup := s.setup.updateProgramWord ⟨offset, h⟩ value }
  else none

/-- `UpdateSwizzleData`. -/
def ShaderUnitSetup.updateSwizzleData (s : ShaderUnitSetup F) (offset : Nat) (value : Word) :
    Option (ShaderUnitSetup F) :=
  if h : offset < maxProgramCodeLength then
    some { s with setup := s.setup.updateSwizzleWord ⟨offset, h⟩ value }
  else none

/-- `GetIntUniform`. -/
def PicaCore.getIntUniform (core : PicaCore F Ω) (kind : ShaderKind) (index : Nat) :
    Vec4 (BitVec 8) :=
  let values := core.regArray (kind.base + 1 + index)
  ⟨values.extractLsb' 0 8, values.extractLsb' 8 8, values.extractLsb' 16 8,
    values.extractLsb' 24 8⟩

/-- `IsFloat32` of a shader unit. -/
def PicaCore.isFloat32 (core : PicaCore F Ω) (kind : ShaderKind) : Bool :=
  field (core.regArray kind.uniformSetup) 31 1 == 1

/-- `WriteUniformFloatReg` of a shader unit: the index that was written, if any. -/
def PicaCore.writeUniformFloatReg (core : PicaCore F Ω) (kind : ShaderKind) (value : Word) :
    Option (PicaCore F Ω × Option Nat × List (QueueEvent F)) := do
  let isFloat32 := core.isFloat32 kind
  let s := core.unit kind
  let (uniformQueue, full) ← s.uniformQueue.push value isFloat32
  let pushed := QueueEvent.pushed (.uniform kind) value
  if !full then return (core.setUnit kind { s with uniformQueue }, none, [pushed])
  else
    let uniform := uniformQueue.get device.toF24Codec isFloat32
    let log := [pushed, .decoded (.uniform kind) isFloat32 uniform]
    let s := { s with uniformQueue := uniformQueue.reset }
    let index := field (core.regArray kind.uniformSetup) 0 7
    if index ≥ 96 then return (core.setUnit kind s, none, log)
    else
      let f ← storeTable s.f index uniform
      let config := assignField (core.regArray kind.uniformSetup) 0 7 (.ofNat 32 (index + 1))
      return ((core.setUnit kind { s with f }).setReg kind.uniformSetup config, some index, log)

def PicaCore.drawImmediate (core : PicaCore F Ω) : PicaCore F Ω :=
  let core := core.drawn (device.drawImmediate core)
  { core with
    immediate := { core.immediate with currentAttribute := 0, resetGeometryPipeline := false } }

/-- `SubmitImmediate`. -/
def PicaCore.submitImmediate (core : PicaCore F Ω) (value : Word) :
    Option (PicaCore F Ω × List (QueueEvent F)) := do
  let (queue, full) ← core.immediate.queue.push value false
  let pushed := QueueEvent.pushed .immediate value
  if !full then return ({ core with immediate := { core.immediate with queue } }, [pushed])
  else
    let index := core.regArray 0x232
    -- the queue stays full, and the next word is pushed behind the others
    if index.toNat > 0xF then
      return ({ core with immediate := { core.immediate with queue } }, [pushed])
    else
      let vector := queue.get device.toF24Codec false
      let log := [pushed, .decoded .immediate false vector]
      let core := { core with immediate := { core.immediate with queue := queue.reset } }
      if index.toNat < 0xF then do
        let inputDefaultAttributes ←
          storeTable core.inputDefaultAttributes index.toNat vector
        return ({ core with inputDefaultAttributes }.setReg 0x232 (index + 1), log)
      else do
        let inputVertex ←
          storeTable core.immediate.inputVertex core.immediate.currentAttribute vector
        let core := { core with immediate := { core.immediate with inputVertex } }
        if core.immediate.currentAttribute < core.maxInputAttribIndex then
          let currentAttribute := core.immediate.currentAttribute + 1
          return ({ core with immediate := { core.immediate with currentAttribute } }, log)
        else return (core.drawImmediate device, log)

/-- What is done to a shader unit, and also to the geometry shader unit if it shares it. -/
def PicaCore.updateShared (core : PicaCore F Ω) (kind : ShaderKind)
    (update : ShaderUnitSetup F → Option (ShaderUnitSetup F)) : Option (PicaCore F Ω) := do
  let s ← update (core.unit kind)
  let core := core.setUnit kind s
  if kind = .vs ∧ core.sharesUnit then
    let gsSetup ← update core.gsSetup
    return { core with gsSetup }
  else return core

/-- A word of a shader unit at the offset in a register, which moves on. From the limit on it is
an error. -/
def PicaCore.writeAtOffset (core : PicaCore F Ω) (kind : ShaderKind) (offsetReg limit : Nat)
    (update : Nat → ShaderUnitSetup F → Option (ShaderUnitSetup F)) : Option (PicaCore F Ω) :=
  let offset := core.regArray offsetReg
  if offset.toNat ≥ limit then some core
  else do
    let core ← core.updateShared kind (update offset.toNat)
    return core.setReg offsetReg (offset + 1)

/-- The limit for program offsets. -/
def ShaderKind.programLimit : ShaderKind → Nat
  | .gs => 4096
  | .vs => 512

/-- A word of a lighting table. -/
def PicaCore.writeLut (core : PicaCore F Ω) (value : Word) : Option (PicaCore F Ω) :=
  let config := core.regArray 0x1c5
  let index := field config 0 8
  let type := field config 8 5
  if h : type < 24 then do
    let lut ← storeTable (core.luts ⟨type, h⟩) index value
    return { core with luts := Function.update core.luts ⟨type, h⟩ lut }.setReg 0x1c5
      (assignField config 0 8 (.ofNat 32 (index + 1)))
  else none

/-- A word of the fog table. -/
def PicaCore.writeFogLut (core : PicaCore F Ω) (value : Word) : Option (PicaCore F Ω) := do
  let register := core.regArray 0xe6
  let offset := field register 0 16
  let fogLut ← storeTable core.fogLut (offset % 128) value
  return { core with fogLut }.setReg 0xe6 (assignField register 0 16 (.ofNat 32 (offset + 1)))

/-- A word of a table of the procedural texture: `ProcTexLutTable` selects the table. -/
def ProcTex.store (proctex : ProcTex) (table index : Nat) (value : Word) : Option ProcTex :=
  match table with
  | 0 => do return { proctex with noiseTable := ← storeTable proctex.noiseTable (index % 128) value }
  | 2 => do
    return { proctex with colorMapTable := ← storeTable proctex.colorMapTable (index % 128) value }
  | 3 => do
    return { proctex with alphaMapTable := ← storeTable proctex.alphaMapTable (index % 128) value }
  | 4 => do return { proctex with colorTable := ← storeTable proctex.colorTable (index % 256) value }
  | 5 => do
    return { proctex with
      colorDiffTable := ← storeTable proctex.colorDiffTable (index % 256) value }
  | _ => some proctex

def PicaCore.writeProctexLut (core : PicaCore F Ω) (value : Word) : Option (PicaCore F Ω) := do
  let config := core.regArray 0xaf
  let index := field config 0 8
  let proctex ← core.proctex.store (field config 8 4) index value
  return { core with proctex }.setReg 0xaf (assignField config 0 8 (.ofNat 32 (index + 1)))

/-- The switch of `WriteInternalReg`. -/
def PicaCore.handle (core : PicaCore F Ω) (reg : InternalReg) (value : Word) :
    Option (PicaCore F Ω × List (QueueEvent F)) :=
  let quietly (core : Option (PicaCore F Ω)) : Option (PicaCore F Ω × List (QueueEvent F)) :=
    core.map fun core => (core, [])
  match reg with
  | .irqRequest =>
    if anyByteMatch (core.regArray 0x10) (core.regArray 0x20) then
      some ({ core with
        outside := device.effect reg core
        stopRequested := core.stopRequested || core.regArray 0x34 != 0 }, [])
    else some (core, [])
  | .triangleTopology | .restartPrimitive | .commandBufferTrigger _ =>
    some ({ core with outside := device.effect reg core }, [])
  | .defaultAttributesIndex =>
    some ({ core with immediate := core.immediate.reset }, [.reset .immediate])
  | .defaultAttributesValue => core.submitImmediate device value
  | .gpuMode | .other => some (core, [])
  | .triggerDraw isIndexed => some (core.drawn (device.drawArrays isIndexed core), [])
  | .boolUniforms kind =>
    let bits := core.regArray kind.base &&& 0xFFFF
    quietly (core.updateShared kind fun s => some (s.writeUniformBoolReg bits))
  | .intUniform kind index =>
    let values := core.getIntUniform kind index
    quietly (core.updateShared kind fun s => s.writeUniformIntReg index values)
  | .uniformValue kind => do
    let (core, index, log) ← core.writeUniformFloatReg device kind value
    match index with
    | some index =>
      if h : index < 96 then
        if kind = .vs ∧ core.sharesUnit then
          return ({ core with gsSetup := { core.gsSetup with
            f := Function.update core.gsSetup.f ⟨index, h⟩ (core.vsSetup.f ⟨index, h⟩) } }, log)
        else return (core, log)
      else none
    | none => return (core, log)
  | .programWord kind =>
    quietly (core.writeAtOffset kind kind.programOffset kind.programLimit fun offset s =>
      s.updateProgramCode offset value)
  | .swizzleWord kind =>
    quietly (core.writeAtOffset kind kind.swizzleOffset maxProgramCodeLength fun offset s =>
      s.updateSwizzleData offset value)
  | .vsOutputMask =>
    if core.sharesUnit then
      some (core.setReg ShaderKind.gs.outputMask
        (assignField (core.regArray ShaderKind.gs.outputMask) 0 16 value), [])
    else some (core, [])
  | .lutData => quietly (core.writeLut value)
  | .fogLutData => quietly (core.writeFogLut value)
  | .proctexLutData => quietly (core.writeProctexLut value)

/-- `WriteInternalReg`: what happened to the queues is the second part of the result. -/
def PicaCore.writeInternalReg (core : PicaCore F Ω) (write : RegWrite) :
    Option (PicaCore F Ω × List (QueueEvent F)) :=
  if write.id ≥ numRegs then some (core, [])
  else (core.maskedStore write).handle device (regOf write.id) write.value

/-- Writes one after the other. -/
def PicaCore.run (core : PicaCore F Ω) : List RegWrite → Option (PicaCore F Ω × List (QueueEvent F))
  | [] => some (core, [])
  | write :: writes => do
    let (core, log) ← core.writeInternalReg device write
    let (core, rest) ← core.run writes
    return (core, log ++ rest)

end Bodies

end GbaStation.Pica
