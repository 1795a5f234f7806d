import GbaStation.Common.FlatMemory
import GbaStation.Ldr.RoService

/-!
# Modules in memory (`core/hle/service/ldr_ro/cro_helper.h`)

A module is an image in the memory of its process. A header of words has the offsets and the sizes
of the tables behind it.
-/

namespace GbaStation.Ldr

open FlatMemory

/-- The header fields of the tables that are read here, by their index. -/
inductive TableField where
  | onUnresolvedSegmentTag
  | segmentTableOffset
  | segmentNum
  | exportNamedSymbolTableOffset
  | exportNamedSymbolNum
  | exportStringsSize
  | exportTreeTableOffset
  | exportTreeNum
  | externalRelocationTableOffset
  | externalRelocationNum
  | internalRelocationTableOffset
  | internalRelocationNum
deriving DecidableEq, Repr

def TableField.index : TableField → Word
  | .onUnresolvedSegmentTag => 11
  | .segmentTableOffset => 18
  | .segmentNum => 19
  | .exportNamedSymbolTableOffset => 20
  | .exportNamedSymbolNum => 21
  | .exportStringsSize => 25
  | .exportTreeTableOffset => 26
  | .exportTreeNum => 27
  | .externalRelocationTableOffset => 30
  | .externalRelocationNum => 31
  | .internalRelocationTableOffset => 42
  | .internalRelocationNum => 43

/-- `SegmentTag`: a segment in the lowest four bits, and an offset. -/
abbrev SegmentTag := Word

def SegmentTag.segmentIndex (tag : SegmentTag) : Word := tag &&& 0xF

def SegmentTag.offsetIntoSegment (tag : SegmentTag) : Word := tag >>> 4

inductive SegmentType where
  | code
  | roData
  | data
  | bss
  /-- Any other value. -/
  | other
deriving DecidableEq, Repr

def SegmentType.ofRaw (raw : Word) : SegmentType :=
  if raw = 0 then .code
  else if raw = 1 then .roData
  else if raw = 2 then .data
  else if raw = 3 then .bss
  else .other

structure SegmentEntry where
  offset : Word
  size : Word
  type : SegmentType

/-- `CROHelper`: a module in the memory of a process. -/
structure CroHelper where
  memory : FlatMemory
  moduleAddress : Word

namespace CroHelper

variable (cro : CroHelper)

def getField (f : TableField) : Word := cro.memory.read32 (cro.moduleAddress + 0x80 + f.index * 4)

/-- `GetEntry` of the segment table. -/
def segmentEntry (index : Word) : SegmentEntry :=
  let entry := cro.getField .segmentTableOffset + index * 12
  { offset := cro.memory.read32 entry
    size := cro.memory.read32 (entry + 4)
    type := .ofRaw (cro.memory.read32 (entry + 8)) }

/-- `SegmentTagToAddress`. -/
def segmentTagToAddress (tag : SegmentTag) : Word :=
  if tag.segmentIndex ≥ cro.getField .segmentNum then 0
  else
    let entry := cro.segmentEntry tag.segmentIndex
    if tag.offsetIntoSegment ≥ entry.size then 0 else entry.offset + tag.offsetIntoSegment

end CroHelper

end GbaStation.Ldr
