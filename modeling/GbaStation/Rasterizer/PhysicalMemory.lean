import Mathlib.Algebra.Group.Nat.Defs
import Mathlib.Logic.Function.Basic
import GbaStation.Common.StrideLoop

/-!
# Physical memory, as the blitter and the cache see it (`core/memory.cpp`, `common/memory_ref.h`)

Physical addresses lie in four areas, each of which is an array on the host. A pointer that was made
from an address is good for the rest of its area: every access through it is checked against the
end of the array, and two pointers can only be compared if they are into the same array.
-/

namespace GbaStation.Rasterizer

/-- A value of `u32` arithmetic. -/
def word (value : Nat) : Nat := value % 2 ^ 32

theorem word_le (value : Nat) : word value ≤ value := Nat.mod_le _ _

theorem word_of_lt {value : Nat} (h : value < 2 ^ 32) : word value = value := Nat.mod_eq_of_lt h

/-- The bytes of guest memory, by physical address. -/
abbrev GuestMemory := Nat → UInt8

/-- Why host code stops: an access outside of the array of its pointer, a comparison of pointers
into two arrays, a failed `ASSERT`, a use of a slot that is not allocated, or a division by zero. -/
inductive MemoryFault where
  | outside | unrelated | assertion | dangling | division
deriving DecidableEq, Repr

structure MemoryArea where
  start : Nat
  size : Nat
deriving DecidableEq, Repr

/-- `memory_areas`. -/
def memoryAreas : List MemoryArea :=
  [⟨0x18000000, 0x600000⟩, ⟨0x1FF00000, 0x80000⟩, ⟨0x20000000, 0x10000000⟩, ⟨0x1F000000, 0x400000⟩]

/-- `GetPhysMemRegionInfo`. The end of an area is an address of it. -/
def getPhysMemRegionInfo (address : Nat) : Option MemoryArea :=
  memoryAreas.find? fun area => decide (area.start ≤ address ∧ address ≤ area.start + area.size)

/-- `MemoryRef`, and what `GetPhysicalPointer` gives. -/
structure MemoryRef where
  area : MemoryArea
  offset : Nat
deriving DecidableEq, Repr

/-- `GetPhysicalRef`. -/
def getPhysicalRef (address : Nat) : Option MemoryRef :=
  (getPhysMemRegionInfo address).map fun area => ⟨area, address - area.start⟩

namespace MemoryRef

/-- `GetSize`. -/
def getSize (ref : MemoryRef) : Nat := ref.area.size - ref.offset

/-- The physical address that the pointer stands for. -/
def address (ref : MemoryRef) : Nat := ref.area.start + ref.offset

/-- So many bytes at an offset are inside of the array. -/
def Inside (ref : MemoryRef) (offset size : Nat) : Prop :=
  size = 0 ∨ ref.offset + offset + size ≤ ref.area.size

instance (ref : MemoryRef) (offset size : Nat) : Decidable (ref.Inside offset size) :=
  inferInstanceAs (Decidable (_ ∨ _))

/-- `memcpy` from the pointer. -/
def read (ref : MemoryRef) (offset size : Nat) (mem : GuestMemory) :
    Except MemoryFault (List UInt8) :=
  if ref.Inside offset size then .ok ((List.range size).map fun i => mem (ref.address + offset + i))
  else .error .outside

/-- `memcpy` to the pointer. -/
def write (ref : MemoryRef) (offset : Nat) (bytes : List UInt8) (mem : GuestMemory) :
    Except MemoryFault GuestMemory :=
  if ref.Inside offset bytes.length then
    .ok fun a =>
      if ref.address + offset ≤ a ∧ a < ref.address + offset + bytes.length then
        bytes.getD (a - (ref.address + offset)) 0
      else mem a
  else .error .outside

end MemoryRef

section

variable {address address' : Nat} {area : MemoryArea} {ref : MemoryRef} {offset size : Nat}
  {bytes : List UInt8} {mem mem' : GuestMemory}

theorem mem_of_getPhysMemRegionInfo (h : getPhysMemRegionInfo address = some area) :
    area.start ≤ address ∧ address ≤ area.start + area.size := by
  have hfound := List.find?_some h
  exact of_decide_eq_true hfound

/-- No area is larger than that of the FCRAM. -/
theorem size_getPhysicalRef (h : getPhysicalRef address = some ref) :
    ref.area.size ≤ 0x10000000 := by
  have hsizes : ∀ area ∈ memoryAreas, area.size ≤ 0x10000000 := by decide
  obtain ⟨area, harea, rfl⟩ := Option.map_eq_some_iff.mp h
  exact hsizes area (List.mem_of_find?_eq_some harea)

theorem address_getPhysicalRef (h : getPhysicalRef address = some ref) : ref.address = address := by
  obtain ⟨area, harea, rfl⟩ := Option.map_eq_some_iff.mp h
  exact Nat.add_sub_cancel' (mem_of_getPhysMemRegionInfo harea).1

theorem getSize_getPhysicalRef (h : getPhysicalRef address = some ref) :
    ref.offset ≤ ref.area.size ∧ address + ref.getSize = ref.area.start + ref.area.size := by
  obtain ⟨area, harea, rfl⟩ := Option.map_eq_some_iff.mp h
  have hmem := mem_of_getPhysMemRegionInfo harea
  unfold MemoryRef.getSize
  dsimp only
  omega

/-- The pointer to an address that lies so far behind another one, in its area. -/
theorem getPhysicalRef_add {distance : Nat} (h : getPhysicalRef address = some ref)
    (hdistance : distance ≤ ref.getSize) : getPhysicalRef (address + distance) =
      some ⟨ref.area, ref.offset + distance⟩ := by
  obtain ⟨area, harea, rfl⟩ := Option.map_eq_some_iff.mp h
  have hmem := mem_of_getPhysMemRegionInfo harea
  have hlast : address + distance ≤ area.start + area.size := by
    unfold MemoryRef.getSize at hdistance
    dsimp only at hdistance
    omega
  have hsame : getPhysMemRegionInfo (address + distance) = some area := by
    -- the areas are disjoint
    have hdisjoint : ∀ a ∈ memoryAreas, ∀ b ∈ memoryAreas, a ≠ b →
        a.start + a.size < b.start ∨ b.start + b.size < a.start := by decide
    have hin := List.mem_of_find?_eq_some harea
    unfold getPhysMemRegionInfo
    cases hfind : memoryAreas.find? fun area =>
        decide (area.start ≤ address + distance ∧ address + distance ≤ area.start + area.size) with
    | none =>
      have hnone := List.find?_eq_none.mp hfind area hin
      exact absurd (decide_eq_true ⟨by omega, hlast⟩) hnone
    | some other =>
      have hfound := of_decide_eq_true (List.find?_some (p := fun area : MemoryArea =>
        decide (area.start ≤ address + distance ∧ address + distance ≤ area.start + area.size)) hfind)
      by_contra hne
      have hapart := hdisjoint _ (List.mem_of_find?_eq_some hfind) _ hin fun heq =>
        hne (congrArg some heq)
      omega
  rw [getPhysicalRef, hsame]
  exact congrArg (fun offset => some (MemoryRef.mk area offset)) (Nat.sub_add_comm hmem.1)

namespace MemoryRef

theorem read_of_inside (h : ref.Inside offset size) : ref.read offset size mem =
    .ok ((List.range size).map fun i => mem (ref.address + offset + i)) := if_pos h

theorem write_of_inside (h : ref.Inside offset bytes.length) : ref.write offset bytes mem =
    .ok fun a =>
      if ref.address + offset ≤ a ∧ a < ref.address + offset + bytes.length then
        bytes.getD (a - (ref.address + offset)) 0
      else mem a := if_pos h

/-- What is written lies in the array. -/
theorem of_write (h : ref.write offset bytes mem = .ok mem') : ref.Inside offset bytes.length ∧
    mem' = fun a =>
      if ref.address + offset ≤ a ∧ a < ref.address + offset + bytes.length then
        bytes.getD (a - (ref.address + offset)) 0
      else mem a := by
  by_cases hin : ref.Inside offset bytes.length
  · rw [write_of_inside hin] at h
    cases h
    exact ⟨hin, rfl⟩
  · rw [write, if_neg hin] at h
    cases h

end MemoryRef

end

/-! ## Accesses -/

/-- Memory, and which bytes of it were read and written so far, in this order. -/
structure AccessLog where
  mem : GuestMemory
  readBytes : List Nat := []
  writtenBytes : List Nat := []

namespace AccessLog

/-- The addresses of an access. -/
def addresses (ref : MemoryRef) (offset size : Nat) : List Nat :=
  (List.range size).map fun i => ref.address + offset + i

def load (log : AccessLog) (ref : MemoryRef) (offset size : Nat) :
    Except MemoryFault (List UInt8 × AccessLog) := do
  let bytes ← ref.read offset size log.mem
  return (bytes, { log with readBytes := log.readBytes ++ addresses ref offset size })

def store (log : AccessLog) (ref : MemoryRef) (offset : Nat) (bytes : List UInt8) :
    Except MemoryFault AccessLog := do
  let mem ← ref.write offset bytes log.mem
  return { log with
    mem := mem, writtenBytes := log.writtenBytes ++ addresses ref offset bytes.length }

variable {log log' : AccessLog} {ref : MemoryRef} {offset size : Nat} {bytes : List UInt8}

theorem load_of_inside (h : ref.Inside offset size) : log.load ref offset size =
    .ok ((List.range size).map fun i => log.mem (ref.address + offset + i),
      { log with readBytes := log.readBytes ++ addresses ref offset size }) := by
  rw [load, MemoryRef.read_of_inside h]
  rfl

theorem load_of_not_inside (h : ¬ref.Inside offset size) :
    log.load ref offset size = .error .outside := by
  rw [load, MemoryRef.read, if_neg h]
  rfl

theorem store_of_not_inside (h : ¬ref.Inside offset bytes.length) :
    log.store ref offset bytes = .error .outside := by
  rw [store, MemoryRef.write, if_neg h]
  rfl

/-- What a store leaves, apart from memory. -/
theorem store_of_inside (h : ref.Inside offset bytes.length) : ∃ mem, log.store ref offset bytes =
    .ok { log with
      mem := mem, writtenBytes := log.writtenBytes ++ addresses ref offset bytes.length } := by
  rw [store, MemoryRef.write_of_inside h]
  exact ⟨_, rfl⟩

end AccessLog

end GbaStation.Rasterizer
