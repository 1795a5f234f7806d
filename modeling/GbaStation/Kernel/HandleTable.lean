import GbaStation.Kernel.Result
import Mathlib.Data.List.Range
import Mathlib.Data.List.Perm.Basic

/-!
# The handle table (`core/hle/kernel/handle_table.cpp`)

A handle packs a slot (bits 31:15) and a generation (bits 14:0). The generations of the
empty slots double as the links of the free list; `maxCount` ends it. Slots, generations
and links are `u16` in the source and stay below `2 ^ 16` here, so they are natural
numbers; `getSlot` keeps the narrowing of its 17-bit field to 16 bits.

What is in a slot is any type `O` of objects; `none` is the null pointer. The objects of
the two pseudo-handles belong to the kernel and are parameters.
-/

namespace GbaStation.Kernel

universe u

abbrev Handle := BitVec 32

def currentThread : Handle := 0xFFFF8000
def currentProcess : Handle := 0xFFFF8001

namespace HandleTable

/-- `GetSlot`; its result is a `u16`. -/
def getSlot (handle : Handle) : Nat := (handle.toNat >>> 15) % 2 ^ 16

/-- `GetGeneration`. -/
def getGeneration (handle : Handle) : Nat := handle.toNat &&& 0x7FFF

/-- The maximum number of handles of a process. -/
def maxCount : Nat := 4096

end HandleTable

structure HandleTable (O : Type u) where
  objects : Nat → Option O
  generations : Nat → Nat
  nextGeneration : Nat
  nextFreeSlot : Nat

namespace HandleTable

variable {O : Type u}

/-- The constructor: `next_generation = 1` and `Clear`. -/
def init : HandleTable O where
  objects _ := none
  generations i := i + 1
  nextGeneration := 1
  nextFreeSlot := 0

/-- `generation | (slot << 15)`. -/
def packHandle (slot generation : Nat) : Handle := BitVec.ofNat 32 (generation ||| (slot <<< 15))

/-- The generation after `g`, which skips 0 when it wraps. -/
def bumpGeneration (g : Nat) : Nat := if 1 <<< 15 ≤ g + 1 then 1 else g + 1

/-- `Create`. -/
def create (obj : O) (t : HandleTable O) : Except Result Handle × HandleTable O :=
  let slot := t.nextFreeSlot
  if maxCount ≤ slot then (.error Result.outOfHandles, t) else
  let generation := t.nextGeneration
  (.ok (packHandle slot generation),
    { objects := fun s => if s = slot then some obj else t.objects s
      generations := fun s => if s = slot then generation else t.generations s
      nextGeneration := bumpGeneration generation
      nextFreeSlot := t.generations slot })

/-- `IsValid`. -/
def isValid (handle : Handle) (t : HandleTable O) : Bool :=
  decide (getSlot handle < maxCount) && (t.objects (getSlot handle)).isSome &&
    decide (t.generations (getSlot handle) = getGeneration handle)

/-- `GetGeneric`. -/
def getGeneric (thread process : O) (handle : Handle) (t : HandleTable O) : Option O :=
  if handle = currentThread then some thread
  else if handle = currentProcess then some process
  else if ¬ t.isValid handle then none
  else t.objects (getSlot handle)

/-- `Duplicate`. -/
def duplicate (thread process : O) (handle : Handle) (t : HandleTable O) :
    Except Result Handle × HandleTable O :=
  match t.getGeneric thread process handle with
  | none => (.error Result.invalidHandle, t)
  | some object => t.create object

/-- `Close`. -/
def close (handle : Handle) (t : HandleTable O) : Result × HandleTable O :=
  if ¬ t.isValid handle then (Result.invalidHandle, t) else
  let slot := getSlot handle
  (Result.success, { t with
    objects := fun s => if s = slot then none else t.objects s
    generations := fun s => if s = slot then t.nextFreeSlot else t.generations s
    nextFreeSlot := slot })

/-! ## Packing -/

theorem getSlot_eq (h : Handle) : getSlot h = h.toNat / 2 ^ 15 % 2 ^ 16 := by
  unfold getSlot
  rw [Nat.shiftRight_eq_div_pow]

theorem getGeneration_eq (h : Handle) : getGeneration h = h.toNat % 2 ^ 15 := by
  exact Nat.and_two_pow_sub_one_eq_mod h.toNat 15

variable {generation slot : Nat}

theorem packHandle_toNat (hs : slot < maxCount) (hg : generation < 2 ^ 15) :
      (packHandle slot generation).toNat = slot * 2 ^ 15 + generation := by
  have hlim : maxCount = 4096 := rfl
  unfold packHandle
  rw [Nat.or_comm, ← Nat.shiftLeft_add_eq_or_of_lt hg, Nat.shiftLeft_eq, BitVec.toNat_ofNat,
    Nat.mod_eq_of_lt (by omega)]

theorem getSlot_packHandle (hs : slot < maxCount) (hg : generation < 2 ^ 15) :
    getSlot (packHandle slot generation) = slot := by
  have hlim : maxCount = 4096 := rfl
  rw [getSlot_eq, packHandle_toNat hs hg]
  omega

theorem getGeneration_packHandle (hs : slot < maxCount) (hg : generation < 2 ^ 15) :
    getGeneration (packHandle slot generation) = generation := by
  rw [getGeneration_eq, packHandle_toNat hs hg]
  omega

theorem packHandle_lt (hs : slot < maxCount) (hg : generation < 2 ^ 15) :
    (packHandle slot generation).toNat < 2 ^ 31 := by
  have hlim : maxCount = 4096 := rfl
  rw [packHandle_toNat hs hg]
  omega

/-- The handle without bit 31, which `getSlot` does not see. -/
def clearTop (h : Handle) : Handle := BitVec.ofNat 32 (h.toNat % 2 ^ 31)

theorem clearTop_toNat (h : Handle) : (clearTop h).toNat = h.toNat % 2 ^ 31 := by
  unfold clearTop
  rw [BitVec.toNat_ofNat]
  omega

theorem getSlot_clearTop (h : Handle) : getSlot (clearTop h) = getSlot h := by
  rw [getSlot_eq, getSlot_eq, clearTop_toNat]
  omega

theorem getGeneration_clearTop (h : Handle) : getGeneration (clearTop h) = getGeneration h := by
  rw [getGeneration_eq, getGeneration_eq, clearTop_toNat]
  omega

theorem clearTop_eq_self {h : Handle} (hlt : h.toNat < 2 ^ 31) : clearTop h = h := by
  apply BitVec.eq_of_toNat_eq
  rw [clearTop_toNat, Nat.mod_eq_of_lt hlt]

/-- Below bit 31 a handle is its slot and its generation. -/
theorem eq_clearTop {h h' : Handle} (hlt : h.toNat < 2 ^ 31) (hs : getSlot h = getSlot h')
    (hg : getGeneration h = getGeneration h') : h = clearTop h' := by
  apply BitVec.eq_of_toNat_eq
  rw [clearTop_toNat]
  rw [getSlot_eq, getSlot_eq] at hs
  rw [getGeneration_eq, getGeneration_eq] at hg
  omega

end HandleTable

end GbaStation.Kernel
