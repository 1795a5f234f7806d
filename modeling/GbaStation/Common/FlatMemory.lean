import Mathlib.Logic.Function.Basic
import Mathlib.Data.BitVec

/-!
# A flat memory of 32-bit addresses

Bytes by address, with little-endian halfwords and words. Addresses wrap around.
-/

namespace GbaStation

abbrev Halfword := BitVec 16

abbrev Word := BitVec 32

/-- The bytes of an address space. -/
abbrev FlatMemory := Word → BitVec 8

namespace FlatMemory

def read16 (m : FlatMemory) (a : Word) : Halfword := m (a + 1) ++ m a

def read32 (m : FlatMemory) (a : Word) : Word := m.read16 (a + 2) ++ m.read16 a

def write16 (m : FlatMemory) (a : Word) (v : Halfword) : FlatMemory :=
  Function.update (Function.update m a (v.extractLsb' 0 8)) (a + 1) (v.extractLsb' 8 8)

def write32 (m : FlatMemory) (a v : Word) : FlatMemory :=
  (m.write16 a (v.extractLsb' 0 16)).write16 (a + 2) (v.extractLsb' 16 16)

/-- The bytes that are not one of the four at an address are the same. -/
def SameOutside (a : Word) (m m' : FlatMemory) : Prop :=
  ∀ b, b ≠ a → b ≠ a + 1 → b ≠ a + 2 → b ≠ a + 3 → m' b = m b

variable {m : FlatMemory} {a b : Word}

/-- A bit vector is its two halves. -/
theorem append_extractLsb' (n : Nat) (v : BitVec (n + n)) :
    v.extractLsb' n n ++ v.extractLsb' 0 n = v := by
  ext i hi
  rw [BitVec.getElem_append]
  split_ifs with hlow
  · rw [BitVec.getElem_extractLsb', Nat.zero_add, BitVec.getLsbD_eq_getElem hi]
  · rw [BitVec.getElem_extractLsb', Nat.add_sub_cancel' (not_lt.mp hlow),
      BitVec.getLsbD_eq_getElem hi]

theorem write16_of_ne (v : Halfword) (h : b ≠ a) (h' : b ≠ a + 1) : m.write16 a v b = m b := by
  rw [write16, Function.update_of_ne h', Function.update_of_ne h]

@[simp] theorem read16_write16_self (v : Halfword) : (m.write16 a v).read16 a = v := by
  have hne : a ≠ a + 1 := by bv_omega
  rw [read16, write16, Function.update_self, Function.update_of_ne hne, Function.update_self]
  exact append_extractLsb' 8 v

theorem read16_write16_of_ne (v : Halfword) (h : b ≠ a) (h' : b ≠ a + 1) (h'' : b + 1 ≠ a) :
    (m.write16 a v).read16 b = m.read16 b := by
  have hne : b + 1 ≠ a + 1 := by bv_omega
  rw [read16, read16, write16_of_ne v h h', write16_of_ne v h'' hne]

/-- The two halfwords of a word, one written after the other. -/
theorem read16_write16_write16 (m : FlatMemory) (a : Word) (v w : Halfword) :
    ((m.write16 a v).write16 (a + 2) w).read16 a = v ∧
      ((m.write16 a v).write16 (a + 2) w).read16 (a + 2) = w := by
  constructor
  · rw [read16_write16_of_ne w (by bv_omega) (by bv_omega) (by bv_omega), read16_write16_self]
  · rw [read16_write16_self]

@[simp] theorem read32_write32_self (v : Word) : (m.write32 a v).read32 a = v := by
  obtain ⟨hlow, hhigh⟩ := read16_write16_write16 m a (v.extractLsb' 0 16) (v.extractLsb' 16 16)
  rw [read32, write32, hlow, hhigh]
  exact append_extractLsb' 16 v

theorem sameOutside_write16 (m : FlatMemory) (a : Word) (v w : Halfword) :
    SameOutside a m ((m.write16 a v).write16 (a + 2) w) := by
  intro b h0 h1 h2 h3
  have h3' : b ≠ a + 2 + 1 := by bv_omega
  rw [write16_of_ne w h2 h3', write16_of_ne v h0 h1]

theorem sameOutside_write32 (m : FlatMemory) (a v : Word) : SameOutside a m (m.write32 a v) :=
  sameOutside_write16 m a _ _

end FlatMemory

end GbaStation
