import Mathlib.Logic.Function.Basic
import GbaStation.Common.Word

/-!
# A paged memory of bytes

Bytes behind virtual addresses, some pages of which are mapped. A read of a page that is not mapped
is zero and a write to it is lost. Words are little-endian.
-/

namespace GbaStation

abbrev Byte := BitVec 8

/-- A memory, by address and by page number. -/
structure PagedMemory where
  bytes : Nat → Byte
  mapped : Nat → Bool

namespace PagedMemory

def pageSize : Nat := 0x1000

def read8 (m : PagedMemory) (a : Nat) : Byte := if m.mapped (a / pageSize) then m.bytes a else 0

def write8 (m : PagedMemory) (a : Nat) (v : Byte) : PagedMemory :=
  if m.mapped (a / pageSize) then { m with bytes := Function.update m.bytes a v } else m

def read32 (m : PagedMemory) (a : Nat) : Nat :=
  (m.read8 a).toNat + 2 ^ 8 * ((m.read8 (a + 1)).toNat +
    2 ^ 8 * ((m.read8 (a + 2)).toNat + 2 ^ 8 * (m.read8 (a + 3)).toNat))

def write32 (m : PagedMemory) (a v : Nat) : PagedMemory :=
  (((m.write8 a (.ofNat 8 v)).write8 (a + 1) (.ofNat 8 (v / 2 ^ 8))).write8 (a + 2)
    (.ofNat 8 (v / 2 ^ 16))).write8 (a + 3) (.ofNat 8 (v / 2 ^ 24))

/-- The bytes that are written one after the other. -/
def writeAll (m : PagedMemory) (writes : List (Nat × Byte)) : PagedMemory :=
  writes.foldl (fun m w => m.write8 w.1 w.2) m

/-- Whether an address is in a page of the range `[start, start + size)`. -/
def inPages (start size page : Nat) : Bool :=
  start / pageSize ≤ page && page < (start + size) / pageSize

/-- The pages of a range are mapped, with the bytes of `image` behind them. -/
def map (m : PagedMemory) (start size : Nat) (image : Nat → Byte) : PagedMemory where
  bytes a := if inPages start size (a / pageSize) then image (a - start) else m.bytes a
  mapped page := inPages start size page || m.mapped page

/-- The pages of a range are unmapped. -/
def unmap (m : PagedMemory) (start size : Nat) : PagedMemory :=
  { m with mapped := fun page => !inPages start size page && m.mapped page }

variable {m : PagedMemory} {a b v : Nat}

/-! ## Writes -/

@[simp] theorem mapped_write8 (w : Byte) : (m.write8 a w).mapped = m.mapped := by
  unfold write8
  split <;> rfl

@[simp] theorem mapped_write32 : (m.write32 a v).mapped = m.mapped := by simp [write32]

@[simp] theorem mapped_writeAll (writes : List (Nat × Byte)) :
    (m.writeAll writes).mapped = m.mapped := by
  unfold writeAll
  induction writes generalizing m with
  | nil => rfl
  | cons w writes ih => rw [List.foldl_cons, ih, mapped_write8]

theorem read8_write8_self (h : m.mapped (a / pageSize) = true) (w : Byte) :
    (m.write8 a w).read8 a = w := by
  unfold read8
  rw [mapped_write8, if_pos h]
  simp [write8, h]

theorem read8_write8_of_ne (h : b ≠ a) (w : Byte) : (m.write8 a w).read8 b = m.read8 b := by
  unfold read8
  rw [mapped_write8]
  by_cases hm : m.mapped (a / pageSize) = true
  · simp [write8, hm, Function.update_of_ne h]
  · simp [write8, hm]

theorem read32_write8_of_ne (w : Byte) (h : a < b ∨ b + 4 ≤ a) :
    (m.write8 a w).read32 b = m.read32 b := by
  unfold read32
  rw [read8_write8_of_ne (by omega), read8_write8_of_ne (by omega), read8_write8_of_ne (by omega),
    read8_write8_of_ne (by omega)]

/-- A word does not change when the bytes that are written are others. -/
theorem read32_writeAll {writes : List (Nat × Byte)} (h : ∀ w ∈ writes, w.1 < b ∨ b + 4 ≤ w.1) :
    (m.writeAll writes).read32 b = m.read32 b := by
  unfold writeAll
  induction writes generalizing m with
  | nil => rfl
  | cons w writes ih =>
    rw [List.foldl_cons, ih fun w' hw' => h w' (List.mem_cons_of_mem _ hw')]
    exact read32_write8_of_ne w.2 (h w List.mem_cons_self)

theorem read32_write32_of_ne (h : a + 4 ≤ b ∨ b + 4 ≤ a) :
    (m.write32 a v).read32 b = m.read32 b := by
  unfold write32
  rw [read32_write8_of_ne _ (by omega), read32_write8_of_ne _ (by omega),
    read32_write8_of_ne _ (by omega), read32_write8_of_ne _ (by omega)]

/-- A word that is written in a mapped page is read back. -/
theorem read32_write32_self (h : m.mapped (a / pageSize) = true)
    (hin : a % pageSize + 4 ≤ pageSize) :
    (m.write32 a v).read32 a = v % 2 ^ 32 := by
  have hpage : ∀ i < 4, (a + i) / pageSize = a / pageSize := by
    intro i hi
    unfold pageSize at *
    omega
  have h1 := hpage 1 (by omega)
  have h2 := hpage 2 (by omega)
  have h3 := hpage 3 (by omega)
  unfold read32 write32
  -- each byte is the last one written to its address
  rw [read8_write8_of_ne (b := a) (by omega), read8_write8_of_ne (b := a) (by omega),
    read8_write8_of_ne (b := a) (by omega), read8_write8_self h,
    read8_write8_of_ne (b := a + 1) (by omega), read8_write8_of_ne (b := a + 1) (by omega),
    read8_write8_self (by simpa [h1] using h), read8_write8_of_ne (b := a + 2) (by omega),
    read8_write8_self (by simpa [h2] using h), read8_write8_self (by simpa [h3] using h)]
  simp only [BitVec.toNat_ofNat]
  omega

theorem read32_lt : m.read32 a < 2 ^ 32 := by
  unfold read32
  have h0 := (m.read8 a).isLt
  have h1 := (m.read8 (a + 1)).isLt
  have h2 := (m.read8 (a + 2)).isLt
  have h3 := (m.read8 (a + 3)).isLt
  omega

/-! ## Mapping -/

/-- A word that lies in one page is the bytes of that page. -/
theorem read32_congr {m' : PagedMemory} (hin : b % pageSize + 4 ≤ pageSize)
    (h : ∀ a, a / pageSize = b / pageSize → m'.read8 a = m.read8 a) :
    m'.read32 b = m.read32 b := by
  have hpage : ∀ i < 4, m'.read8 (b + i) = m.read8 (b + i) := by
    intro i hi
    apply h
    unfold pageSize at *
    omega
  unfold read32
  rw [h b rfl, hpage 1 (by omega), hpage 2 (by omega), hpage 3 (by omega)]

theorem read32_map {start size : Nat} {image : Nat → Byte} (hin : b % pageSize + 4 ≤ pageSize)
    (h : inPages start size (b / pageSize) = false) :
    (m.map start size image).read32 b = m.read32 b := by
  refine read32_congr hin fun a ha => ?_
  simp [read8, map, ha, h]

theorem read32_unmap {start size : Nat} (hin : b % pageSize + 4 ≤ pageSize)
    (h : inPages start size (b / pageSize) = false) :
    (m.unmap start size).read32 b = m.read32 b := by
  refine read32_congr hin fun a ha => ?_
  simp [read8, unmap, ha, h]

end PagedMemory

end GbaStation
