import Mathlib.Data.List.Basic
import Mathlib.Data.Nat.ModEq
import Mathlib.Logic.Function.Basic

/-!
# A log in a ring of cells

The elements of a log are put in the cells of a ring one after the other, each in the place that
its number is congruent to. A cell is used again when the element in it is not needed any more.
-/

namespace GbaStation.RingCells

variable {α : Type} {cells : Nat → α} {size : Nat} {log : List α}

/-- `a - b` in `size_t`. -/
def sub64 (a b : Nat) : Nat := (a + (2 ^ 64 - b % 2 ^ 64)) % 2 ^ 64

variable {a j pos : Nat} {xs : List α}

/-- Two indices that are not far apart keep their difference. -/
theorem sub64_mod {b : Nat} (hle : b ≤ a) (hlt : a < b + 2 ^ 64) :
    sub64 (a % 2 ^ 64) (b % 2 ^ 64) = a - b := by
  unfold sub64
  omega

/-- A size that divides 2^64 gives the same place for an index and its last 64 bits. -/
theorem mod_of_mod64 {bits : Nat} (hbits : bits ≤ 64) (a : Nat) :
    a % 2 ^ 64 % 2 ^ bits = a % 2 ^ bits :=
  Nat.mod_mod_of_dvd a (Nat.pow_dvd_pow 2 hbits)

/-- Numbers that are less than a turn apart have different places. -/
theorem place_ne {b : Nat} (hlt : a < b) (hturn : b < a + size) : a % size ≠ b % size := by
  intro heq
  have hdvd : size ∣ b - a := (Nat.modEq_iff_dvd' hlt.le).mp heq
  have := Nat.le_of_dvd (by omega) hdvd
  omega

/-- The place of a number that is `j` further, before the end of the ring. -/
theorem place_add (h : a % size + j < size) : (a + j) % size = a % size + j := by
  rw [← Nat.mod_add_mod, Nat.mod_eq_of_lt h]

/-- The place of a number that is `j` further, behind the end of the ring. -/
theorem place_wrap (h : size ≤ a % size + j) (hlt : a % size + j < size + size) :
    (a + j) % size = a % size + j - size := by
  rw [← Nat.mod_add_mod, Nat.mod_eq_sub_mod h, Nat.mod_eq_of_lt (by omega)]

/-! ## What the cells hold -/

/-- The cells hold the elements of a log from number `lo` on. -/
def Holds (cells : Nat → α) (size : Nat) (log : List α) (lo : Nat) : Prop :=
  ∀ i x, lo ≤ i → log[i]? = some x → cells (i % size) = x

theorem Holds.mono {lo lo' : Nat} (h : Holds cells size log lo) (hle : lo ≤ lo') :
    Holds cells size log lo' :=
  fun i x hi hx => h i x (Nat.le_trans hle hi) hx

/-- More elements, which are in the cells already. -/
theorem Holds.append {lo : Nat} {xs : List α} (h : Holds cells size log lo)
    (hxs : ∀ j x, xs[j]? = some x → cells ((log.length + j) % size) = x) :
    Holds cells size (log ++ xs) lo := by
  intro i x hi hx
  by_cases hlt : i < log.length
  · rw [List.getElem?_append_left hlt] at hx
    exact h i x hi hx
  · rw [List.getElem?_append_right (by omega)] at hx
    have := hxs (i - log.length) x hx
    rwa [show log.length + (i - log.length) = i by omega] at this

/-- Cells that are free for the numbers from the end of the log to a turn after `lo` may change. -/
theorem Holds.congr {lo : Nat} {cells' : Nat → α} (h : Holds cells size log lo)
    (hsame : ∀ i, lo ≤ i → i < log.length → cells' (i % size) = cells (i % size)) :
    Holds cells' size log lo := by
  intro i x hi hx
  obtain ⟨hlt, -⟩ := List.getElem?_eq_some_iff.mp hx
  rw [hsame i hi hlt]
  exact h i x hi hx

/-! ## Copies -/

/-- `memcpy` to consecutive cells. -/
def copyInto (cells : Nat → α) (pos : Nat) (xs : List α) : Nat → α := fun i =>
  if pos ≤ i then xs[i - pos]?.getD (cells i) else cells i

/-- `memcpy` from consecutive cells. -/
def copyFrom (cells : Nat → α) (pos count : Nat) : List α :=
  (List.range count).map fun j => cells (pos + j)

theorem copyInto_at {x : α} (h : xs[j]? = some x) : copyInto cells pos xs (pos + j) = x := by
  unfold copyInto
  rw [if_pos (Nat.le_add_right pos j), Nat.add_sub_cancel_left, h]
  rfl

theorem copyInto_off {i : Nat} (h : ∀ j < xs.length, i ≠ pos + j) :
    copyInto cells pos xs i = cells i := by
  unfold copyInto
  split_ifs with hle
  · rw [List.getElem?_eq_none (Nat.not_lt.mp fun hlt => h _ hlt (by omega))]
    rfl
  · rfl

/-- A copy to places of numbers behind the log, less than a turn after `lo`, keeps the log. -/
theorem Holds.copyInto {lo : Nat} (h : Holds cells size log lo)
    (hplace : ∀ j < xs.length, pos + j = (a + j) % size) (hstart : log.length ≤ a)
    (hturn : a + xs.length ≤ lo + size) : Holds (copyInto cells pos xs) size log lo := by
  refine h.congr fun i hi hlt => copyInto_off fun j hj => ?_
  rw [hplace j hj]
  exact place_ne (by omega) (by omega)

/-- A copy from places of numbers of the log. -/
theorem Holds.copyFrom {lo count : Nat} (h : Holds cells size log lo)
    (hplace : ∀ j < count, pos + j = (a + j) % size) (hstart : lo ≤ a)
    (hend : a + count ≤ log.length) : copyFrom cells pos count = (log.drop a).take count := by
  refine List.ext_getElem? fun j => ?_
  by_cases hj : j < count
  · have hlt : a + j < log.length := by omega
    rw [List.getElem?_take_of_lt hj, List.getElem?_drop, List.getElem?_eq_getElem hlt]
    have hcell : cells (pos + j) = log[a + j] := by
      rw [hplace j hj]
      exact h _ _ (by omega) (List.getElem?_eq_getElem hlt)
    show ((List.range count).map _)[j]? = _
    rw [List.getElem?_map, List.getElem?_range hj]
    exact congrArg some hcell
  · have hcount :
        (RingCells.copyFrom cells pos count).length = count := by simp [RingCells.copyFrom]
    rw [List.getElem?_eq_none (by omega), List.getElem?_eq_none]
    rw [List.length_take]
    omega

/-! ## Cells that can be empty -/

/-- The cells of one turn from `lo` hold the elements of the log, and none behind its end. -/
def Window (cells : Nat → Option α) (size : Nat) (log : List α) (lo : Nat) : Prop :=
  ∀ i, lo ≤ i → i < lo + size → cells (i % size) = log[i]?

variable {slots : Nat → Option α} {lo : Nat}

/-- The cell behind the end of the log is empty. -/
theorem Window.empty (h : Window slots size log lo) (hlo : lo ≤ log.length)
    (hroom : log.length < lo + size) : slots (log.length % size) = none := by
  rw [h _ hlo hroom, List.getElem?_eq_none (Nat.le_refl _)]

/-- An element is put in the cell behind the end of the log. -/
theorem Window.put (h : Window slots size log lo) (hlo : lo ≤ log.length)
    (hroom : log.length < lo + size) (x : α) :
    Window (Function.update slots (log.length % size) (some x)) size (log ++ [x]) lo := by
  intro i hi hturn
  by_cases heq : i = log.length
  · subst heq
    rw [Function.update_self, List.getElem?_concat_length]
  · have hne : i % size ≠ log.length % size := by
      rcases Nat.lt_or_gt_of_ne heq with hlt | hgt
      · exact place_ne hlt (by omega)
      · exact (place_ne hgt (by omega)).symm
    rw [Function.update_of_ne hne, h i hi hturn]
    rcases Nat.lt_or_gt_of_ne heq with hlt | hgt
    · rw [List.getElem?_append_left hlt]
    · rw [List.getElem?_eq_none (Nat.le_of_lt hgt), List.getElem?_eq_none]
      rw [List.length_append, List.length_singleton]
      exact hgt

/-- The first element is taken out of its cell. -/
theorem Window.take (h : Window slots size log lo) (hturn : log.length ≤ lo + size) :
    Window (Function.update slots (lo % size) none) size log (lo + 1) := by
  intro i hi hend
  by_cases hlast : i = lo + size
  · subst hlast
    rw [Nat.add_mod_right, Function.update_self, List.getElem?_eq_none hturn]
  · rw [Function.update_of_ne (place_ne (by omega) (by omega)).symm]
    exact h i (by omega) (by omega)

end GbaStation.RingCells
