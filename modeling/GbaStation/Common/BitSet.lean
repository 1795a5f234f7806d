import Mathlib.Data.Finset.Card
import Mathlib.Data.Finset.Range
import GbaStation.Common.Word

/-!
# Words as sets of bits

A bitmask of `w` bits stands for the set of its positions. `mask |= 1 << i` inserts a position and
`mask &= ~(1 << i)` erases one, so that the bits of a mask are counted as a set is.
-/

namespace GbaStation.BitSet

variable {w : Nat} {mask : BitVec w} {i : Nat}

/-- The positions of the bits that are set. -/
def setBits (mask : BitVec w) : Finset Nat := (Finset.range w).filter fun i => mask.getLsbD i

theorem mem_setBits : i ∈ setBits mask ↔ mask.getLsbD i = true := by
  unfold setBits
  rw [Finset.mem_filter, Finset.mem_range]
  constructor
  · intro h
    exact h.2
  · intro h
    exact ⟨BitVec.lt_of_getLsbD h, h⟩

theorem getLsbD_single (j : Nat) : (1#w <<< i).getLsbD j = (decide (j < w) && decide (j = i)) := by
  rw [BitVec.getLsbD_shiftLeft, BitVec.getLsbD_one]
  by_cases hj : j < w <;> by_cases hij : j = i
  · subst hij
    simp [hj]
    omega
  · simp [hj, hij]
    omega
  · simp [hj]
  · simp [hj]

theorem getLsbD_insert (hi : i < w) (j : Nat) :
    (mask ||| 1#w <<< i).getLsbD j = (mask.getLsbD j || decide (j = i)) := by
  rw [BitVec.getLsbD_or, getLsbD_single]
  by_cases hij : j = i
  · subst hij
    simp [hi]
  · simp [hij]

theorem getLsbD_erase (j : Nat) :
    (mask &&& ~~~(1#w <<< i)).getLsbD j = (mask.getLsbD j && !decide (j = i)) := by
  rw [BitVec.getLsbD_and, BitVec.getLsbD_not, getLsbD_single]
  by_cases hj : j < w
  · simp [hj]
  · -- beyond the word every bit is clear
    have : mask.getLsbD j = false := BitVec.getLsbD_of_ge _ _ (by omega)
    simp [this]

theorem card_insert (hi : i < w) (hclear : mask.getLsbD i = false) :
    (setBits (mask ||| 1#w <<< i)).card = (setBits mask).card + 1 := by
  have hset : setBits (mask ||| 1#w <<< i) = insert i (setBits mask) := by
    ext j
    rw [Finset.mem_insert, mem_setBits, mem_setBits, getLsbD_insert hi]
    simp [or_comm]
  rw [hset, Finset.card_insert_of_notMem]
  rw [mem_setBits, hclear]
  exact Bool.false_ne_true

theorem card_erase (hset : mask.getLsbD i = true) :
    (setBits (mask &&& ~~~(1#w <<< i))).card = (setBits mask).card - 1 := by
  have herase : setBits (mask &&& ~~~(1#w <<< i)) = (setBits mask).erase i := by
    ext j
    rw [Finset.mem_erase, mem_setBits, mem_setBits, getLsbD_erase]
    simp [and_comm]
  rw [herase, Finset.card_erase_of_mem (mem_setBits.mpr hset)]

/-- Fewer set bits than positions leave a position clear. -/
theorem exists_clear {n : Nat} (h : (setBits mask).card < n) :
    ∃ i < n, mask.getLsbD i = false := by
  by_contra hall
  have hsub : Finset.range n ⊆ setBits mask := by
    intro i hi
    rw [mem_setBits]
    by_contra hclear
    exact hall ⟨i, Finset.mem_range.mp hi, Bool.eq_false_iff.mpr hclear⟩
  have hcard := Finset.card_le_card hsub
  rw [Finset.card_range] at hcard
  omega

/-- Bits below `n` are at most `n`. -/
theorem card_le {n : Nat} (h : ∀ i, mask.getLsbD i = true → i < n) : (setBits mask).card ≤ n := by
  have hsub : setBits mask ⊆ Finset.range n := by
    intro i hi
    exact Finset.mem_range.mpr (h i (mem_setBits.mp hi))
  have hcard := Finset.card_le_card hsub
  rwa [Finset.card_range] at hcard

end GbaStation.BitSet
