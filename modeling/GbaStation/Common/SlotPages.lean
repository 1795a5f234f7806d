import Mathlib.Data.List.Basic

/-!
# Pages of slots

A vector of pages, each with a bit set of the slots that are in use. A slot is found by looking for
the first page that is not full, and in it for the first bit that is clear.
-/

namespace GbaStation.SlotPages

variable {w : Nat}

/-- The slot is in use. -/
def isSet (pages : List (BitVec w)) (page slot : Nat) : Bool :=
  (pages.getD page 0).getLsbD slot

/-- The first page that is not full, and its first slot that is not in use. -/
def firstFree (pages : List (BitVec w)) : Option (Nat × Nat) :=
  (pages.findIdx? (· ≠ BitVec.allOnes w)).map fun page =>
    (page, (List.range w).findIdx fun slot => !isSet pages page slot)

/-- `set` of a bit. -/
def use (pages : List (BitVec w)) (page slot : Nat) : List (BitVec w) :=
  pages.modify page (· ||| 1#w <<< slot)

/-- `reset` of a bit. -/
def free (pages : List (BitVec w)) (page slot : Nat) : List (BitVec w) :=
  pages.modify page (· &&& ~~~(1#w <<< slot))

variable {pages : List (BitVec w)} {page slot i b : Nat}

@[simp] theorem length_use : (use pages page slot).length = pages.length :=
  List.length_modify _ _ _

@[simp] theorem length_free : (free pages page slot).length = pages.length :=
  List.length_modify _ _ _

/-- A slot that is in use is a slot of a page. -/
theorem inside_of_isSet (h : isSet pages i b = true) : i < pages.length ∧ b < w := by
  rw [isSet, List.getD_eq_getElem?_getD] at h
  by_cases hi : i < pages.length
  · exact ⟨hi, BitVec.lt_of_getLsbD h⟩
  · rw [List.getElem?_eq_none (Nat.le_of_not_lt hi)] at h
    simp at h

/-- A page that is not full has a bit that is clear. -/
theorem exists_clear {x : BitVec w} (h : x ≠ BitVec.allOnes w) :
    ∃ slot < w, x.getLsbD slot = false := by
  by_contra hall
  push Not at hall
  refine h (BitVec.eq_of_getLsbD_eq fun slot hslot => ?_)
  rw [BitVec.getLsbD_allOnes, decide_eq_true hslot]
  exact (Bool.not_eq_false _).mp (hall slot hslot)

theorem firstFree_spec (h : firstFree pages = some (page, slot)) :
    page < pages.length ∧ slot < w ∧ isSet pages page slot = false := by
  obtain ⟨page', hpage, heq⟩ := Option.map_eq_some_iff.mp h
  obtain ⟨rfl, rfl⟩ := Prod.mk.inj heq
  obtain ⟨hlt, hfull, -⟩ := List.findIdx?_eq_some_iff_getElem.mp hpage
  have hnot : pages[page'] ≠ BitVec.allOnes w := of_decide_eq_true hfull
  obtain ⟨b, hb, hclear⟩ := exists_clear hnot
  have hget : pages.getD page' 0 = pages[page'] := by
    rw [List.getD_eq_getElem?_getD, List.getElem?_eq_getElem hlt]
    rfl
  have hexists : (List.range w).findIdx (fun slot => !isSet pages page' slot) <
      (List.range w).length := by
    refine List.findIdx_lt_length_of_exists ⟨b, List.mem_range.mpr hb, ?_⟩
    rw [isSet, hget, hclear]
    rfl
  have hfound := @List.findIdx_getElem _ (fun slot => !isSet pages page' slot) _ hexists
  rw [List.getElem_range] at hfound
  rw [List.length_range] at hexists
  exact ⟨hlt, hexists, by simpa using hfound⟩

/-- No slot is found exactly when every page is full. -/
theorem firstFree_eq_none : firstFree pages = none ↔ ∀ x ∈ pages, x = BitVec.allOnes w := by
  rw [firstFree, Option.map_eq_none_iff, List.findIdx?_eq_none_iff]
  simp

theorem getD_modify (f : BitVec w → BitVec w) (hpage : page < pages.length) :
    (pages.modify page f).getD i 0 =
      if i = page then f (pages.getD page 0) else pages.getD i 0 := by
  rw [List.getD_eq_getElem?_getD, List.getElem?_modify, List.getD_eq_getElem?_getD,
    List.getD_eq_getElem?_getD]
  split_ifs with heq hi hi
  · rw [hi, List.getElem?_eq_getElem hpage]
    rfl
  · exact absurd heq.symm hi
  · exact absurd hi.symm heq
  · rw [id_map']

theorem getLsbD_bit : (1#w <<< slot).getLsbD b = (decide (b = slot) && decide (b < w)) := by
  rw [BitVec.getLsbD_shiftLeft]
  by_cases hb : b < w
  · by_cases hslot : b < slot
    · simp [hb, hslot, Nat.ne_of_lt hslot]
    · have hone : (1#w).getLsbD (b - slot) = decide (b - slot = 0) := by
        rw [BitVec.getLsbD_one]
        simp
        omega
      rw [hone]
      simp [hb, hslot]
      omega
  · simp [hb]

/-- The slot is in use after it is set, and nothing else changes. -/
theorem isSet_use (hpage : page < pages.length) (hslot : slot < w) :
    isSet (use pages page slot) i b = true ↔
      isSet pages i b = true ∨ i = page ∧ b = slot := by
  rw [isSet, use, getD_modify _ hpage]
  split_ifs with hi
  · rw [BitVec.getLsbD_or, getLsbD_bit, hi, isSet]
    simp only [Bool.or_eq_true, Bool.and_eq_true, decide_eq_true_eq, true_and]
    exact or_congr_right ⟨And.left, fun h => ⟨h, h ▸ hslot⟩⟩
  · rw [isSet]
    simp [hi]

/-- The slot is not in use after it is reset, and nothing else changes. -/
theorem isSet_free (hpage : page < pages.length) :
    isSet (free pages page slot) i b = true ↔
      isSet pages i b = true ∧ ¬(i = page ∧ b = slot) := by
  rw [isSet, free, getD_modify _ hpage]
  split_ifs with hi
  · rw [BitVec.getLsbD_and, BitVec.getLsbD_not, getLsbD_bit, hi, isSet]
    simp only [Bool.and_eq_true, Bool.not_eq_true', decide_eq_true_eq, true_and]
    refine and_congr_right fun hset => ?_
    have hb := BitVec.lt_of_getLsbD hset
    simp [hb]
  · rw [isSet]
    simp [hi]

/-- A new page of which the first slot is in use. -/
theorem isSet_snoc (hw : 0 < w) :
    isSet (pages ++ [1#w]) i b = true ↔
      isSet pages i b = true ∨ i = pages.length ∧ b = 0 := by
  rw [isSet, isSet, List.getD_eq_getElem?_getD, List.getD_eq_getElem?_getD]
  by_cases hi : i < pages.length
  · rw [List.getElem?_append_left hi]
    exact (or_iff_left fun h => Nat.lt_irrefl _ (h.1 ▸ hi)).symm
  · rw [List.getElem?_eq_none (Nat.le_of_not_lt hi),
      List.getElem?_append_right (Nat.le_of_not_lt hi)]
    by_cases heq : i = pages.length
    · rw [heq, Nat.sub_self]
      simp [BitVec.getLsbD_one, hw]
    · rw [List.getElem?_eq_none (by simp; omega)]
      simp [heq]

end GbaStation.SlotPages
