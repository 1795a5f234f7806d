import Mathlib.Data.List.Basic
import Mathlib.Data.List.Nodup

/-!
# Vectors of slots (`common/slot_vector.h`)

A vector whose elements keep their index until they are erased: the indices of erased elements go
to a free list, and the one that was freed last is used again first. Nothing is checked: erasing an
element twice puts its index on the free list twice, so `SlotVector.Ok` is an invariant of its users
and not part of the type.
-/

namespace GbaStation

universe u

structure SlotVector (α : Type u) where
  values : List (Option α) := []
  /-- The indices to use, with the back of the vector first. -/
  freeList : List Nat := []

namespace SlotVector

variable {α : Type u} (v : SlotVector α)

/-- The object of a slot. -/
def get (i : Nat) : Option α := v.values.getD i none

/-- The number of slots by which `Reserve` doubles the capacity. -/
def growth : Nat := if v.values.length = 0 then 1 else v.values.length

/-- `Reserve`. -/
def reserve : SlotVector α where
  values := v.values ++ List.replicate v.growth none
  freeList := (List.range' v.values.length v.growth).reverse ++ v.freeList

/-- `FreeValueIndex`. -/
def freeValueIndex : Nat × SlotVector α :=
  let v := if v.freeList.isEmpty then v.reserve else v
  (v.freeList.headD 0, { v with freeList := v.freeList.tail })

/-- `insert`. -/
def insert (x : α) : Nat × SlotVector α :=
  let (i, v) := v.freeValueIndex
  (i, { v with values := v.values.set i (some x) })

/-- A change of the object of a slot. -/
def modify (i : Nat) (f : α → α) : SlotVector α :=
  { v with values := v.values.modify i (Option.map f) }

/-- The indices on the free list are those of different empty slots. -/
structure Ok : Prop where
  nodup : v.freeList.Nodup
  free : ∀ i ∈ v.freeList, v.values[i]? = some none

variable {v}

theorem ok_empty : (⟨[], []⟩ : SlotVector α).Ok := ⟨List.nodup_nil, by simp⟩

/-! ## Changes -/

theorem get_modify (i : Nat) (f : α → α) (j : Nat) :
    (v.modify i f).get j = if j = i then (v.get i).map f else v.get j := by
  unfold get modify
  simp only [List.getD_eq_getElem?_getD, List.getElem?_modify]
  by_cases h : j = i
  · subst h
    cases v.values[j]? <;> simp
  · simp [Ne.symm h, h]

/-! ## Inserting -/

theorem get_reserve (i : Nat) : v.reserve.get i = v.get i := by
  unfold get reserve
  simp only [List.getD_eq_getElem?_getD, List.getElem?_append]
  split_ifs with h
  · rfl
  · have hnone := List.getElem?_eq_none (Nat.le_of_not_lt h)
    rw [hnone, List.getElem?_replicate]
    by_cases hlt : i - v.values.length < v.growth <;> simp [hlt]

theorem reserve_ok (hempty : v.freeList = []) :
    v.reserve.Ok ∧ v.reserve.freeList ≠ [] := by
  have hlist : v.reserve.freeList = (List.range' v.values.length v.growth).reverse := by
    simp [SlotVector.reserve, hempty]
  refine ⟨⟨?_, fun i hi => ?_⟩, ?_⟩
  · rw [hlist]
    exact List.nodup_reverse.mpr List.nodup_range'
  · rw [hlist, List.mem_reverse, List.mem_range'_1] at hi
    show (v.values ++ List.replicate v.growth none)[i]? = some none
    rw [List.getElem?_append_right hi.1, List.getElem?_replicate, if_pos (by omega)]
  · have hgrowth : v.growth ≠ 0 := by
      unfold growth
      split_ifs with h0
      · exact Nat.one_ne_zero
      · exact h0
    simpa [hlist] using hgrowth

/-- The index that is used next is that of an empty slot, and is not used twice. -/
theorem Ok.freeValueIndex (h : v.Ok) :
    v.freeValueIndex.2.Ok ∧ (∀ i, v.freeValueIndex.2.get i = v.get i) ∧
      v.freeValueIndex.2.values[v.freeValueIndex.1]? = some none ∧
      v.freeValueIndex.1 ∉ v.freeValueIndex.2.freeList := by
  have hpop : ∀ {w : SlotVector α}, w.Ok → w.freeList ≠ [] →
      (⟨w.values, w.freeList.tail⟩ : SlotVector α).Ok ∧
        w.values[w.freeList.headD 0]? = some none ∧ w.freeList.headD 0 ∉ w.freeList.tail := by
    intro w hw hne
    cases hl : w.freeList with
    | nil => exact absurd hl hne
    | cons i rest =>
      have hnodup := hw.nodup
      rw [hl] at hnodup
      obtain ⟨hi, hrest⟩ := List.nodup_cons.mp hnodup
      exact ⟨⟨hrest, fun j hj => hw.free j (hl ▸ List.mem_cons_of_mem i hj)⟩,
        hw.free i (hl ▸ List.mem_cons_self ..), hi⟩
  unfold SlotVector.freeValueIndex
  cases hl : v.freeList with
  | nil =>
    obtain ⟨hok, hne⟩ := reserve_ok hl
    obtain ⟨hok', hhead, hnot⟩ := hpop hok hne
    exact ⟨hok', fun i => get_reserve i, hhead, hnot⟩
  | cons i rest =>
    obtain ⟨hok', hhead, hnot⟩ := hpop h (by rw [hl]; exact List.cons_ne_nil i rest)
    rw [hl] at hok' hhead hnot
    simp only [List.isEmpty_cons, Bool.false_eq_true, if_false, hl]
    exact ⟨hok', fun _ => rfl, hhead, hnot⟩

/-- An element gets the index of an empty slot; the other slots are as before. -/
theorem Ok.insert (h : v.Ok) (x : α) :
    (v.insert x).2.Ok ∧ v.get (v.insert x).1 = none ∧
      ∀ j, (v.insert x).2.get j = if j = (v.insert x).1 then some x else v.get j := by
  obtain ⟨hok, hget, hfree, hnot⟩ := h.freeValueIndex
  have hlt : v.freeValueIndex.1 < v.freeValueIndex.2.values.length :=
    (List.getElem?_eq_some_iff.mp hfree).1
  refine ⟨⟨hok.nodup, fun j hj => ?_⟩, ?_, fun j => ?_⟩
  · show (v.freeValueIndex.2.values.set v.freeValueIndex.1 (some x))[j]? = some none
    have hne : v.freeValueIndex.1 ≠ j := fun heq => hnot (heq ▸ hj)
    rw [List.getElem?_set, if_neg hne]
    exact hok.free j hj
  · show v.get v.freeValueIndex.1 = none
    rw [← hget, get, List.getD_eq_getElem?_getD, hfree]
    rfl
  · show (v.freeValueIndex.2.values.set v.freeValueIndex.1 (some x)).getD j none =
      if j = v.freeValueIndex.1 then some x else v.get j
    rw [List.getD_eq_getElem?_getD, List.getElem?_set]
    by_cases heq : v.freeValueIndex.1 = j
    · rw [if_pos heq, if_pos (heq ▸ hlt), if_pos heq.symm]
      rfl
    · rw [if_neg heq, if_neg (Ne.symm heq), ← hget j, get, List.getD_eq_getElem?_getD]

end SlotVector

end GbaStation
