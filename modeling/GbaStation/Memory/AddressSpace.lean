import GbaStation.Common.Segments
import GbaStation.Memory.VMManager

/-!
# The address space behind the map of areas

Virtual memory areas are segments of the address line: each gives every address it covers
a type, permissions, a state and, when backed, a host pointer (`PageAttr`). This file
connects the map operations of `VMManager` to the operations on tilings:

- a well-formed map is `keyed vs` for a tiling `vs` of `[0, maxAddress)`;
- `splitVMA` cuts an area, `mergeAdjacent` absorbs the right neighbour and pushes the
  result onto the areas to the left, `updateLoop` is a sweep;
- `carveVMA` and `carveVMARange` divide the tiling at the ends of the range.
-/

namespace GbaStation.Memory

open Kernel (Result)
open Segment
open VMManager (unmapped)

/-- What the address space says about one address. -/
structure PageAttr where
  type : VMAType := .free
  permissions : VMAPermission := VMAPermission.none
  meminfoState : MemoryState := .free
  /-- The host address that backs it. -/
  pointer : Option Nat := none
deriving DecidableEq, Repr

namespace VirtualMemoryArea

/-- What an area says about an address it covers. -/
def pageAttr (v : VirtualMemoryArea) (a : Nat) : PageAttr where
  type := v.type
  permissions := v.permissions
  meminfoState := v.meminfoState
  pointer :=
    match v.type with
    | .free => none
    | .backingMemory => some (v.backingMemory.getPtr + (a - v.base))

instance : Segment VirtualMemoryArea PageAttr where
  base := VirtualMemoryArea.base
  size := VirtualMemoryArea.size
  attr := pageAttr
  Merges := Mergeable
  decMerges := fun _ _ => inferInstance
  glue p n := { p with size := p.size + n.size }

theorem base_def (v : VirtualMemoryArea) : Segment.base v = v.base := rfl
theorem size_def (v : VirtualMemoryArea) : Segment.size v = v.size := rfl
theorem attr_def (v : VirtualMemoryArea) (a : Nat) : Segment.attr v a = v.pageAttr a := rfl
theorem merges_def (p n : VirtualMemoryArea) : Segment.Merges p n ↔ p.Mergeable n := Iff.rfl
theorem glue_def (p n : VirtualMemoryArea) :
    Segment.glue p n = { p with size := p.size + n.size } := rfl

instance : Segment.Lawful VirtualMemoryArea where
  base_glue _ _ := rfl
  size_glue _ _ := rfl
  attr_glue_left _ _ _ := rfl
  attr_glue_right p n a hm hadj ha := by
    obtain ⟨hp, hs, ht, hb⟩ := hm
    have hadj' : p.base + p.size = n.base := hadj
    have ha' : n.base ≤ a := ha
    show pageAttr { p with size := p.size + n.size } a = pageAttr n a
    unfold pageAttr
    simp only [hp, hs, ht]
    cases hn : n.type with
    | free => rfl
    | backingMemory =>
      have := hb (ht.trans hn)
      simp only [PageAttr.mk.injEq, true_and, Option.some.injEq]
      omega
  merges_glue_left p n x hm := by
    obtain ⟨hp, hs, ht, hb⟩ := hm
    show Mergeable { p with size := p.size + n.size } x ↔ Mergeable n x
    unfold Mergeable
    simp only [hp, hs, ht]
    refine and_congr_right fun _ => and_congr_right fun _ => and_congr_right fun _ => ?_
    refine imp_congr_right fun hn => ?_
    have := hb (ht.trans hn)
    omega
  merges_glue_right _ _ _ := Iff.rfl

/-- The two parts `SplitVMA` makes of an area. -/
theorem cut {v : VirtualMemoryArea} {off : Nat} {r : MemoryRef} (h0 : 0 < off)
    (hlt : off < v.size) (hr : v.type = .backingMemory → v.backingMemory.advance off = some r) :
    Cut v (v.base + off) { v with size := off }
      { v with base := v.base + off, size := v.size - off, backingMemory := r } where
  base_left := rfl
  base_right := rfl
  end_left := rfl
  end_right := by
    show v.base + off + (v.size - off) = v.base + v.size
    omega
  inside := by
    show v.base < v.base + off ∧ v.base + off < v.base + v.size
    omega
  attr_left _ := rfl
  attr_right a ha := by
    show pageAttr _ a = pageAttr v a
    unfold pageAttr
    cases ht : v.type with
    | free => rfl
    | backingMemory =>
      have := MemoryRef.getPtr_advance (hr ht)
      simp only [PageAttr.mk.injEq, true_and, Option.some.injEq]
      omega
  merges := ⟨rfl, rfl, rfl, fun ht => (MemoryRef.getPtr_advance (hr ht)).symm⟩
  merges_left _ := Iff.rfl
  merges_right n := by
    show Mergeable _ n ↔ Mergeable v n
    refine and_congr_right fun _ => and_congr_right fun _ => and_congr_right fun _ => ?_
    refine imp_congr_right fun ht => ?_
    have := MemoryRef.getPtr_advance (hr ht)
    show r.getPtr + (v.size - off) = _ ↔ _
    omega

/-- What a cut says about the fields of its right part. -/
theorem fields_of_cut {v l r : VirtualMemoryArea} {mid : Nat} (h : Cut v mid l r) :
    r.type = v.type ∧ r.permissions = v.permissions ∧ r.meminfoState = v.meminfoState ∧
      (v.type = .backingMemory →
        r.backingMemory.getPtr + r.size = v.backingMemory.getPtr + v.size) := by
  have hattr := h.attr_right mid (Nat.le_refl mid)
  have hb : r.base = mid := h.base_right
  have he : r.base + r.size = v.base + v.size := h.end_right
  have hin : v.base < mid ∧ mid < v.base + v.size := h.inside
  simp only [attr_def, pageAttr, PageAttr.mk.injEq] at hattr
  obtain ⟨ht, hp, hs, hptr⟩ := hattr
  refine ⟨ht, hp, hs, fun hv => ?_⟩
  rw [ht] at hptr
  simp only [hv, Option.some.injEq] at hptr
  omega

end VirtualMemoryArea

open VirtualMemoryArea

/-! ## The three rewrites of an area -/

namespace PageAttr

/-- `Unmap` at one address. -/
def unmapped (_ : PageAttr) : PageAttr := {}

/-- `Reprotect` at one address. -/
def reprotected (newPerms : VMAPermission) (p : PageAttr) : PageAttr :=
  { p with permissions := newPerms }

/-- `ChangeMemoryState` at one address. -/
def stateChanged (newState : MemoryState) (newPerms : VMAPermission) (p : PageAttr) : PageAttr :=
  { p with permissions := newPerms, meminfoState := newState }

end PageAttr

theorem unmapped_update : Update unmapped PageAttr.unmapped where
  base_upd _ := rfl
  size_upd _ := rfl
  attr_upd _ _ := rfl
  absorbed x n a hm := by
    obtain ⟨hp, hs, ht, -⟩ := hm
    have ht' : n.type = .free := ht.symm
    show ({} : PageAttr) = pageAttr n a
    unfold pageAttr
    rw [← hp, ← hs, ht']
    rfl
  absorbed_merges x n y hm := by
    obtain ⟨hp, hs, ht, -⟩ := hm
    have ht' : n.type = .free := ht.symm
    show Mergeable (unmapped n) y ↔ Mergeable n y
    unfold Mergeable
    rw [← hp, ← hs, ht']
    simp [unmapped]
  merges_cut _ _ _ _ _ n := by
    show Mergeable (unmapped _) n ↔ Mergeable (unmapped _) n
    simp [Mergeable, unmapped]

theorem reprotected_update (newPerms : VMAPermission) :
    Update (VMManager.reprotected newPerms) (PageAttr.reprotected newPerms) where
  base_upd _ := rfl
  size_upd _ := rfl
  attr_upd _ _ := rfl
  absorbed x n a hm := by
    obtain ⟨hp, -⟩ := hm
    have hp' : newPerms = n.permissions := hp
    show PageAttr.reprotected newPerms (pageAttr n a) = pageAttr n a
    rw [hp']
    rfl
  absorbed_merges x n y hm := by
    obtain ⟨hp, -⟩ := hm
    have hp' : newPerms = n.permissions := hp
    rw [hp']
    exact Iff.rfl
  merges_cut v mid l r hc n := by
    obtain ⟨ht, -, hs, hptr⟩ := fields_of_cut hc
    show Mergeable _ n ↔ Mergeable _ n
    unfold Mergeable VMManager.reprotected
    simp only [ht, hs]
    refine and_congr_right fun _ => and_congr_right fun _ => and_congr_right fun _ => ?_
    exact imp_congr_right fun hv => by rw [hptr hv]

theorem stateChanged_update (newState : MemoryState) (newPerms : VMAPermission) :
    Update (VMManager.stateChanged newState newPerms)
      (PageAttr.stateChanged newState newPerms) where
  base_upd _ := rfl
  size_upd _ := rfl
  attr_upd _ _ := rfl
  absorbed x n a hm := by
    obtain ⟨hp, hs, -⟩ := hm
    have hp' : newPerms = n.permissions := hp
    have hs' : newState = n.meminfoState := hs
    show PageAttr.stateChanged newState newPerms (pageAttr n a) = pageAttr n a
    rw [hp', hs']
    rfl
  absorbed_merges x n y hm := by
    obtain ⟨hp, hs, -⟩ := hm
    have hp' : newPerms = n.permissions := hp
    have hs' : newState = n.meminfoState := hs
    rw [hp', hs']
    exact Iff.rfl
  merges_cut v mid l r hc n := by
    obtain ⟨ht, -, -, hptr⟩ := fields_of_cut hc
    show Mergeable _ n ↔ Mergeable _ n
    unfold Mergeable VMManager.stateChanged
    simp only [ht]
    refine and_congr_right fun _ => and_congr_right fun _ => and_congr_right fun _ => ?_
    exact imp_congr_right fun hv => by rw [hptr hv]

end GbaStation.Memory
