import GbaStation.Kernel.FailedCalls
import GbaStation.Kernel.MappingFrame

/-!
# `Map` and `Unmap`

`Unmap` of what `Map` has mapped gives the address space back as it was: the target is free again,
the source private and readable and writable. It does not undo what `Map` did to a neighbour of the
target, so that the round trip restores the address space exactly if the mapping stood alone.

- `map_unmap_iff`: the round trip.
-/

namespace GbaStation.Kernel

open Memory
open Memory.VMManager (Intact WellFormed pointerAt areas RangeAll Expected Mapped)
open Segment (view)
open VMAPermission (readWrite)

variable {mems : BackingMem → Prop} {ks ks₁ ks₂ : KernelSystem} {target source size : Nat}
  {perms : VMAPermission} {res : Result}

namespace Process

/-- A `Map` that succeeds: the ranges are pages, the target was free, and the target now shows the
bytes of the source. -/
structure MapOutcome (mems : BackingMem → Prop) (target source size : Nat) (perms : VMAPermission)
    (ks ks₁ : KernelSystem) : Prop where
  targetPage : target % pageSize = 0
  sourcePage : source % pageSize = 0
  sizePage : size % pageSize = 0
  nonempty : 0 < size
  sourceInHeap : outsideHeap source size = false
  apart : overlaps target source size = false
  targetInSpace : target + size ≤ maxAddress
  sourceInSpace : source + size ≤ maxAddress
  wellFormed : WellFormed mems ks₁.process.vmManager
  wasFree : RangeAll (fun p => p.type = .free) ks.process.vmManager target (target + size)
  wasPrivate : RangeAll (fun p => Expected .privateMemory readWrite p ∧ Mapped p)
    ks.process.vmManager source (source + size)
  filled : (MappingCall.map target source size perms false).Filled ks ks₁
  framed_iff : (MappingCall.map target source size perms false).Framed ks ks₁ ↔
    (MappingCall.map target source size perms false).Alone ks
  sourceView : (MappingCall.map target source size perms false).Alone ks →
    ∀ a, source ≤ a → a < source + size → view (areas ks₁.process.vmManager.vmaMap) a =
      (view (areas ks.process.vmManager.vmaMap) a).map
        (.stateChanged .aliased readWrite)

theorem map_spec (h : WellFormed mems ks.process.vmManager) (hsrc : source < 2 ^ 32)
    (hsz : size < 2 ^ 32) (hres : res.isSuccess = true)
    (hmap : map target source size perms false ks = some (res, ks₁)) :
    MapOutcome mems target source size perms ks ks₁ := by
  have hlim : maxAddress = 0x40000000 := rfl
  rcases map_inv hmap with
    ⟨hfail, -⟩ | ⟨hpriv, -⟩ | ⟨hheap, hapart, r, vm, hchange, hend⟩
  · exact absurd (hfail.symm.trans hres) nofun
  · cases hpriv
  rcases hend with ⟨hfail, rfl, -⟩ | ⟨hr, e | blocks, hblocks, hend⟩
  · exact absurd (hfail.symm.trans hres) nofun
  · rw [hend.1, VMManager.backingBlocksLoop_error hblocks] at hres
    cases hres
  obtain ⟨-, vm', rfl, hmapped⟩ := hend
  have hheap := hheap rfl
  have hapart : overlaps target source size = false := decide_eq_false hapart
  obtain ⟨hpos, hplaced⟩ : 0 < size ∧ MappingCall.Placed (.map target source size perms false) ks
      (ks.setVMManager vm') vm :=
    MappingCall.placed_map hsrc hsz h.toIntact hr hchange hblocks hmapped
  obtain ⟨-, hsend⟩ := inHeap_of_outsideHeap hheap hsz
  have hheapEnd : heapVAddrEnd = 0x10000000 := rfl
  have hsle : source + size ≤ maxAddress := by omega
  obtain ⟨hvm, -⟩ := VMManager.changeMemoryState_wellFormed h hsrc hsz hchange
  have hexp := VMManager.changeMemoryState_expected h.toIntact hpos hsle hr hchange
  rcases VMManager.changeMemoryState_effect h.toIntact hsrc hsz hchange with ⟨hfail, -⟩ | ⟨-, hrew⟩
  · rw [hfail] at hr
    cases hr
  obtain ⟨hspage, hsize⟩ := VMManager.changeMemoryState_aligned h.isLocked hr hchange
  have hmap₁ : RangeAll Mapped vm source (source + size) := by
    intro a ha hae
    obtain ⟨p, hp, -, hpm⟩ := hexp a ha hae
    rw [hrew.view, if_pos ⟨ha, hae⟩, hp]
    exact ⟨_, rfl, hpm⟩
  obtain ⟨blocks', hblocks', hsound⟩ :=
    VMManager.getBackingBlocksForRange_some hvm hspage hsize hsle hmap₁
  rw [hblocks] at hblocks'
  obtain rfl := Except.ok.inj (Option.some.inj hblocks')
  have htotal := (VMManager.getBackingBlocksForRange_spec hvm.toIntact hsle hblocks).1
  have hne : blocks ≠ [] := by
    rintro rfl
    rw [VMManager.blocksSize_nil] at htotal
    omega
  obtain ⟨htpage, h₁⟩ := mapBlocks_wellFormed hvm (by omega) hsound hmapped
  have htle := ((mapBlocks_mappedAt hvm.toIntact (by omega) hmapped).1 hne).2
  rw [htotal] at htle
  have hout : ∀ {a : Nat}, target ≤ a → a < target + size →
      ¬ (source ≤ a ∧ a < source + size) := fun ha hae hin =>
    apart_of_overlaps hapart (by omega) (by omega) hin.1 hin.2 ⟨ha, hae⟩
  refine ⟨htpage hne, hspage, hsize, hpos, hheap, hapart, htle, hsle, h₁, fun a ha hae => ?_, hexp,
    hplaced.filled, hplaced.framed_iff (fun hin => by cases hin.1), fun halone a ha hae => ?_⟩
  · obtain ⟨p, hp⟩ := Option.isSome_iff_exists.mp
      (h.tiles.view_isSome (Nat.zero_le a) (Nat.lt_of_lt_of_le hae htle))
    exact ⟨p, hp, hplaced.mapped.free a p ha hae ((hplaced.beside a (hout ha hae)).trans hp)⟩
  · rw [hplaced.alone_iff fun hin => by cases hin.1] at halone
    have hlast : (target + size) - target - 1 = size - 1 := by omega
    have hsame : view (areas (ks.setVMManager vm').process.vmManager.vmaMap) a =
        view (areas vm.vmaMap) a := by
      rcases Nat.lt_or_ge a target with hlt | hge
      · exact hplaced.mapped.below (halone.imp_right And.left) a hlt
      · have hge' : target + size ≤ a := by
          by_contra hlt
          exact hout hge (by omega) ⟨ha, hae⟩
        refine hplaced.mapped.above ?_ a hge'
        show _ ∨ ¬ VMManager.ContinuedAfter vm (target + size) _
          ((MappingCall.map target source size perms false).request ks |>.byte
            (target + size - target - 1))
        rw [hlast]
        exact halone.imp_right And.right
    rw [hsame, hrew.view, if_pos ⟨ha, hae⟩]
    rfl

/-- `Unmap` frees a target that is mapped and makes the source private again. -/
theorem unmap_some (perms : VMAPermission) {vm : VMManager} (hvm : ks.process.vmManager = vm)
    (h : WellFormed mems vm) (htpage : target % pageSize = 0) (hspage : source % pageSize = 0)
    (hsize : size % pageSize = 0)
    (hpos : 0 < size) (hheap : outsideHeap source size = false)
    (hapart : overlaps target source size = false) (htle : target + size ≤ maxAddress)
    (hsle : source + size ≤ maxAddress) (hmapped : RangeAll Mapped vm target (target + size))
    (hsource : RangeAll (fun p => Expected .aliased VMAPermission.none p ∧ Mapped p) vm source
      (source + size)) :
    ∃ ks₂, unmap target source size perms false ks = some (Result.success, ks₂) ∧
      ∀ a, view (areas ks₂.process.vmManager.vmaMap) a =
        if source ≤ a ∧ a < source + size then
          (view (areas vm.vmaMap) a).map (.stateChanged .privateMemory perms)
        else if target ≤ a ∧ a < target + size then some {}
        else view (areas vm.vmaMap) a := by
  have hlim : maxAddress = 0x40000000 := rfl
  subst hvm
  have hout : ∀ {a : Nat}, source ≤ a ∧ a < source + size →
      ¬ (target ≤ a ∧ a < target + size) := fun hin =>
    apart_of_overlaps hapart (by omega) (by omega) hin.1 hin.2
  rcases VMManager.unmapRange_some h htpage hsize hpos htle with ⟨hno, -⟩ | ⟨-, vm₁, hunmap, h₁⟩
  · exact absurd hmapped hno
  rcases (VMManager.unmapRange_effect h.toIntact (by omega) (by omega) hunmap).1 with
    ⟨hfail, -⟩ | ⟨-, hrew₁⟩
  · exact absurd hfail (by decide)
  have hview₁ : ∀ a, view (areas vm₁.vmaMap) a =
      if target ≤ a ∧ a < target + size then some {}
      else view (areas ks.process.vmManager.vmaMap) a := by
    intro a
    rw [hrew₁.view]
    refine ite_congr rfl (fun ha => ?_) fun _ => rfl
    obtain ⟨p, hp, -⟩ := hmapped a ha.1 ha.2
    rw [hp]
    rfl
  have hsource₁ : RangeAll (fun p => Expected .aliased VMAPermission.none p ∧ Mapped p) vm₁ source
      (source + size) := by
    intro a ha hae
    rw [hview₁, if_neg (hout ⟨ha, hae⟩)]
    exact hsource a ha hae
  rcases VMManager.changeMemoryState_some h₁ hspage hsize hpos hsle .aliased .privateMemory
    VMAPermission.none perms with ⟨hno, -⟩ | ⟨-, vm₂, hchange, -⟩
  · exact absurd hsource₁ hno
  rcases VMManager.changeMemoryState_effect h₁.toIntact (by omega) (by omega) hchange with
    ⟨hfail, -⟩ | ⟨-, hrew₂⟩
  · exact absurd hfail (by decide)
  refine ⟨ks.setVMManager vm₂, ?_, fun a => ?_⟩
  · unfold unmap
    have hno : ¬ (sub32 source target < size ∨ sub32 target source < size) :=
      of_decide_eq_false hapart
    simp only [Bool.false_eq_true, not_false_eq_true, true_and, if_false, hheap]
    rw [if_neg hno, hunmap]
    simp only [Option.bind_eq_bind, Option.bind_some]
    rw [if_neg (by decide), hchange]
    rfl
  · show view (areas vm₂.vmaMap) a = _
    rw [hrew₂.view]
    refine ite_congr rfl (fun ha => ?_) fun _ => hview₁ a
    rw [hview₁, if_neg (hout ha)]

/-- Whatever `Unmap` returns, it has changed nothing outside its two ranges. -/
theorem unmap_outside (h : Intact ks.process.vmManager) (htg : target < 2 ^ 32)
    (hsrc : source < 2 ^ 32) (hsz : size < 2 ^ 32)
    (hcall : unmap target source size perms false ks = some (res, ks₂)) {a : Nat}
    (ht : ¬ (target ≤ a ∧ a < target + size)) (hs : ¬ (source ≤ a ∧ a < source + size)) :
    view (areas ks₂.process.vmManager.vmaMap) a =
      view (areas ks.process.vmManager.vmaMap) a := by
  unfold unmap at hcall
  simp only [Bool.false_eq_true, not_false_eq_true, true_and, if_false] at hcall
  split at hcall
  · rw [← (returned hcall).2]
  split at hcall
  · rw [← (returned hcall).2]
  obtain ⟨⟨r, vm⟩, hunmap, hcall⟩ := Option.bind_eq_some_iff.mp hcall
  have hvm : Intact vm ∧
      view (areas vm.vmaMap) a = view (areas ks.process.vmManager.vmaMap) a := by
    rcases (VMManager.unmapRange_effect h htg hsz hunmap).1 with ⟨-, rfl⟩ | ⟨-, hrew⟩
    · exact ⟨h, rfl⟩
    · exact ⟨hrew.intact, by rw [hrew.view, if_neg ht]⟩
  split at hcall
  · rw [← (returned hcall).2]
    exact hvm.2
  obtain ⟨⟨r', vm'⟩, hchange, hcall⟩ := Option.bind_eq_some_iff.mp hcall
  rw [← (returned hcall).2]
  rcases VMManager.changeMemoryState_effect hvm.1 hsrc hsz hchange with ⟨-, rfl⟩ | ⟨-, hrew⟩
  · exact hvm.2
  · show view (areas vm'.vmaMap) a = _
    rw [hrew.view, if_neg hs, hvm.2]

/-- The target shows the memory of the source while it is mapped, and `Unmap` gives the address
space back as it was. -/
def RoundTrip (target source size : Nat) (ks ks₁ : KernelSystem) : Prop :=
  (∀ i < size, ∃ p, pointerAt ks₁.process.vmManager (source + i) = some p ∧
      pointerAt ks₁.process.vmManager (target + i) = some p) ∧
    ∃ ks₂, unmap target source size readWrite false ks₁ = some (Result.success, ks₂) ∧
      ∀ a, view (areas ks₂.process.vmManager.vmaMap) a =
        view (areas ks.process.vmManager.vmaMap) a

/-- The round trip of a source that is readable and writable restores the address space exactly if
the mapping stood alone. -/
theorem map_unmap_iff (mems : BackingMem → Prop) (target source size : Nat) (perms : VMAPermission)
    (ks ks₁ : KernelSystem) (res : Result) (h : WellFormed mems ks.process.vmManager)
    (hsrc : source < 2 ^ 32) (hsz : size < 2 ^ 32)
    (hrw : ∀ a p, source ≤ a → a < source + size →
      view (areas ks.process.vmManager.vmaMap) a = some p →
        p.permissions = readWrite)
    (hres : res.isSuccess = true)
    (hmap : map target source size perms false ks = some (res, ks₁)) :
    RoundTrip target source size ks ks₁ ↔
      (MappingCall.map target source size perms false).Alone ks := by
  have hlim : maxAddress = 0x40000000 := rfl
  have ho := map_spec h hsrc hsz hres hmap
  have htle := ho.targetInSpace
  have hsle := ho.sourceInSpace
  have hmapped : RangeAll Mapped ks₁.process.vmManager target (target + size) := by
    intro a ha hae
    have hfill := ho.filled (a - target) (show a - target < size by omega)
    simp only [MappingCall.request] at hfill
    rw [Nat.add_sub_cancel' ha] at hfill
    exact ⟨_, hfill, show VMAType.backingMemory ≠ VMAType.free by decide⟩
  constructor
  · rintro ⟨-, ks₂, hunmap, hback⟩
    refine ho.framed_iff.mp fun a ha hsource => ?_
    simp only [MappingCall.request] at ha
    rw [← hback a, unmap_outside ho.wellFormed.toIntact (by omega) hsrc hsz hunmap (by omega)
      hsource]
  · intro halone
    have hsview := ho.sourceView halone
    have hsource : RangeAll (fun p => Expected .aliased VMAPermission.none p ∧ Mapped p)
        ks₁.process.vmManager source (source + size) := by
      intro a ha hae
      obtain ⟨p, hp, -, hpm⟩ := ho.wasPrivate a ha hae
      rw [hsview a ha hae, hp]
      exact ⟨_, rfl, ⟨rfl, BitVec.and_zero⟩, hpm⟩
    obtain ⟨ks₂, hunmap, hview⟩ := unmap_some readWrite rfl ho.wellFormed
      ho.targetPage ho.sourcePage ho.sizePage ho.nonempty ho.sourceInHeap ho.apart htle hsle hmapped
      hsource
    refine ⟨fun i hi => ?_, ks₂, hunmap, fun a => ?_⟩
    · obtain ⟨p, hp, -, hpm⟩ := ho.wasPrivate (source + i) (by omega) (by omega)
      obtain ⟨q, hq⟩ := h.toIntact.pointer_of_mapped hp hpm
      refine ⟨q, ?_, ?_⟩
      · rw [pointerAt, hsview _ (by omega) (by omega), hp]
        exact hq
      · have hfill := ho.filled i hi
        simp only [MappingCall.request, if_pos hi] at hfill
        rw [pointerAt, hfill, pointerAt, hp]
        exact hq
    · rw [hview]
      split_ifs with hs ht
      · obtain ⟨p, hp, hpx, -⟩ := ho.wasPrivate a hs.1 hs.2
        rw [hsview a hs.1 hs.2, hp, Option.map_some, Option.map_some, PageAttr.stateChanged,
          PageAttr.stateChanged, ← hpx.1, ← hrw a p hs.1 hs.2 hp]
      · obtain ⟨p, hp, hfree⟩ := ho.wasFree a ht.1 ht.2
        rw [hp, h.plain a p hp hfree]
      · refine ho.framed_iff.mpr halone a ?_ hs
        simp only [MappingCall.request]
        omega

section Example

/-- Four pages of host memory. -/
def fourPages : BackingMem := ⟨0x100000, 0x4000⟩

/-- Two pages of the heap, of which the first is mapped at `0x0A000000` as well. -/
def twoPages : List VirtualMemoryArea :=
  [{ size := 0x08000000 },
   { base := 0x08000000, size := 0x1000, type := .backingMemory,
     permissions := readWrite, meminfoState := .aliased,
     backingMemory := ⟨some fourPages, 0⟩ },
   { base := 0x08001000, size := 0x1000, type := .backingMemory,
     permissions := readWrite, meminfoState := .privateMemory,
     backingMemory := ⟨some fourPages, 0x1000⟩ },
   { base := 0x08002000, size := 0x01FFE000 },
   { base := 0x0A000000, size := 0x1000, type := .backingMemory,
     permissions := readWrite, meminfoState := .alias,
     backingMemory := ⟨some fourPages, 0⟩ },
   { base := 0x0A001000, size := maxAddress - 0x0A001000 }]

def twoPagesKernel : KernelSystem where
  fcram := 0x100000
  memoryRegions := fun _ => {}
  process :=
    { vmManager := { vmaMap := VMManager.keyed twoPages }, kernelVersion := 0x22C,
      memoryRegion := .application }

theorem twoPages_wellFormed : WellFormed (· = fourPages) twoPagesKernel.process.vmManager := by
  refine VMManager.wellFormed_of_areas rfl rfl ?_ ?_ (fun v hv => ?_) (by decide)
  · exact ⟨rfl, by decide, rfl, by decide, rfl, by decide, rfl, by decide, rfl, by decide, rfl,
      by decide, rfl⟩
  · rintro _ _ rfl rfl h
    exact absurd rfl h
  · simp only [twoPages, List.mem_cons, List.not_mem_nil, or_false] at hv
    rcases hv with rfl | rfl | rfl | rfl | rfl | rfl
    · exact ⟨rfl, rfl, nofun⟩
    · exact ⟨rfl, rfl, fun _ => ⟨_, rfl, rfl, by decide⟩⟩
    · exact ⟨rfl, rfl, fun _ => ⟨_, rfl, rfl, by decide⟩⟩
    · exact ⟨rfl, rfl, nofun⟩
    · exact ⟨rfl, rfl, fun _ => ⟨_, rfl, rfl, by decide⟩⟩
    · exact ⟨rfl, rfl, nofun⟩

/-- The second page is readable and writable. -/
theorem twoPages_readWrite (a : Nat) (p : PageAttr) (ha : 0x08001000 ≤ a)
    (hae : a < 0x08001000 + 0x1000)
    (hp : view (areas twoPagesKernel.process.vmManager.vmaMap) a = some p) :
    p.permissions = readWrite := by
  have htiles : Segment.Tiles 0 (twoPages.take 2 ++ twoPages[2] :: twoPages.drop 3) maxAddress :=
    twoPages_wellFormed.tiles
  have hview := htiles.view_eq (show Segment.Covers twoPages[2] a from ⟨ha, hae⟩)
  obtain rfl := Option.some.inj (hp.symm.trans hview)
  rfl

/-- What `Map` of the second page behind the first and `Unmap` leave of the permissions of the
first. -/
def afterRoundTrip (perms : VMAPermission) : Option (Bool × Option (Bool × Option VMAPermission)) :=
  (map 0x0A001000 0x08001000 0x1000 perms false twoPagesKernel).map fun r =>
    (r.1.isSuccess, (unmap 0x0A001000 0x08001000 0x1000 readWrite false r.2).map
      fun r => (r.1.isSuccess, (view (areas r.2.process.vmManager.vmaMap) 0x0A000000).map
        PageAttr.permissions))

/-- Mapped as a mapping is anyway, the page comes back. -/
theorem map_unmap_readWrite :
    ∃ (ks₁ : KernelSystem) (res : Result), res.isSuccess = true ∧
      map 0x0A001000 0x08001000 0x1000 readWrite false twoPagesKernel =
        some (res, ks₁) ∧
      RoundTrip 0x0A001000 0x08001000 0x1000 twoPagesKernel ks₁ := by
  have hrun : (map 0x0A001000 0x08001000 0x1000 readWrite false twoPagesKernel).map
      (fun r => r.1.isSuccess) = some true := by
    decide +kernel
  obtain ⟨⟨res, ks₁⟩, hmap, hres⟩ := Option.map_eq_some_iff.mp hrun
  exact ⟨ks₁, res, hres, hmap, (map_unmap_iff _ _ _ _ _ _ _ _ twoPages_wellFormed (by decide)
    (by decide) twoPages_readWrite hres hmap).mpr (Or.inl rfl)⟩

/-- Mapped read-only behind the first page, it leaves that one read-only after `Unmap`. -/
theorem map_unmap_reprotects :
    ∃ (mems : BackingMem → Prop) (target source size : Nat) (perms : VMAPermission)
      (ks ks₁ : KernelSystem) (res : Result), WellFormed mems ks.process.vmManager ∧
      source < 2 ^ 32 ∧ size < 2 ^ 32 ∧
      (∀ a p, source ≤ a → a < source + size →
        view (areas ks.process.vmManager.vmaMap) a = some p →
          p.permissions = readWrite) ∧
      res.isSuccess = true ∧ map target source size perms false ks = some (res, ks₁) ∧
        ¬ RoundTrip target source size ks ks₁ := by
  have hrun : afterRoundTrip VMAPermission.read =
      some (true, some (true, some VMAPermission.read)) := by
    decide +kernel
  have hbefore : (view (areas twoPagesKernel.process.vmManager.vmaMap) 0x0A000000).map
      PageAttr.permissions = some readWrite := by
    decide +kernel
  obtain ⟨⟨res, ks₁⟩, hmap, hrun⟩ := Option.map_eq_some_iff.mp hrun
  obtain ⟨hres, hunmap⟩ := Prod.mk.inj hrun
  refine ⟨_, 0x0A001000, 0x08001000, 0x1000, VMAPermission.read, twoPagesKernel, ks₁, res,
    twoPages_wellFormed, by decide, by decide, twoPages_readWrite, hres, hmap, ?_⟩
  rintro ⟨-, ks₂, hcall, hback⟩
  rw [hcall, Option.map_some] at hunmap
  have hafter := (returned hunmap).2
  rw [hback, hbefore] at hafter
  exact absurd hafter (by decide)

end Example

end Process

end GbaStation.Kernel
