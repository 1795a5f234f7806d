import GbaStation.Kernel.SoundRuns

/-!
# What `svcControlMemory` asks of its arguments

The checks that protect the asserting helpers differ from operation to operation. In every kernel
that a run reaches, a call returns, and uses no sum of an address and a size that has wrapped
around, exactly if it meets the condition of its operation (`Serves`):

- `FREE`: what is behind a range that is mapped is memory of the region that can be given back.
- `COMMIT` of linear memory: the block is not empty and the range that belongs to it is free.
  `COMMIT` of heap memory always returns.
- `MAP`: the target starts inside the address space, and the range is not empty.
- `UNMAP` and `PROTECT`: the range is not empty and ends inside the address space.
-/

namespace GbaStation.Kernel

open Memory
open Memory.VMManager (WellFormed SoundBlock FitsFree Intact)
open Process (outsideHeap overlaps inHeap_of_outsideHeap getLinearHeapBase getLinearHeapLimit
  outsideLinearHeap)

namespace KernelSystem

variable {mems : BackingMem → Prop} {ks : KernelSystem} {target source size : Nat}
  {perms : VMAPermission}

/-- The range is one that the helpers of the address-space manager accept. -/
def Carvable (target size : Nat) : Prop := 0 < size ∧ target + size ≤ maxAddress

instance (target size : Nat) : Decidable (Carvable target size) :=
  inferInstanceAs (Decidable (_ ∧ _))

/-- What `Unmap` takes for granted. -/
def Unmappable (target source size : Nat) : Prop :=
  outsideHeap source size = false → overlaps target source size = false →
    Carvable target size

namespace Sound

theorem unmapRange_returns_iff (h : Sound mems ks) (ht : target % pageSize = 0)
    (hpage : size % pageSize = 0) (htg : target < 2 ^ 32) (hsz : size < 2 ^ 32) :
    (ks.process.vmManager.unmapRange target size).isSome = true ↔ Carvable target size := by
  constructor
  · intro hsome
    obtain ⟨out, hout⟩ := Option.isSome_iff_exists.mp hsome
    exact (VMManager.carved_range h.wellFormed.isLocked htg hsz hout).2.2
  · rintro ⟨hpos, hle⟩
    rcases VMManager.unmapRange_some h.wellFormed ht hpage hpos hle with
      ⟨-, hcall⟩ | ⟨-, vm, hcall, -⟩ <;> rw [hcall] <;> rfl

theorem reprotectRange_returns_iff (h : Sound mems ks) (ht : target % pageSize = 0)
    (hpage : size % pageSize = 0) (htg : target < 2 ^ 32) (hsz : size < 2 ^ 32) :
    (ks.process.vmManager.reprotectRange target size perms).isSome = true ↔
      Carvable target size := by
  constructor
  · intro hsome
    obtain ⟨out, hout⟩ := Option.isSome_iff_exists.mp hsome
    exact (VMManager.carved_range h.wellFormed.isLocked htg hsz hout).2.2
  · rintro ⟨hpos, hle⟩
    rcases VMManager.reprotectRange_some h.wellFormed ht hpage hpos hle perms with
      ⟨-, hcall⟩ | ⟨-, vm, hcall, -⟩ <;> rw [hcall] <;> rfl

/-- `Map` once its checks have passed: the source is refused, or its blocks can be mapped, unless
there is nothing to map. -/
theorem mapSource (h : Sound mems ks) (perms : VMAPermission) (ht : target % pageSize = 0)
    (hspage : source % pageSize = 0) (hpage : size % pageSize = 0)
    (hsle : source + size < maxAddress) {v : VirtualMemoryArea}
    (hv : v ∈ VMManager.areas ks.process.vmManager.vmaMap) (hfree : v.type = .free)
    (hlo : v.base ≤ target) (hfits : target + size ≤ v.base + v.size)
    {out : Option (Result × VMManager)}
    (hout : ks.process.vmManager.changeMemoryState source size .privateMemory
      VMAPermission.readWrite .aliased VMAPermission.readWrite = out) :
    (size = 0 ∧ ¬ RefusedInside source ks.process.vmManager ∧ out = none) ∨
      (size = 0 → RefusedInside source ks.process.vmManager) ∧
        ((∃ e vm, e.isSuccess = false ∧ out = some (e, vm)) ∨
          ∃ vm, out = some (Result.success, vm) ∧
            ((∃ e, vm.getBackingBlocksForRange source size = some (.error e)) ∨
              ∃ blocks vm', vm.getBackingBlocksForRange source size = some (.ok blocks) ∧
                Kernel.mapBlocks .alias perms blocks target vm = some vm')) := by
  subst hout
  rcases Nat.eq_zero_or_pos size with rfl | hpos
  · rw [VMManager.changeMemoryState_empty h.wellFormed.toIntact (by omega)]
    by_cases hrefused : RefusedInside source ks.process.vmManager
    · exact Or.inr ⟨fun _ => hrefused, Or.inl ⟨_, _, rfl, if_pos hrefused⟩⟩
    · exact Or.inl ⟨rfl, hrefused, if_neg hrefused⟩
  refine Or.inr ⟨fun hzero => absurd hzero (Nat.ne_of_gt hpos), ?_⟩
  rcases VMManager.changeMemoryState_some h.wellFormed hspage hpage hpos (Nat.le_of_lt hsle)
    .privateMemory .aliased VMAPermission.readWrite VMAPermission.readWrite with
    ⟨-, e, hfail, hcall⟩ | ⟨-, vm, hcall, hvm, hkeep⟩
  · exact Or.inl ⟨e, _, hfail, hcall⟩
  refine Or.inr ⟨vm, hcall, ?_⟩
  rcases VMManager.getBackingBlocksForRange_cases hvm hspage hpage (Nat.le_of_lt hsle) with
    ⟨-, hget⟩ | ⟨-, blocks, hget, hsound⟩
  · exact Or.inl ⟨_, hget⟩
  obtain ⟨htotal, -⟩ :=
    VMManager.getBackingBlocksForRange_spec hvm.toIntact (Nat.le_of_lt hsle) hget
  obtain ⟨vm', hmap, -⟩ : ∃ vm', Kernel.mapBlocks .alias perms blocks target vm = some vm' ∧
      WellFormed mems vm' :=
    mapBlocks_some hvm h.nonnull hsound ht fun _ => ⟨v, hkeep v hv hfree, hfree, hlo, by omega⟩
  exact Or.inr ⟨blocks, vm', hget, hmap⟩

theorem map_returns_iff (h : Sound mems ks) (ht : target % pageSize = 0)
    (hspage : source % pageSize = 0) (hpage : size % pageSize = 0) (hsz : size < 2 ^ 32) :
    (Process.map target source size perms false ks).isSome = true ↔
      Mappable target source size ks := by
  have hlim : maxAddress = 0x40000000 := rfl
  have hend : heapVAddrEnd = 0x10000000 := rfl
  unfold Process.map Mappable
  simp only [Bool.false_eq_true, not_false_eq_true, true_and, if_false]
  by_cases hheap : outsideHeap source size = true
  · rw [if_pos hheap]
    exact iff_of_true rfl fun hin => absurd (hin.symm.trans hheap) nofun
  have hheap' := Bool.eq_false_iff.mpr hheap
  obtain ⟨-, hsle⟩ := inHeap_of_outsideHeap hheap' hsz
  rw [if_neg hheap]
  by_cases hover : sub32 source target < size ∨ sub32 target source < size
  · rw [if_pos hover]
    exact iff_of_true rfl fun _ hapart => absurd hover (of_decide_eq_false hapart)
  rw [if_neg hover]
  have happly : ∀ {P : Prop}, (outsideHeap source size = false →
      overlaps target source size = false → P) ↔ P := fun {P} =>
    ⟨fun hp => hp hheap' (decide_eq_false hover), fun hp _ _ => hp⟩
  rw [happly]
  by_cases hin : target < maxAddress
  · obtain ⟨v, hv, hlo, hhi, hallocated⟩ := alreadyAllocated_some h.wellFormed.toIntact hin
      (show target + size < 2 ^ 32 by omega)
    rw [hallocated, and_iff_right hin]
    simp only [Option.bind_eq_bind, Option.bind_some, decide_eq_true_eq]
    by_cases htaken : v.type ≠ .free ∨ v.base + v.size < target + size
    · rw [if_pos htaken]
      refine iff_of_true rfl fun hzero hfits => ?_
      obtain ⟨w, hw, hfree, hwlo, hwhi⟩ := hfits
      obtain rfl := h.wellFormed.toIntact.area_unique hv hw ⟨hlo, hhi⟩ ⟨hwlo, hwhi⟩
      exact absurd hfree (htaken.resolve_right (by omega))
    push Not at htaken
    obtain ⟨hfree, hfits⟩ := htaken
    rw [if_neg (by simp only [not_or, not_not, Nat.not_lt]; exact ⟨hfree, hfits⟩)]
    have happly' : (size = 0 → FitsFree ks.process.vmManager target (target + 1) →
        RefusedInside source ks.process.vmManager) ↔
          (size = 0 → RefusedInside source ks.process.vmManager) :=
      ⟨fun hp hzero => hp hzero ⟨v, hv, hfree, hlo, hhi⟩, fun hp hzero _ => hp hzero⟩
    rw [happly']
    rcases h.mapSource perms ht hspage hpage (by omega) hv hfree hlo hfits rfl with
      ⟨hzero, hno, hchange⟩ | ⟨hrefused, ⟨e, vm, hfail, hchange⟩ | ⟨vm, hchange, hblocks⟩⟩
    · rw [hchange]
      exact iff_of_false nofun fun hp => hno (hp hzero)
    · rw [hchange, Option.bind_some, if_pos (by simp [hfail])]
      exact iff_of_true rfl hrefused
    · rw [hchange, Option.bind_some,
        if_neg (not_not.mpr (show Result.success.isSuccess = true from rfl))]
      refine iff_of_true ?_ hrefused
      rcases hblocks with ⟨e, hget⟩ | ⟨blocks, vm', hget, hmap⟩
      · rw [hget]
        rfl
      · rw [hget, Option.bind_some]
        simp only
        rw [hmap]
        rfl
  · rw [alreadyAllocated_none (Nat.le_of_not_lt hin)]
    exact iff_of_false nofun fun hp => hin hp.1

theorem unmap_returns_iff (h : Sound mems ks) (ht : target % pageSize = 0)
    (hspage : source % pageSize = 0) (hpage : size % pageSize = 0) (htg : target < 2 ^ 32)
    (hsz : size < 2 ^ 32) :
    (Process.unmap target source size perms false ks).isSome = true ↔
      Unmappable target source size := by
  have hlim : maxAddress = 0x40000000 := rfl
  have hend : heapVAddrEnd = 0x10000000 := rfl
  unfold Process.unmap Unmappable
  simp only [Bool.false_eq_true, not_false_eq_true, true_and, if_false]
  by_cases hheap : outsideHeap source size = true
  · rw [if_pos hheap]
    exact iff_of_true rfl fun hin => absurd (hin.symm.trans hheap) nofun
  have hheap' := Bool.eq_false_iff.mpr hheap
  obtain ⟨-, hsle⟩ := inHeap_of_outsideHeap hheap' hsz
  rw [if_neg hheap]
  by_cases hover : sub32 source target < size ∨ sub32 target source < size
  · rw [if_pos hover]
    exact iff_of_true rfl fun _ hapart => absurd hover (of_decide_eq_false hapart)
  rw [if_neg hover]
  have happly : (outsideHeap source size = false →
      overlaps target source size = false → Carvable target size) ↔ Carvable target size :=
    ⟨fun hp => hp hheap' (decide_eq_false hover), fun hp _ _ => hp⟩
  rw [happly, ← h.unmapRange_returns_iff ht hpage htg hsz]
  cases hunmap : ks.process.vmManager.unmapRange target size with
  | none => exact iff_of_false nofun nofun
  | some r =>
    obtain ⟨hpos, -⟩ := (h.unmapRange_returns_iff ht hpage htg hsz).mp (hunmap ▸ rfl)
    have hvm := VMManager.unmapRange_wellFormed h.wellFormed htg hsz hunmap
    refine iff_of_true ?_ rfl
    rw [Option.bind_eq_bind, Option.bind_some]
    split
    · rfl
    · rcases VMManager.changeMemoryState_some hvm hspage hpage hpos
        (show source + size ≤ maxAddress by omega) .aliased .privateMemory VMAPermission.none perms
        with ⟨-, e, -, hcall⟩ | ⟨-, vm, hcall, -⟩ <;> rw [hcall] <;> rfl

end Sound

/-! ## The service call -/

/-- What `ControlMemory` takes for granted, operation by operation. -/
def Serves (addr0 addr1 size : Nat) (operation permissions : BitVec 32) (ks : KernelSystem) :
    Prop :=
  checkControlMemory addr0 addr1 size permissions = none →
    if memop operation = memopFree then
      if heapVAddr ≤ addr0 ∧ addr0 < heapVAddrEnd then HeapReleasable addr0 size ks
      else getLinearHeapBase ks ≤ addr0 ∧ addr0 < getLinearHeapLimit ks →
        LinearReleasable addr0 size ks
    else if memop operation = memopCommit then
      operation &&& memopLinear ≠ 0 → ∀ t, linearTarget addr0 size ks = some t →
        0 < size ∧ FitsFree ks.process.vmManager t (t + size)
    else if memop operation = memopMap then Mappable addr0 addr1 size ks
    else if memop operation = memopUnmap then Unmappable addr0 addr1 size
    else memop operation = memopProtect → Carvable addr0 size

/-- The addresses to which the call adds the size in order to use the sum as a bound, once the tests
for wrap-around that the operation makes have passed. -/
def boundAddresses (addr0 addr1 size : Nat) (operation permissions : BitVec 32)
    (ks : KernelSystem) : List Nat :=
  if checkControlMemory addr0 addr1 size permissions ≠ none then [] else
  if memop operation = memopFree then
    if heapVAddr ≤ addr0 ∧ addr0 < heapVAddrEnd then
      if outsideHeap addr0 size then [] else [addr0]
    else if outsideLinearHeap addr0 size ks then [] else [addr0]
  else if memop operation = memopCommit then
    if operation &&& memopLinear ≠ 0 then
      if addr0 = 0 then (linearTarget addr0 size ks).toList
      else if outsideLinearHeap addr0 size ks then [] else [addr0]
    else if outsideHeap addr0 size then [] else [addr0]
  else if memop operation = memopMap ∨ memop operation = memopUnmap then
    if outsideHeap addr1 size then []
    else if overlaps addr0 addr1 size then [addr1] else [addr1, addr0]
  else if memop operation = memopProtect then [addr0]
  else []

/-- What is made of a result does not decide whether there is one. -/
theorem isSome_bind_some {α β : Type} (x : Option α) (f : α → β) :
    (x.bind fun a => some (f a)).isSome = x.isSome := by
  cases x <;> rfl

namespace Sound

theorem controlFree_returns_iff (h : Sound mems ks) {addr0 : Nat} (ht : addr0 % pageSize = 0)
    (hpage : size % pageSize = 0) (hsz : size < 2 ^ 32) :
    (controlFree addr0 size ks).isSome = true ↔
      if heapVAddr ≤ addr0 ∧ addr0 < heapVAddrEnd then HeapReleasable addr0 size ks
      else getLinearHeapBase ks ≤ addr0 ∧ addr0 < getLinearHeapLimit ks →
        LinearReleasable addr0 size ks := by
  unfold controlFree
  by_cases hheap : heapVAddr ≤ addr0 ∧ addr0 < heapVAddrEnd
  · rw [if_pos hheap, if_pos hheap]
    rcases h.heapFree ht hpage hsz with ⟨hno, hcall⟩ | ⟨hrel, res, ks', hcall, -⟩
    · rw [hcall]
      exact iff_of_false nofun hno
    · rw [hcall]
      exact iff_of_true rfl hrel
  rw [if_neg hheap, if_neg hheap]
  by_cases hlinear : getLinearHeapBase ks ≤ addr0 ∧ addr0 < getLinearHeapLimit ks
  · rw [if_pos hlinear]
    rcases h.linearFree ht hpage hsz with ⟨hno, hcall⟩ | ⟨hrel, res, ks', hcall, -⟩
    · rw [hcall]
      exact iff_of_false nofun fun hp => hno (hp hlinear)
    · rw [hcall]
      exact iff_of_true rfl fun _ => hrel
  · rw [if_neg hlinear]
    exact iff_of_true rfl fun hp => absurd hp hlinear

theorem controlMemory_returns_iff (h : Sound mems ks)
    (addr0 addr1 size operation permissions : BitVec 32) :
    (Kernel.controlMemory addr0.toNat addr1.toNat size.toNat operation permissions ks).isSome =
        true ↔ Serves addr0.toNat addr1.toNat size.toNat operation permissions ks := by
  unfold Kernel.controlMemory Serves
  cases hcheck : checkControlMemory addr0.toNat addr1.toNat size.toNat permissions with
  | some e => exact iff_of_true rfl nofun
  | none =>
    obtain ⟨ht, hspage, hpage⟩ := checked hcheck
    simp only [Option.bind_eq_bind, forall_const]
    split
    · rw [isSome_bind_some, h.controlFree_returns_iff ht hpage size.isLt]
    split
    · rw [isSome_bind_some]
      unfold controlCommit
      by_cases hlinear : operation &&& memopLinear ≠ 0
      · rw [if_pos (by simpa using hlinear),
          h.linearAllocate_returns_iff ht hpage size.isLt addr0.isLt]
        exact ⟨fun hp _ => hp, fun hp => hp hlinear⟩
      · rw [if_neg (by simpa using hlinear)]
        exact iff_of_true (h.heapAllocate_returns ht hpage size.isLt _) fun hp => absurd hp hlinear
    split
    · rw [isSome_bind_some, h.map_returns_iff ht hspage hpage size.isLt]
    split
    · rw [isSome_bind_some, h.unmap_returns_iff ht hspage hpage addr0.isLt size.isLt]
    split
    next hprotect =>
      rw [isSome_bind_some, h.reprotectRange_returns_iff ht hpage addr0.isLt size.isLt]
      exact ⟨fun hp _ => hp, fun hp => hp hprotect⟩
    next hprotect => exact iff_of_true rfl fun hp => absurd hp hprotect

theorem inHeap_no_wrap {a : Nat} (hin : outsideHeap a size = false) (hsz : size < 2 ^ 32) :
    a + size < 2 ^ 32 := by
  have hend : heapVAddrEnd = 0x10000000 := rfl
  have := (inHeap_of_outsideHeap hin hsz).2
  omega

theorem inLinearHeap_no_wrap (h : Sound mems ks) {a : Nat}
    (hin : outsideLinearHeap a size ks = false) (hsz : size < 2 ^ 32) :
    a + size < 2 ^ 32 := by
  have hlim : maxAddress = 0x40000000 := rfl
  have harea := area_le ks.process
  have := (h.inLinearHeap hsz hin).2
  omega

/-- The two ranges of `Map` and `Unmap`. -/
theorem twoRanges_no_wrap {addr0 addr1 : Nat} (hsz : size < 2 ^ 32)
    (htarget : outsideHeap addr1 size = false → overlaps addr0 addr1 size = false →
      addr0 + size < 2 ^ 32) {a : Nat} (ha : a ∈ if outsideHeap addr1 size then []
        else if overlaps addr0 addr1 size then [addr1] else [addr1, addr0]) :
    a + size < 2 ^ 32 := by
  split_ifs at ha with hheap hover
  · cases ha
  · obtain rfl := List.mem_singleton.mp ha
    exact inHeap_no_wrap (Bool.eq_false_iff.mpr hheap) hsz
  · rcases List.mem_pair.mp ha with rfl | rfl
    · exact inHeap_no_wrap (Bool.eq_false_iff.mpr hheap) hsz
    · exact htarget (Bool.eq_false_iff.mpr hheap) (Bool.eq_false_iff.mpr hover)

/-- A call that meets its condition adds no address and size that wrap around. -/
theorem no_wrap (h : Sound mems ks) {addr0 addr1 size operation permissions : BitVec 32}
    (hserves : Serves addr0.toNat addr1.toNat size.toNat operation permissions ks) :
    ∀ a ∈ boundAddresses addr0.toNat addr1.toNat size.toNat operation permissions ks,
      a + size.toNat < 2 ^ 32 := by
  have hlim : maxAddress = 0x40000000 := rfl
  have hend : heapVAddrEnd = 0x10000000 := rfl
  intro a ha
  unfold boundAddresses at ha
  by_cases hcheck : checkControlMemory addr0.toNat addr1.toNat size.toNat permissions = none
  · have hserves := hserves hcheck
    rw [if_neg (not_not.mpr hcheck)] at ha
    by_cases hfree : memop operation = memopFree
    · rw [if_pos hfree] at ha
      split_ifs at ha with hrange hout hout
      · cases ha
      · obtain rfl := List.mem_singleton.mp ha
        exact inHeap_no_wrap (Bool.eq_false_iff.mpr hout) size.isLt
      · cases ha
      · obtain rfl := List.mem_singleton.mp ha
        exact h.inLinearHeap_no_wrap (Bool.eq_false_iff.mpr hout) size.isLt
    rw [if_neg hfree] at ha hserves
    by_cases hcommit : memop operation = memopCommit
    · rw [if_pos hcommit] at ha hserves
      split_ifs at ha with hlinear hzero hout hout
      · obtain ⟨-, v, hv, -, -, hfits⟩ := hserves hlinear a (Option.mem_toList.mp ha)
        have hbound := (h.wellFormed.tiles.mem_bounds hv).2.2
        rw [VirtualMemoryArea.base_def, VirtualMemoryArea.size_def] at hbound
        omega
      · cases ha
      · obtain rfl := List.mem_singleton.mp ha
        exact h.inLinearHeap_no_wrap (Bool.eq_false_iff.mpr hout) size.isLt
      · cases ha
      · obtain rfl := List.mem_singleton.mp ha
        exact inHeap_no_wrap (Bool.eq_false_iff.mpr hout) size.isLt
    rw [if_neg hcommit] at ha hserves
    by_cases hmap : memop operation = memopMap
    · rw [if_pos (Or.inl hmap)] at ha
      rw [if_pos hmap] at hserves
      refine twoRanges_no_wrap size.isLt (fun hheap hapart => ?_) ha
      have hsrc := (inHeap_of_outsideHeap hheap size.isLt).2
      have htarget := (hserves hheap hapart).1
      omega
    rw [if_neg hmap] at hserves
    by_cases hunmap : memop operation = memopUnmap
    · rw [if_pos (Or.inr hunmap)] at ha
      rw [if_pos hunmap] at hserves
      refine twoRanges_no_wrap size.isLt (fun hheap hapart => ?_) ha
      have htarget := (hserves hheap hapart).2
      omega
    rw [if_neg hunmap] at hserves
    rw [if_neg (not_or.mpr ⟨hmap, hunmap⟩)] at ha
    split_ifs at ha with hprotect
    · obtain rfl := List.mem_singleton.mp ha
      have := (hserves hprotect).2
      omega
    · cases ha
  · rw [if_pos hcheck] at ha
    cases ha

end Sound

/-- In every kernel that a run reaches, a call of `ControlMemory` returns, and uses no sum of an
address and the size as a bound that has wrapped around, exactly if it meets its condition. -/
theorem controlMemory_safe_iff (mems : BackingMem → Prop) (ks : KernelSystem)
    (addr0 addr1 size operation permissions : BitVec 32) (h : Running mems ks) :
    ((Kernel.controlMemory addr0.toNat addr1.toNat size.toNat operation permissions ks).isSome =
        true ∧
      ∀ a ∈ boundAddresses addr0.toNat addr1.toNat size.toNat operation permissions ks,
        a + size.toNat < 2 ^ 32) ↔
      Serves addr0.toNat addr1.toNat size.toNat operation permissions ks := by
  rw [h.sound.controlMemory_returns_iff]
  exact and_iff_left_of_imp fun hserves => h.sound.no_wrap hserves

section Example

/-- FCRAM as the only host allocation. -/
def onlyFcram (m : BackingMem) : Prop := m = ⟨0x100000, fcramN3DSSize⟩

theorem onlyFcram_host : Host onlyFcram 0x100000 where
  fcram := rfl
  nonnull := by
    rintro m rfl
    decide
  apart := by
    rintro m m' rfl rfl hne
    exact absurd rfl hne

/-- A page of heap can be asked for. -/
theorem controlMemory_safe_commit :
    ∃ ks : KernelSystem, (Kernel.controlMemory 0x08000000 0 0x1000 3 3 ks).isSome = true := by
  have hstart : (start 0x100000 false 0 0x22C .application).isSome = true := by
    decide +kernel
  obtain ⟨ks, hks⟩ := Option.isSome_iff_exists.mp hstart
  have hserves : Serves 0x08000000 0 0x1000 3 3 ks := fun _ => by
    rw [if_neg (by decide), if_pos (by decide)]
    exact fun hlinear => absurd hlinear (by decide)
  exact ⟨ks, ((controlMemory_safe_iff onlyFcram ks 0x08000000 0 0x1000 3 3
    (.start onlyFcram_host hks)).mpr hserves).1⟩

/-- `PROTECT` of an empty range fails an assertion. -/
theorem protect_empty_asserts :
    ∃ (mems : BackingMem → Prop) (ks : KernelSystem)
      (addr0 addr1 size operation permissions : BitVec 32), Running mems ks ∧
      Kernel.controlMemory addr0.toNat addr1.toNat size.toNat operation permissions ks = none := by
  have hrun : (start 0x100000 false 0 0x22C .application).map (fun ks =>
      (Kernel.controlMemory 0x08000000 0 0 6 3 ks).isSome) = some false := by
    decide +kernel
  obtain ⟨ks, hks, hno⟩ := Option.map_eq_some_iff.mp hrun
  exact ⟨onlyFcram, ks, 0x08000000, 0, 0, 6, 3, .start onlyFcram_host hks,
    Option.not_isSome_iff_eq_none.mp (by simpa using hno)⟩

end Example

end KernelSystem

end GbaStation.Kernel
