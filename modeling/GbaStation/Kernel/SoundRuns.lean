import GbaStation.Kernel.SoundMemory

/-!
# Runs of calls that work on memory

A process is loaded, maps what it shares with the system and makes memory calls. Whatever calls it
makes and in whatever order, the kernel stays `Sound` for as long as they return.
-/

namespace GbaStation.Kernel

open Memory
open Memory.VMManager (WellFormed SoundBlock FitsFree Intact pointerAt bytePointer blocksSize
  RangeAll Mapped)
open Option (some.inj bind_eq_some_iff map_eq_some_iff)
open MemoryRegionInfo (linearAllocate_paged reset_spec reset_paged)

namespace KernelSystem

variable {mems : BackingMem → Prop} {ks ks' : KernelSystem} {target source size : Nat}
  {perms : VMAPermission} {res : Result}

/-! ## `Map` and `Unmap` -/

/-- `Map` of nothing passes the checks for the target, and the source is inside an area that is not
what `Map` expects. -/
def RefusedInside (source : Nat) (vm : VMManager) : Prop :=
  ∃ v ∈ VMManager.areas vm.vmaMap, v.base < source ∧ source < v.base + v.size ∧
    (v.meminfoState ≠ .privateMemory ∨
      v.permissions &&& VMAPermission.readWrite ≠ VMAPermission.readWrite)

/-- What `Map` takes for granted. -/
def Mappable (target source size : Nat) (ks : KernelSystem) : Prop :=
  Process.outsideHeap source size = false → Process.overlaps target source size = false →
    target < maxAddress ∧ (size = 0 → FitsFree ks.process.vmManager target (target + 1) →
      RefusedInside source ks.process.vmManager)

namespace Sound

/-- The blocks behind a range of pages. -/
theorem backingPages (h : Sound mems ks) (ht : target % pageSize = 0)
    (hle : target + size ≤ maxAddress) {blocks : List (MemoryRef × Nat)}
    (hget : ks.process.vmManager.getBackingBlocksForRange target size = some (.ok blocks)) :
    blocksSize blocks = size ∧ FcramPages ks.fcram (bytePointer blocks) := by
  obtain ⟨htotal, hbyte⟩ := VMManager.getBackingBlocksForRange_spec h.wellFormed.toIntact hle hget
  refine ⟨htotal, h.pages.of_pages fun i p hp => ⟨target + i, ?_, ?_⟩⟩
  · rw [← hbyte i (htotal ▸ VMManager.bytePointer_isSome hp), hp]
  · rw [Nat.add_mod, ht, Nat.zero_add, Nat.mod_mod]

/-- The source of a `Map` after its state has changed. -/
theorem backingBlocks (h : Sound mems ks) (hpage : size % pageSize = 0)
    (ht : target % pageSize = 0) (hle : target + size ≤ maxAddress)
    {blocks : List (MemoryRef × Nat)}
    (hget : ks.process.vmManager.getBackingBlocksForRange target size = some (.ok blocks)) :
    blocksSize blocks = size ∧ FcramPages ks.fcram (bytePointer blocks) ∧
      ∀ b ∈ blocks, SoundBlock mems b := by
  obtain ⟨htotal, hpages⟩ := h.backingPages ht hle hget
  refine ⟨htotal, hpages, ?_⟩
  rcases VMManager.getBackingBlocksForRange_cases h.wellFormed ht hpage hle with
    ⟨-, hget'⟩ | ⟨-, blocks', hget', hsound⟩
  · rw [hget] at hget'
    cases some.inj hget'
  · rw [hget] at hget'
    obtain rfl := Except.ok.inj (some.inj hget')
    exact hsound

theorem map (h : Sound mems ks) (hsrc : source < 2 ^ 32) (hsz : size < 2 ^ 32)
    {privileged : Bool} (hcall : Process.map target source size perms privileged ks =
      some (res, ks')) : Sound mems ks' := by
  rcases Process.map_inv hcall with
    ⟨-, rfl⟩ | ⟨-, -, vm, rfl, hchange⟩ | ⟨-, -, r, vm, hchange, hend⟩
  · exact h
  · exact h.changeMemoryState hsrc hsz hchange
  have h₁ := h.changeMemoryState hsrc hsz hchange
  rcases hend with ⟨-, -, rfl⟩ | ⟨hr, e | blocks, hget, hend⟩
  · exact h₁
  · exact hend.2 ▸ h₁
  · obtain ⟨-, vm', rfl, hmap⟩ := hend
    obtain ⟨hspage, hpage⟩ := VMManager.changeMemoryState_aligned h.wellFormed.isLocked hr hchange
    obtain ⟨-, -, hle⟩ :=
      VMManager.changeMemoryState_pointerAt h.wellFormed.toIntact hsrc hsz hchange
    obtain ⟨htotal, hpages, hsound⟩ := h₁.backingBlocks hpage hspage (hle hr) hget
    exact h₁.mapBlocks (by omega) (fun b hb _ => hsound b hb) hpages hmap

theorem unmap (h : Sound mems ks) (htg : target < 2 ^ 32) (hsrc : source < 2 ^ 32)
    (hsz : size < 2 ^ 32) {privileged : Bool}
    (hcall : Process.unmap target source size perms privileged ks = some (res, ks')) :
    Sound mems ks' := by
  unfold Process.unmap at hcall
  split at hcall
  · exact of_returned h hcall
  split at hcall
  · split at hcall
    · split at hcall
      · obtain ⟨⟨r, vm⟩, hchange, hcall⟩ := bind_eq_some_iff.mp hcall
        rw [← (returned hcall).2]
        exact h.changeMemoryState hsrc hsz hchange
      · exact of_returned h hcall
    · exact of_returned h hcall
  obtain ⟨⟨r, vm⟩, hunmap, hcall⟩ := bind_eq_some_iff.mp hcall
  have h₁ := h.unmapRange htg hsz hunmap
  simp only at hcall
  split at hcall
  · exact of_returned h₁ hcall
  obtain ⟨⟨r', vm'⟩, hchange, hcall⟩ := bind_eq_some_iff.mp hcall
  rw [← (returned hcall).2]
  exact h₁.changeMemoryState hsrc hsz hchange

/-! ## Shared memory -/

theorem addMemoryUsed (h : Sound mems ks) (size : Nat) :
    Sound mems (Process.addMemoryUsed size ks) :=
  ⟨h.wellFormed, h.nonnull, h.fcram, h.regions, h.pages, h.shared⟩

variable {otherPermissions permissions : MemoryPermission}

theorem createShared (h : Sound mems ks) {hasOwner : Bool} {address : Nat} {region : MemoryRegion}
    (hpage : size % pageSize = 0) (hsz : size < 2 ^ 32) (haddr : address < 2 ^ 32)
    (hcall : SharedMemory.create hasOwner size permissions otherPermissions address region ks =
      some (res, ks')) : Sound mems ks' := by
  unfold SharedMemory.create at hcall
  split at hcall
  · obtain ⟨⟨found, info⟩, halloc, hcall⟩ := bind_eq_some_iff.mp hcall
    obtain ⟨found', info', halloc', hinfo, hoff⟩ :=
      linearAllocate_paged (h.regions region) hpage
    rw [halloc] at halloc'
    obtain ⟨rfl, rfl⟩ := returned halloc'
    cases found with
    | none => cases hcall
    | some offset =>
      obtain ⟨ho, hle⟩ := hoff offset rfl
      have h₁ := h.setRegion (r := region) hinfo
      obtain ⟨r, hr, hsound, hptr⟩ := h₁.fcramBlock ho hpage hle
      obtain ⟨backing, hbacking, hcall⟩ := bind_eq_some_iff.mp hcall
      obtain rfl := some.inj (hr.symm.trans hbacking)
      rw [← (returned hcall).2]
      have hpages : FcramPages (ks.setRegion region info).fcram (bytePointer [(r, size)]) := by
        intro i o hi ho
        rw [bytePointer] at hi
        split_ifs at hi with hlt
        · exact hptr i o hlt (some.inj hi)
        · cases hi
      have hw : blocksSize [(r, size)] < 2 ^ 32 := by
        rw [VMManager.blocksSize_cons, VMManager.blocksSize_nil]
        show size + 0 < 2 ^ 32
        omega
      cases hasOwner with
      | false => exact h₁.addShared (List.forall_mem_singleton.mpr hsound) hpages hsz hw
      | true =>
        exact (h₁.addMemoryUsed size).addShared (List.forall_mem_singleton.mpr hsound) hpages hsz hw
  split at hcall
  · cases hcall
  obtain ⟨⟨r, vm⟩, hchange, hcall⟩ := bind_eq_some_iff.mp hcall
  have h₁ := h.changeMemoryState haddr hsz hchange
  simp only at hcall
  split at hcall
  · exact of_returned h₁ hcall
  next hok =>
  have hr : r.isSuccess = true := by simpa using hok
  obtain ⟨hpaddr, -⟩ := VMManager.changeMemoryState_aligned h.wellFormed.isLocked hr hchange
  obtain ⟨-, -, hle⟩ :=
    VMManager.changeMemoryState_pointerAt h.wellFormed.toIntact haddr hsz hchange
  obtain ⟨out, hget, hcall⟩ := bind_eq_some_iff.mp hcall
  cases out with
  | error e => cases hcall
  | ok blocks =>
    rw [← (returned hcall).2]
    obtain ⟨htotal, hpages, hsound⟩ := h₁.backingBlocks hpage hpaddr (hle hr) hget
    have hw : blocksSize blocks < 2 ^ 32 := by omega
    exact h₁.addShared (fun b hb _ => hsound b hb) hpages hsz hw

theorem createForApplet (h : Sound mems ks) {offset : Nat} (hpage : size % pageSize = 0)
    (hsz : size < 2 ^ 32)
    (hcall : SharedMemory.createForApplet offset size permissions otherPermissions ks = some ks') :
    Sound mems ks' := by
  obtain ⟨⟨x, info⟩, halloc, hcall⟩ := bind_eq_some_iff.mp hcall
  obtain ⟨x', info', halloc', hinfo, hsub, hx⟩ :=
    MemoryRegionInfo.heapAllocate_paged (h.regions .system) hpage
  rw [halloc] at halloc'
  obtain ⟨rfl, rfl⟩ := returned halloc'
  simp only at hcall
  split at hcall
  · cases hcall
  next hne =>
  obtain ⟨blocks, hblocks, hcall⟩ := bind_eq_some_iff.mp hcall
  obtain rfl := some.inj hcall
  obtain ⟨blocks', hblocks', hsound, hpages⟩ := h.heapBlocks (h.regions .system) hsub hx
  rw [hblocks] at hblocks'
  obtain rfl := some.inj hblocks'
  have hw : blocksSize blocks = size := blocksSize_fcramBlocks halloc hne hblocks
  exact (h.setRegion hinfo).addShared (fun b hb _ => hsound b hb) hpages hsz (hw ▸ hsz)

theorem mapShared (h : Sound mems ks) {sm : SharedMemory} (hsm : sm ∈ ks.sharedMemories)
    {address : Nat} (hcall : sm.map address permissions otherPermissions ks = some (res, ks')) :
      Sound mems ks' := by
  obtain ⟨hsound, hpages, -, hw⟩ := h.shared sm hsm
  unfold SharedMemory.map at hcall
  split at hcall
  · exact of_returned h hcall
  obtain ⟨allocated, -, hcall⟩ := bind_eq_some_iff.mp hcall
  split at hcall
  · exact of_returned h hcall
  obtain ⟨vm, hmap, hcall⟩ := bind_eq_some_iff.mp hcall
  rw [← (returned hcall).2]
  exact h.mapBlocks hw hsound hpages hmap

/-! ## `svcControlMemory` -/

/-- The checks that `ControlMemory` makes for every operation. -/
theorem checked {addr0 addr1 : Nat} {permissions : BitVec 32}
    (hcheck : checkControlMemory addr0 addr1 size permissions = none) :
    addr0 % pageSize = 0 ∧ addr1 % pageSize = 0 ∧ size % pageSize = 0 := by
  unfold checkControlMemory at hcheck
  split_ifs at hcheck with h0 h1 h2
  omega

theorem controlMemory (h : Sound mems ks) {addr0 addr1 size operation permissions : BitVec 32}
    {out : Result × Option Nat} (hcall : Kernel.controlMemory addr0.toNat addr1.toNat size.toNat
      operation permissions ks = some (out, ks')) : Sound mems ks' := by
  unfold Kernel.controlMemory at hcall
  split at hcall
  · exact of_returned h hcall
  next hcheck =>
  obtain ⟨ht, -, hpage⟩ := checked hcheck
  split at hcall
  · obtain ⟨⟨result, ks₁⟩, hfree, hcall⟩ := bind_eq_some_iff.mp hcall
    rw [← (returned hcall).2]
    unfold controlFree at hfree
    split at hfree
    · rcases h.heapFree ht hpage size.isLt with ⟨-, hno⟩ | ⟨-, res, ks₂, hsome, h₂⟩
      · exact absurd (hno.symm.trans hfree) nofun
      · rw [← (Prod.mk.inj (some.inj (hsome.symm.trans hfree))).2]
        exact h₂
    split at hfree
    · rcases h.linearFree ht hpage size.isLt with ⟨-, hno⟩ | ⟨-, res, ks₂, hsome, h₂⟩
      · exact absurd (hno.symm.trans hfree) nofun
      · rw [← (Prod.mk.inj (some.inj (hsome.symm.trans hfree))).2]
        exact h₂
    · exact of_returned h hfree
  split at hcall
  · obtain ⟨⟨result, ks₁⟩, hcommit, hcall⟩ := bind_eq_some_iff.mp hcall
    rw [← (returned hcall).2]
    unfold controlCommit at hcommit
    split at hcommit
    · exact h.linearAllocate ht hpage size.isLt addr0.isLt hcommit
    · exact h.heapAllocate hpage size.isLt hcommit
  split at hcall
  · obtain ⟨⟨result, ks₁⟩, hmap, hcall⟩ := bind_eq_some_iff.mp hcall
    rw [← (returned hcall).2]
    exact h.map addr1.isLt size.isLt hmap
  split at hcall
  · obtain ⟨⟨result, ks₁⟩, hunmap, hcall⟩ := bind_eq_some_iff.mp hcall
    rw [← (returned hcall).2]
    exact h.unmap addr0.isLt addr1.isLt size.isLt hunmap
  split at hcall
  · obtain ⟨⟨result, vm⟩, hrep, hcall⟩ := bind_eq_some_iff.mp hcall
    rw [← (returned hcall).2]
    exact h.reprotectRange addr0.isLt size.isLt hrep
  · exact of_returned h hcall

end Sound

/-! ## Runs -/

/-- The host allocations: FCRAM and others, none of them next to another. -/
structure Host (mems : BackingMem → Prop) (fcram : Nat) : Prop where
  fcram : mems ⟨fcram, fcramN3DSSize⟩
  nonnull : ∀ m, mems m → m.ptr ≠ 0
  apart : Apart mems

/-- A call of the address-space manager that maps memory of one allocation, FCRAM page by page, or
changes memory that is mapped. -/
def SoundCall (mems : BackingMem → Prop) (ks : KernelSystem) : VMManager.Call → Prop
  | .mapBackingMemory _ memory size _ => size < 2 ^ 32 ∧ memory.Within mems size ∧
      ∀ o, memory.getPtr = ks.fcram + o → o < fcramN3DSSize → o % pageSize = 0
  | .changeMemoryState target size _ _ _ _ | .unmapRange target size
  | .reprotectRange target size _ => target < 2 ^ 32 ∧ size < 2 ^ 32
  | .reprotect vmaHandle _ => ∃ v ∈ VMManager.areas ks.process.vmManager.vmaMap,
      v.base = vmaHandle ∧ v.type ≠ .free

/-- Shared memory is made of whole pages. -/
def MemoryCall.WholePages : MemoryCall → Prop
  | .createSharedMemory _ size _ _ _ _ => size.toNat % pageSize = 0
  | _ => True

/-- The kernels that a run reaches: memory calls of the guest in any order, between them what the
system does for the process, as long as everything returns. -/
inductive Running (mems : BackingMem → Prop) : KernelSystem → Prop
  | start {fcram kernelVersion : Nat} {isNew3ds : Bool} {memoryMode : Fin 8}
      {memoryRegion : MemoryRegion} {ks : KernelSystem} : Host mems fcram →
      start fcram isNew3ds memoryMode kernelVersion memoryRegion = some ks → Running mems ks
  | call {ks ks' : KernelSystem} {c : MemoryCall} : Running mems ks → c.WholePages →
      c.exec ks = some ks' → Running mems ks'
  /-- The segments of the program and its stack. -/
  | load {ks ks' : KernelSystem} {target size : Nat} {perms : VMAPermission} {state : MemoryState}
      {out : Except Result Nat} : Running mems ks → size % pageSize = 0 → size < 2 ^ 32 →
      Process.heapAllocate target size perms state true ks = some (out, ks') → Running mems ks'
  /-- The shared memory of an applet. -/
  | applet {ks ks' : KernelSystem} {offset size : Nat}
      {permissions otherPermissions : MemoryPermission} : Running mems ks → size % pageSize = 0 →
      size < 2 ^ 32 → SharedMemory.createForApplet offset size permissions otherPermissions ks =
        some ks' → Running mems ks'
  /-- Pages taken for thread-local storage. -/
  | take {ks : KernelSystem} {r : MemoryRegion} {size : Nat} {found : Option Nat}
      {info : MemoryRegionInfo} : Running mems ks → size % pageSize = 0 →
      (ks.memoryRegions r).linearAllocate size = some (found, info) →
      Running mems (ks.setRegion r info)
  /-- Pages given back. -/
  | release {ks : KernelSystem} {r : MemoryRegion} {offset size : Nat} {info : MemoryRegionInfo} :
      Running mems ks → offset % pageSize = 0 → size % pageSize = 0 →
      offset + size ≤ fcramN3DSSize → (ks.memoryRegions r).free offset size = some info →
      Running mems (ks.setRegion r info)
  /-- Memory mapped, changed or unmapped by the system: other allocations, `ldr:ro`, services. -/
  | manager {ks : KernelSystem} {c : VMManager.Call} {res : Result} {vm : VMManager} :
      Running mems ks → SoundCall mems ks c → c.exec ks.process.vmManager = some (res, vm) →
      Running mems (ks.setVMManager vm)

namespace Sound

theorem manager (h : Sound mems ks) {c : VMManager.Call} {vm : VMManager} (hc : SoundCall mems ks c)
    (hcall : c.exec ks.process.vmManager = some (res, vm)) : Sound mems (ks.setVMManager vm) := by
  cases c with
  | mapBackingMemory target memory size state =>
    obtain ⟨hsz, hin, hpage⟩ := hc
    obtain ⟨⟨out, vm₁⟩, hmap, hcall⟩ := bind_eq_some_iff.mp hcall
    cases out with
    | error e =>
      rw [← (returned hcall).2]
      rcases VMManager.mapBackingMemory_effect h.wellFormed.tiles h.wellFormed.keyedByBase.eq_keyed
        hsz hmap with ⟨-, -, -, rfl⟩ | ⟨⟨_, hok⟩, -⟩
      · exact h
      · cases hok
    | ok k =>
      rw [← (returned hcall).2]
      obtain ⟨ht, hpages, hpos, -, hptr, hfits⟩ :=
        VMManager.mapBackingMemory_inv h.wellFormed.toIntact hsz hmap
      obtain ⟨k', vm', hmap', hvm, -⟩ :=
        VMManager.mapBackingMemory_fits h.wellFormed ht hpages hpos state hptr hin hfits
      rw [hmap] at hmap'
      obtain ⟨-, rfl⟩ := returned hmap'
      obtain ⟨-, -, hp⟩ := VMManager.mapBackingMemory_pointerAt h.wellFormed.toIntact hsz hmap
      refine h.remap hvm fun a o ha ho => ?_
      rw [hp] at ha
      split_ifs at ha with hrange
      · have hbyte : memory.getPtr + (a - target) = ks.fcram + o := some.inj ha
        obtain ⟨hfirst, hle⟩ := h.within_fcram hin (by omega) hbyte (Nat.le_of_lt ho)
        have hoff := hpage _ hfirst (by omega)
        unfold pageSize at *
        omega
      · exact h.pages a o ha ho
  | changeMemoryState target size _ _ _ _ => exact h.changeMemoryState hc.1 hc.2 hcall
  | unmapRange target size => exact h.unmapRange hc.1 hc.2 hcall
  | reprotectRange target size _ => exact h.reprotectRange hc.1 hc.2 hcall
  | reprotect vmaHandle newPerms =>
    obtain ⟨v, hv, rfl, hmapped⟩ := hc
    obtain ⟨⟨k, vm₁⟩, hrep, hcall⟩ := bind_eq_some_iff.mp hcall
    rw [← (returned hcall).2]
    obtain ⟨k', vm', hrep', hvm, -⟩ := VMManager.reprotect_some h.wellFormed hv hmapped newPerms
    rw [hrep] at hrep'
    obtain ⟨-, rfl⟩ := returned hrep'
    exact h.samePointers hvm (VMManager.reprotect_pointerAt h.wellFormed.toIntact hrep).2

theorem memoryRegionSizes_page (memoryMode : Fin 8) (r : MemoryRegion) :
    memoryRegionSizes memoryMode r % pageSize = 0 := by
  cases r <;> revert memoryMode <;> decide

/-- A process that has nothing yet. -/
theorem start {fcram kernelVersion : Nat} {isNew3ds : Bool} {memoryMode : Fin 8}
    {memoryRegion : MemoryRegion} (hhost : Host mems fcram)
    (h : KernelSystem.start fcram isNew3ds memoryMode kernelVersion memoryRegion = some ks) :
    Sound mems ks := by
  have hN : fcramN3DSSize = 0x10000000 := rfl
  obtain ⟨regions, hregions, h⟩ := bind_eq_some_iff.mp h
  obtain ⟨vm, hvm, h⟩ := bind_eq_some_iff.mp h
  obtain rfl := some.inj h
  obtain rfl := some.inj (show some { vmaMap := VMManager.initialMap } = some vm from hvm)
  refine ⟨?_, hhost.nonnull, hhost.fcram, ?_, fun a o ha => ?_, nofun⟩
  · refine VMManager.wellFormed_of_areas
      (show VMManager.initialMap = VMManager.keyed [{ size := maxAddress }] from rfl) rfl
      ⟨rfl, by decide, rfl⟩ hhost.apart ?_ ?_
    · exact List.forall_mem_singleton.mpr ⟨rfl, rfl, nofun⟩
    · exact List.forall_mem_singleton.mpr fun _ => ⟨rfl, rfl⟩
  · have hsum := memoryRegionSizes_le memoryMode
    have hpage := memoryRegionSizes_page memoryMode
    unfold memoryInit at hregions
    obtain ⟨application, happ, hregions⟩ := bind_eq_some_iff.mp hregions
    obtain ⟨system, hsys, hregions⟩ := bind_eq_some_iff.mp hregions
    obtain ⟨base, hbase, hregions⟩ := bind_eq_some_iff.mp hregions
    obtain ⟨-, hregions⟩ := Option.ite_none_left_eq_some.mp hregions
    obtain rfl := some.inj hregions
    obtain ⟨-, -, has⟩ := reset_spec (by omega) happ
    rw [has] at hsys hbase
    obtain ⟨-, -, hss⟩ := reset_spec (by omega) hsys
    rw [hss, add32_eq (by omega)] at hbase
    intro r
    cases r with
    | application => exact reset_paged rfl (hpage _) (by omega) happ
    | system => exact reset_paged (hpage _) (hpage _) (by omega) hsys
    | base =>
      exact reset_paged (VirtualMemoryArea.mod_sub (hpage _) (hpage _)).1 (hpage _)
        (by omega) hbase
  · rw [VMManager.pointerAt_reset hvm] at ha
    cases ha

end Sound

/-- Whatever a run does, the kernel it reaches is sound. -/
theorem Running.sound (h : Running mems ks) : Sound mems ks := by
  induction h with
  | start hhost hstart => exact .start hhost hstart
  | @call ks ks' c _ hc hcall ih =>
    cases c with
    | controlMemory addr0 addr1 size operation permissions =>
      obtain ⟨⟨out, ks₁⟩, hstep, rfl⟩ := map_eq_some_iff.mp hcall
      exact ih.controlMemory hstep
    | createSharedMemory hasOwner size permissions otherPermissions address region =>
      obtain ⟨⟨out, ks₁⟩, hstep, rfl⟩ := map_eq_some_iff.mp hcall
      exact ih.createShared hc size.isLt address.isLt hstep
    | mapSharedMemory id address permissions otherPermissions =>
      obtain ⟨sm, hsm, hmap⟩ := bind_eq_some_iff.mp hcall
      obtain ⟨⟨out, ks₁⟩, hstep, rfl⟩ := map_eq_some_iff.mp hmap
      exact ih.mapShared (List.mem_of_getElem? hsm) hstep
    | unmapSharedMemory id address =>
      obtain ⟨sm, hsm, hmap⟩ := bind_eq_some_iff.mp hcall
      obtain ⟨⟨out, ks₁⟩, hstep, rfl⟩ := map_eq_some_iff.mp hmap
      obtain ⟨⟨result, vm⟩, hunmap, hres⟩ := bind_eq_some_iff.mp hstep
      have hsize := (ih.shared sm (List.mem_of_getElem? hsm)).2.2.1
      exact of_returned (ih.unmapRange address.isLt hsize hunmap) hres
  | load _ hpage hsz hcall ih => exact ih.heapAllocate hpage hsz hcall
  | applet _ hpage hsz hcall ih => exact ih.createForApplet hpage hsz hcall
  | @take ks r size found info _ hpage hcall ih =>
    obtain ⟨found', info', hcall', hinfo, -⟩ :=
      linearAllocate_paged (ih.regions r) hpage
    rw [hcall] at hcall'
    obtain ⟨-, rfl⟩ := returned hcall'
    exact ih.setRegion hinfo
  | @release ks r offset size info _ hoff hpage hle hcall ih =>
    rcases MemoryRegionInfo.free_paged (ih.regions r) hoff hpage hle with
      ⟨-, hno⟩ | ⟨-, info', hcall', hinfo, -⟩
    · rw [hcall] at hno
      cases hno
    · rw [hcall] at hcall'
      obtain rfl := some.inj hcall'
      exact ih.setRegion hinfo
  | manager _ hc hcall ih => exact ih.manager hc hcall

end KernelSystem

end GbaStation.Kernel
