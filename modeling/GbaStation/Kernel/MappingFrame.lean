import GbaStation.Kernel.FcramOwnership
import GbaStation.Memory.Upkeep

/-!
# What a mapping call changes

`HeapAllocate`, `LinearAllocate`, `Process::Map` and `SharedMemory::Map` map blocks of memory one
behind the other. A call that succeeds has mapped its range as requested (`Filled`). It has left
everything else alone (`Framed`) exactly if it stands `Alone`: it asks for `ReadWrite`, or no
neighbour of the range looks like a part of the mapping.

- `mapping_framed_iff`: the frame of a call.
-/

namespace GbaStation.Kernel

open Memory
open Memory.VMManager (Intact pointerAt bytePointer blocksSize areas MappedAt ContinuedBefore
  ContinuedAfter)
open Segment (view)
open VMAPermission (readWrite)
open Option (some.inj bind_eq_some_iff)

variable {state : MemoryState} {perms : VMAPermission} {target : Nat} {vm : VMManager}

/-- The blocks lie one behind the other from `target` on. -/
theorem mapBlocks_mappedAt {blocks : List (MemoryRef × Nat)} {vm' : VMManager} (h : Intact vm)
    (hw : blocksSize blocks < 2 ^ 32) (hmap : mapBlocks state perms blocks target vm = some vm') :
    (blocks ≠ [] → 0 < blocksSize blocks ∧ target + blocksSize blocks ≤ maxAddress) ∧
      MappedAt vm vm' target (target + blocksSize blocks) state perms (bytePointer blocks) := by
  have hlim : maxAddress = 0x40000000 := rfl
  induction blocks generalizing target vm with
  | nil =>
    obtain rfl := some.inj hmap
    exact ⟨fun hne => absurd rfl hne, .refl h target state perms⟩
  | cons b blocks ih =>
    obtain ⟨memory, size⟩ := b
    rw [VMManager.blocksSize_cons] at hw ⊢
    obtain ⟨⟨out, vm₁⟩, hcall, hmap⟩ := bind_eq_some_iff.mp hmap
    cases out with
    | error e => cases hmap
    | ok k =>
      obtain ⟨⟨k', vm₂⟩, hrep, hmap⟩ := bind_eq_some_iff.mp hmap
      obtain ⟨hpos, hle, hblock⟩ :=
        VMManager.mapReprotect_effect h (by simp only at hw; omega) hcall hrep
      rw [add32_eq (by omega)] at hmap
      obtain ⟨hrest, hmapped⟩ := ih hblock.intact (by omega) hmap
      cases blocks with
      | nil =>
        obtain rfl := some.inj hmap
        simp only [VMManager.blocksSize_nil, Nat.add_zero]
        exact ⟨fun _ => ⟨hpos, hle⟩, hblock⟩
      | cons b' blocks =>
        obtain ⟨hpos', hle'⟩ := hrest (by simp)
        rw [Nat.add_assoc] at hle' hmapped
        refine ⟨fun _ => ⟨by omega, hle'⟩, hblock.trans hmapped (by omega) (by omega) fun i => ?_⟩
        rw [bytePointer, Nat.add_sub_cancel_left]
        split_ifs with hi
        · rw [bytePointer, if_pos hi]
        · rfl

/-- Blocks of pages can be mapped into a free area, and leave a well-formed manager. -/
theorem mapBlocks_some {mems : BackingMem → Prop} {blocks : List (MemoryRef × Nat)}
    (h : VMManager.WellFormed mems vm) (hptr : ∀ m, mems m → m.ptr ≠ 0)
    (hblocks : ∀ b ∈ blocks, VMManager.SoundBlock mems b) (ht : target % pageSize = 0)
    (hfits : blocks ≠ [] → VMManager.FitsFree vm target (target + blocksSize blocks)) :
    ∃ vm', mapBlocks state perms blocks target vm = some vm' ∧ VMManager.WellFormed mems vm' := by
  have hlim : maxAddress = 0x40000000 := rfl
  induction blocks generalizing target vm with
  | nil => exact ⟨vm, rfl, h⟩
  | cons b blocks ih =>
    obtain ⟨memory, size⟩ := b
    obtain ⟨⟨hin, hsz, hpos⟩, hblocks⟩ := List.forall_mem_cons.mp hblocks
    have hall := hfits (by simp)
    rw [VMManager.blocksSize_cons] at hall
    obtain ⟨v, hv, hfree, hlo, hhi⟩ := id hall
    have hbound := (h.tiles.mem_bounds hv).2.2
    rw [VirtualMemoryArea.base_def, VirtualMemoryArea.size_def] at hbound
    simp only at hin hsz hpos hall hhi
    have hnull : memory.getPtr ≠ 0 := by
      obtain ⟨m, hm, hr, -⟩ := hin
      have := hptr m hm
      unfold MemoryRef.getPtr
      simp only [hr]
      omega
    obtain ⟨k, vm₁, k', vm₂, hcall, hrep, h₂, hrest⟩ :=
      VMManager.mapReprotect_some h ht hsz hpos state
      perms hnull hin ⟨v, hv, hfree, hlo, by omega⟩
    obtain ⟨vm', hmap, h'⟩ := ih h₂ hblocks (VirtualMemoryArea.mod_sub ht hsz).1 fun hne => by
      rw [Nat.add_assoc]
      refine hrest _ ?_ hall
      obtain ⟨b, bs, rfl⟩ := List.exists_cons_of_ne_nil hne
      have := (hblocks b (by simp)).2.2
      rw [VMManager.blocksSize_cons]
      omega
    refine ⟨vm', ?_, h'⟩
    rw [mapBlocks, hcall]
    simp only [Option.bind_eq_bind, Option.bind_some]
    rw [hrep, Option.bind_some, add32_eq (by omega)]
    exact hmap

/-- What a mapping of blocks that succeeds leaves behind. -/
theorem mapBlocks_wellFormed {mems : BackingMem → Prop} {blocks : List (MemoryRef × Nat)}
    {vm' : VMManager} (h : VMManager.WellFormed mems vm) (hw : blocksSize blocks < 2 ^ 32)
    (hblocks : ∀ b ∈ blocks, VMManager.SoundBlock mems b)
    (hmap : mapBlocks state perms blocks target vm = some vm') :
    (blocks ≠ [] → target % pageSize = 0) ∧ VMManager.WellFormed mems vm' := by
  induction blocks generalizing target vm with
  | nil =>
    obtain rfl := some.inj hmap
    exact ⟨fun hne => absurd rfl hne, h⟩
  | cons b blocks ih =>
    obtain ⟨memory, size⟩ := b
    obtain ⟨⟨hin, -, -⟩, hblocks⟩ := List.forall_mem_cons.mp hblocks
    rw [VMManager.blocksSize_cons] at hw
    obtain ⟨⟨out, vm₁⟩, hcall, hmap⟩ := bind_eq_some_iff.mp hmap
    cases out with
    | error e => cases hmap
    | ok k =>
      obtain ⟨⟨k', vm₂⟩, hrep, hmap⟩ := bind_eq_some_iff.mp hmap
      obtain ⟨ht, hsz, hpos, -, hptr, hfits⟩ :=
        VMManager.mapBackingMemory_inv h.toIntact (by simp only at hw; omega) hcall
      obtain ⟨k₀, vm₁', k₀', vm₂', hcall', hrep', h₂, -⟩ :=
        VMManager.mapReprotect_some h ht hsz hpos state perms hptr hin hfits
      rw [hcall] at hcall'
      obtain ⟨hk, rfl⟩ := returned hcall'
      obtain rfl := Except.ok.inj hk
      rw [hrep] at hrep'
      obtain ⟨rfl, rfl⟩ := returned hrep'
      exact ⟨fun _ => ht, (ih h₂ (by omega) hblocks hmap).2⟩

/-- Blocks taken from a region have the size that was asked for. -/
theorem blocksSize_fcramBlocks {ks : KernelSystem} {r r' : MemoryRegionInfo} {size : Nat}
    {fcram : IntervalSet} {blocks : List (MemoryRef × Nat)}
    (halloc : r.heapAllocate size = some (fcram, r')) (hne : ¬ fcram.blocks.isEmpty = true)
    (hblocks : ks.fcramBlocks fcram.blocks = some blocks) : blocksSize blocks = size := by
  rw [(KernelSystem.fcramBlocks_spec hblocks).1]
  rcases MemoryRegionInfo.heapAllocate_cases halloc with ⟨rfl, -⟩ | ⟨hcard, -⟩
  · exact absurd rfl hne
  · rw [← hcard, ← IntervalSet.total_eq]
    rfl

/-! ## Shared memory blocks -/

namespace SharedMemory

/-- The backing blocks make up the size. -/
def Whole (sm : SharedMemory) : Prop := blocksSize sm.backingBlocks = sm.size

variable {ks ks' : KernelSystem} {size address : Nat}
  {permissions otherPermissions : MemoryPermission}

end SharedMemory

/-! ## The calls -/

/-- A call that maps memory into the process. -/
inductive MappingCall
  | heapAllocate (target size : Nat) (perms : VMAPermission) (memoryState : MemoryState)
      (skipRangeCheck : Bool)
  | linearAllocate (target size : Nat) (perms : VMAPermission)
  | map (target source size : Nat) (perms : VMAPermission) (privileged : Bool)
  | mapShared (sm : SharedMemory) (whole : sm.Whole) (address : Nat)
      (permissions otherPermissions : MemoryPermission)

namespace MappingCall

/-- The code a call returns and the kernel it leaves behind. -/
def exec (ks : KernelSystem) : MappingCall → Option (Result × KernelSystem)
  | heapAllocate target size perms memoryState skipRangeCheck => do
    let (out, ks) ← Process.heapAllocate target size perms memoryState skipRangeCheck ks
    some (toResult out, ks)
  | linearAllocate target size perms => do
    let (out, ks) ← Process.linearAllocate target size perms ks
    some (toResult out, ks)
  | map target source size perms privileged =>
    Process.map target source size perms privileged ks
  | mapShared sm _ address permissions otherPermissions =>
    sm.map address permissions otherPermissions ks

/-- The arguments are 32-bit words. -/
def Words : MappingCall → Prop
  | heapAllocate target size _ _ _ | linearAllocate target size _ => target < 2 ^ 32 ∧ size < 2 ^ 32
  | map target source size _ _ => target < 2 ^ 32 ∧ source < 2 ^ 32 ∧ size < 2 ^ 32
  | mapShared sm _ address _ _ => sm.size < 2 ^ 32 ∧ address < 2 ^ 32

/-- What a call asks for: a range, its attributes and the host address of each of its bytes. -/
structure Request where
  target : Nat
  size : Nat
  permissions : VMAPermission
  meminfoState : MemoryState
  byte : Nat → Option Nat

/-- The FCRAM offset at which `LinearAllocate` takes its memory. -/
def linearOffset (target size : Nat) (ks : KernelSystem) : Option Nat :=
  if target = 0 then (ks.ownRegion.linearAllocate size).bind Prod.fst
  else some (sub32 target ks.process.getLinearHeapAreaAddress)

/-- The host address of byte `i` of the memory that `HeapAllocate` takes. -/
def heapByte (size : Nat) (ks : KernelSystem) (i : Nat) : Option Nat := do
  let (fcram, _) ← ks.ownRegion.heapAllocate size
  let blocks ← ks.fcramBlocks fcram.blocks
  bytePointer blocks i

/-- The request of a call, computed before it is made. -/
def request (ks : KernelSystem) : MappingCall → Request
  | heapAllocate target size perms memoryState _ =>
    ⟨target, size, perms, memoryState, heapByte size ks⟩
  | linearAllocate target size perms =>
    let offset := linearOffset target size ks
    let area := ks.process.getLinearHeapAreaAddress
    ⟨if target = 0 then add32 (offset.getD 0) area else target, size, perms, .continuous,
      fun i => if i < size then offset.map fun o => ks.fcram + o + i else none⟩
  | map target source size perms privileged =>
    ⟨target, size, perms, if privileged then .aliasCode else .alias,
      fun i => if i < size then pointerAt ks.process.vmManager (source + i) else none⟩
  | mapShared sm _ address permissions _ =>
    ⟨if sm.baseAddress = 0 ∧ address = 0 then add32 sm.linearHeapPhysOffset linearHeapVAddr
      else address, sm.size, SharedMemory.convertPermissions permissions, .shared,
      bytePointer sm.backingBlocks⟩

/-- The address is in the range that `Map` takes its memory from. -/
def InSource (a : Nat) : MappingCall → Prop
  | map _ source size _ _ => source ≤ a ∧ a < source + size
  | _ => False

/-- Every address of the range is as requested. -/
def Filled (c : MappingCall) (ks ks' : KernelSystem) : Prop :=
  ∀ i < (c.request ks).size,
    view (areas ks'.process.vmManager.vmaMap) ((c.request ks).target + i) =
      some ⟨.backingMemory, (c.request ks).permissions, (c.request ks).meminfoState,
        (c.request ks).byte i⟩

/-- Every address outside the ranges of the call is as it was. -/
def Framed (c : MappingCall) (ks ks' : KernelSystem) : Prop :=
  ∀ a, (a < (c.request ks).target ∨ (c.request ks).target + (c.request ks).size ≤ a) →
    ¬ c.InSource a → view (areas ks'.process.vmManager.vmaMap) a =
      view (areas ks.process.vmManager.vmaMap) a

/-- A privileged `Map` of a range onto itself. -/
def InPlace : MappingCall → Prop
  | map target source _ _ privileged => privileged = true ∧ source = target
  | _ => False

/-- The request of the call is continued by no neighbour, or changes it to what it is. -/
def Alone (c : MappingCall) (ks : KernelSystem) : Prop :=
  (c.request ks).permissions = readWrite ∨ c.InPlace ∨
    ¬ ContinuedBefore ks.process.vmManager (c.request ks).target (c.request ks).meminfoState
        ((c.request ks).byte 0) ∧
      ¬ ContinuedAfter ks.process.vmManager ((c.request ks).target + (c.request ks).size)
        (c.request ks).meminfoState ((c.request ks).byte ((c.request ks).size - 1))

/-! ## What a call that succeeds maps -/

theorem fcramBlocks_setRegion (r : MemoryRegion) (info : MemoryRegionInfo) (ks : KernelSystem)
    (is : List Interval) : (ks.setRegion r info).fcramBlocks is = ks.fcramBlocks is := by
  induction is with
  | nil => rfl
  | cons i is ih =>
    unfold KernelSystem.fcramBlocks
    rw [ih]
    rfl

variable {ks ks' : KernelSystem} {res : Result}

/-- The range of a request has been mapped, after other changes (by `Map`, to its source) that leave
the rest as it is. -/
structure Placed (c : MappingCall) (ks ks' : KernelSystem) (vm : VMManager) : Prop where
  mapped : MappedAt vm ks'.process.vmManager (c.request ks).target
    ((c.request ks).target + (c.request ks).size) (c.request ks).meminfoState
    (c.request ks).permissions (c.request ks).byte
  beside : ∀ a, ¬ c.InSource a →
    view (areas vm.vmaMap) a = view (areas ks.process.vmManager.vmaMap) a
  /-- The source continues no mapping, before or after. -/
  source : ∀ a p, c.InSource a →
    view (areas vm.vmaMap) a ≠ some (.fresh (c.request ks).meminfoState p) ∧
      view (areas ks.process.vmManager.vmaMap) a ≠
        some (.fresh (c.request ks).meminfoState p)

theorem placed_heapAllocate {size : Nat} {memoryState : MemoryState} {skip : Bool}
    (hsz : size < 2 ^ 32) (h : Intact ks.process.vmManager) (hres : res.isSuccess = true)
    (he : exec ks (heapAllocate target size perms memoryState skip) = some (res, ks')) :
    Placed (heapAllocate target size perms memoryState skip) ks ks' ks.process.vmManager := by
  obtain ⟨⟨out, ks₁⟩, hcall, he⟩ := bind_eq_some_iff.mp he
  obtain ⟨rfl, rfl⟩ := returned he
  unfold Process.heapAllocate at hcall
  split at hcall
  · obtain ⟨rfl, rfl⟩ := returned hcall
    cases hres
  obtain ⟨allocated, -, hcall⟩ := bind_eq_some_iff.mp hcall
  split at hcall
  · obtain ⟨rfl, rfl⟩ := returned hcall
    cases hres
  obtain ⟨⟨fcram, region⟩, halloc, hcall⟩ := bind_eq_some_iff.mp hcall
  simp only at hcall
  split at hcall
  · obtain ⟨rfl, rfl⟩ := returned hcall
    cases hres
  next hne =>
  obtain ⟨blocks, hblocks, hcall⟩ := bind_eq_some_iff.mp hcall
  obtain ⟨vm, hmap, hcall⟩ := bind_eq_some_iff.mp hcall
  obtain ⟨rfl, rfl⟩ := returned hcall
  have hsize : blocksSize blocks = size := blocksSize_fcramBlocks halloc hne hblocks
  have hbyte : heapByte size ks = bytePointer blocks := by
    funext i
    unfold heapByte
    rw [show ks.ownRegion.heapAllocate size = some (fcram, region) from halloc]
    rw [fcramBlocks_setRegion] at hblocks
    simp only [Option.bind_eq_bind, Option.bind_some, hblocks]
  obtain ⟨-, hmapped⟩ := mapBlocks_mappedAt h (by omega) hmap
  rw [hsize] at hmapped
  refine ⟨?_, fun _ _ => rfl, fun _ _ hin => hin.elim⟩
  simp only [request]
  rw [hbyte]
  exact hmapped

/-- The last part of `LinearAllocate`. -/
theorem mapLinear_mappedAt {offset size : Nat} {out : Except Result Nat} (hsz : size < 2 ^ 32)
    (hcall : Process.mapLinear target offset size perms ks = some (out, ks'))
    (h : Intact ks.process.vmManager) :
    MappedAt ks.process.vmManager ks'.process.vmManager target (target + size) .continuous perms
      fun i => if i < size then some (ks.fcram + offset + i) else none := by
  obtain ⟨r, hr, hcall⟩ := bind_eq_some_iff.mp hcall
  obtain ⟨vm, hmap, hcall⟩ := bind_eq_some_iff.mp hcall
  obtain ⟨-, rfl⟩ := returned hcall
  have hsize : blocksSize [(r, size)] = size := Nat.add_zero size
  have hbyte : bytePointer [(r, size)] =
      fun i => if i < size then some (ks.fcram + offset + i) else none := by
    funext i
    rw [bytePointer, KernelSystem.getPtr_fcramRef hr]
    rfl
  obtain ⟨-, hmapped⟩ := mapBlocks_mappedAt h (by omega) hmap
  rw [hsize, hbyte] at hmapped
  exact hmapped

theorem placed_linearAllocate {size : Nat} (hsz : size < 2 ^ 32) (h : Intact ks.process.vmManager)
    (hres : res.isSuccess = true)
    (he : exec ks (linearAllocate target size perms) = some (res, ks')) :
    Placed (linearAllocate target size perms) ks ks' ks.process.vmManager := by
  obtain ⟨⟨out, ks₁⟩, hcall, he⟩ := bind_eq_some_iff.mp he
  obtain ⟨rfl, rfl⟩ := returned he
  refine ⟨?_, fun _ _ => rfl, fun _ _ hin => hin.elim⟩
  unfold Process.linearAllocate at hcall
  split at hcall
  next htarget =>
    obtain ⟨⟨found, info⟩, halloc, hcall⟩ := bind_eq_some_iff.mp hcall
    cases found with
    | none =>
      obtain ⟨rfl, rfl⟩ := returned hcall
      cases hres
    | some offset =>
      have hoffset : linearOffset target size ks = some offset := by
        unfold linearOffset
        rw [if_pos htarget,
          show ks.ownRegion.linearAllocate size = some (some offset, info) from halloc]
        rfl
      have hmapped := mapLinear_mappedAt hsz
        (show Process.mapLinear _ offset size perms (ks.setRegion _ info) = _ from hcall) h
      simp only [request, hoffset, if_pos htarget, Option.getD_some, Option.map_some]
      exact hmapped
  next htarget =>
    split at hcall
    · obtain ⟨rfl, rfl⟩ := returned hcall
      cases hres
    obtain ⟨⟨allocated, info⟩, -, hcall⟩ := bind_eq_some_iff.mp hcall
    simp only at hcall
    split at hcall
    · obtain ⟨rfl, rfl⟩ := returned hcall
      cases hres
    have hoffset : linearOffset target size ks =
        some (sub32 target ks.process.getLinearHeapAreaAddress) := if_neg htarget
    have hmapped := mapLinear_mappedAt hsz hcall h
    simp only [request, hoffset, if_neg htarget, Option.map_some]
    exact hmapped

theorem mapCheck_fails {sm : SharedMemory} {address : Nat}
    {permissions otherPermissions : MemoryPermission} {e : Result}
    (h : sm.mapCheck address permissions otherPermissions = some e) : e.isSuccess = false := by
  unfold SharedMemory.mapCheck at h
  simp only at h
  split_ifs at h
  all_goals
    obtain rfl := some.inj h
    rfl

theorem placed_mapShared {sm : SharedMemory} {whole : sm.Whole}
    {address : Nat} {permissions otherPermissions : MemoryPermission} (hsz : sm.size < 2 ^ 32)
    (h : Intact ks.process.vmManager) (hres : res.isSuccess = true)
    (he : exec ks (mapShared sm whole address permissions otherPermissions) = some (res, ks')) :
    Placed (mapShared sm whole address permissions otherPermissions) ks ks'
      ks.process.vmManager := by
  refine ⟨?_, fun _ _ => rfl, fun _ _ hin => hin.elim⟩
  simp only [exec, SharedMemory.map] at he
  split at he
  next e hcheck =>
    obtain ⟨rfl, rfl⟩ := returned he
    rw [mapCheck_fails hcheck] at hres
    cases hres
  next hcheck =>
    obtain ⟨allocated, -, he⟩ := bind_eq_some_iff.mp he
    split at he
    · obtain ⟨rfl, rfl⟩ := returned he
      cases hres
    obtain ⟨vm, hmap, he⟩ := bind_eq_some_iff.mp he
    obtain ⟨rfl, rfl⟩ := returned he
    have hsize : blocksSize sm.backingBlocks = sm.size := whole
    obtain ⟨-, hmapped⟩ := mapBlocks_mappedAt h (by omega) hmap
    rw [hsize] at hmapped
    exact hmapped

variable {source : Nat} {c : MappingCall}

theorem placed_map {size : Nat} {privileged : Bool} {r : Result} {blocks : List (MemoryRef × Nat)}
    (hsrc : source < 2 ^ 32) (hsz : size < 2 ^ 32) (h : Intact ks.process.vmManager)
    (hr : r.isSuccess = true)
    (hchange : ks.process.vmManager.changeMemoryState source size .privateMemory
      readWrite (if privileged then .locked else .aliased)
      (if privileged then VMAPermission.none else readWrite) = some (r, vm))
    (hblocks : vm.getBackingBlocksForRange source size = some (.ok blocks))
    (hmap : mapBlocks (if privileged then .aliasCode else .alias) perms blocks target vm =
      some ks'.process.vmManager) :
    0 < size ∧ Placed (map target source size perms privileged) ks ks' vm := by
  rcases VMManager.changeMemoryState_effect h hsrc hsz hchange with ⟨hfail, -⟩ | ⟨-, hrew⟩
  · rw [hfail] at hr
    cases hr
  obtain ⟨hi, hpos, hle, hview, -⟩ := id hrew
  have hexp := VMManager.changeMemoryState_expected h hpos hle hr hchange
  obtain ⟨hsize, hbyte⟩ := VMManager.getBackingBlocksForRange_spec hi hle hblocks
  obtain ⟨-, hmapped⟩ := mapBlocks_mappedAt hi (by omega) hmap
  refine ⟨hpos, ?_, fun a ha => ?_, fun a p ha => ?_⟩
  · rw [hsize] at hmapped
    have heq : bytePointer blocks = fun i => if i < size then
        pointerAt ks.process.vmManager (source + i) else none := by
      funext i
      split_ifs with hlt
      · rw [hbyte i hlt, hrew.pointerAt_eq fun _ => rfl]
      · cases hb : bytePointer blocks i with
        | none => rfl
        | some p => exact absurd (hsize ▸ VMManager.bytePointer_isSome hb) hlt
    rw [heq] at hmapped
    exact hmapped
  · have hout : ¬ (source ≤ a ∧ a < source + size) := ha
    rw [hview, if_neg hout]
  · have hin : source ≤ a ∧ a < source + size := ha
    obtain ⟨q, hq, ⟨hstate, -⟩, -⟩ := hexp a hin.1 hin.2
    simp only [request]
    rw [hview, if_pos hin, hq]
    constructor
    · intro heq
      have := congrArg PageAttr.meminfoState (some.inj heq)
      cases privileged <;> cases this
    · intro heq
      rw [some.inj heq] at hstate
      cases privileged <;> cases hstate

theorem Placed.filled (h : Placed c ks ks' vm) : c.Filled ks ks' := by
  intro i hi
  rw [h.mapped.inside _ (Nat.le_add_right _ i) (by omega), Nat.add_sub_cancel_left]

/-- Changes to the source make no difference to whether a call stands alone. -/
theorem Placed.alone_iff (h : Placed c ks ks' vm) (hp : ¬ c.InPlace) :
    c.Alone ks ↔ (c.request ks).permissions = readWrite ∨
      ¬ ContinuedBefore vm (c.request ks).target (c.request ks).meminfoState
          ((c.request ks).byte 0) ∧
        ¬ ContinuedAfter vm ((c.request ks).target + (c.request ks).size)
          (c.request ks).meminfoState ((c.request ks).byte ((c.request ks).size - 1)) := by
  have hsame :
      ∀ a p, view (areas vm.vmaMap) a = some (.fresh (c.request ks).meminfoState p) ↔
      view (areas ks.process.vmManager.vmaMap) a =
        some (.fresh (c.request ks).meminfoState p) := by
    intro a p
    by_cases ha : c.InSource a
    · exact iff_of_false (h.source a p ha).1 (h.source a p ha).2
    · rw [h.beside a ha]
  unfold Alone ContinuedBefore ContinuedAfter
  rw [or_iff_right hp]
  simp only [hsame]

theorem Placed.framed_iff (h : Placed c ks ks' vm) (hp : ¬ c.InPlace) :
    c.Framed ks ks' ↔ c.Alone ks := by
  have hframe := h.mapped.frame_iff (P := c.InSource) fun a p ha => (h.source a p ha).1
  rw [Nat.add_sub_cancel_left] at hframe
  rw [h.alone_iff hp, ← hframe]
  refine forall_congr' fun a => forall_congr' fun _ => forall_congr' fun ha => ?_
  rw [h.beside a ha]

/-- A privileged `Map` of a range onto itself changes the range and nothing else. -/
theorem inPlace_framed {size : Nat} (hsrc : source < 2 ^ 32) (hsz : size < 2 ^ 32)
    (h : Intact ks.process.vmManager) (hres : res.isSuccess = true)
    (hchange : ks.process.vmManager.changeMemoryState source size .privateMemory
      readWrite .aliasCode perms = some (res, ks'.process.vmManager)) :
    (map source source size perms true).Filled ks ks' ∧
      (map source source size perms true).Framed ks ks' := by
  rcases VMManager.changeMemoryState_effect h hsrc hsz hchange with ⟨hfail, -⟩ | ⟨-, hrew⟩
  · rw [hfail] at hres
    cases hres
  have hexp := VMManager.changeMemoryState_expected h hrew.pos hrew.inSpace hres hchange
  constructor
  · intro i hi
    have hi' : i < size := hi
    obtain ⟨q, hq, -, hmapped⟩ := hexp (source + i) (by omega) (by omega)
    have htype : q.type = .backingMemory := by
      cases ht : q.type with
      | free => exact absurd ht hmapped
      | backingMemory => rfl
    simp only [request]
    rw [hrew.view, if_pos (by omega), if_pos hi', pointerAt, hq]
    show some (PageAttr.stateChanged .aliasCode perms q) = _
    rw [PageAttr.stateChanged, htype]
    rfl
  · intro a ha _
    rw [hrew.view, if_neg (by simp only [request] at ha; omega)]

/-- A call that succeeds has mapped its range as requested, and has left every address outside its
ranges as it was exactly if it stood alone. -/
theorem mapping_framed_iff (c : MappingCall) (ks ks' : KernelSystem) (res : Result) (hw : c.Words)
    (h : Intact ks.process.vmManager) (hres : res.isSuccess = true)
    (he : c.exec ks = some (res, ks')) :
    (c.Filled ks ks' ∧ c.Framed ks ks') ↔ c.Alone ks := by
  cases c with
  | heapAllocate target size perms memoryState skip =>
    have hp := placed_heapAllocate hw.2 h hres he
    exact (and_iff_right hp.filled).trans (hp.framed_iff id)
  | linearAllocate target size perms =>
    have hp := placed_linearAllocate hw.2 h hres he
    exact (and_iff_right hp.filled).trans (hp.framed_iff id)
  | map target source size perms privileged =>
    rcases Process.map_inv he with
      ⟨hfail, -⟩ | ⟨rfl, rfl, vm, rfl, hchange⟩ | ⟨-, hapart, r, vm, hchange, hend⟩
    · exact absurd (hfail.symm.trans hres) nofun
    · exact iff_of_true (inPlace_framed hw.2.1 hw.2.2 h hres hchange) (Or.inr (Or.inl ⟨rfl, rfl⟩))
    rcases hend with ⟨hfail, rfl, -⟩ | ⟨hr, e | blocks, hblocks, hend⟩
    · exact absurd (hfail.symm.trans hres) nofun
    · rw [hend.1, VMManager.backingBlocksLoop_error hblocks] at hres
      cases hres
    · obtain ⟨-, vm', rfl, hmap⟩ := hend
      obtain ⟨hpos, hp⟩ : 0 < size ∧ Placed (map target source size perms privileged) ks
          (ks.setVMManager vm') vm :=
        placed_map hw.2.1 hw.2.2 h hr hchange hblocks hmap
      refine (and_iff_right hp.filled).trans (hp.framed_iff ?_)
      rintro ⟨-, rfl⟩
      have hzero : sub32 source source = 0 :=
        sub32_eq (Nat.le_refl _) hw.1 |>.trans (Nat.sub_self _)
      exact hapart (Or.inl (by omega))
  | mapShared sm whole address permissions otherPermissions =>
    have hp := placed_mapShared hw.1 h hres he
    exact (and_iff_right hp.filled).trans (hp.framed_iff id)

section Example

open KernelSystem (startApplication execAll)

/-- A kernel with one page of the linear heap mapped, readable and writable. -/
def exampleKernel : Option KernelSystem :=
  startApplication.bind (execAll [.controlMemory 0 0 0x1000 0x10003 3])

/-- The next page, with the permissions given. -/
def exampleNext (perms : VMAPermission) : MappingCall := linearAllocate 0 0x1000 perms

/-- Whether the call succeeds, where, and the permissions of the first page before and after. -/
def exampleOutcome (perms : VMAPermission) (ks : KernelSystem) :
    Option (Bool × Nat × Option VMAPermission × Option VMAPermission) := do
  let (res, ks') ← (exampleNext perms).exec ks
  some (res.isSuccess, ((exampleNext perms).request ks).target,
    (view (areas ks.process.vmManager.vmaMap) 0x30000000).map PageAttr.permissions,
    (view (areas ks'.process.vmManager.vmaMap) 0x30000000).map PageAttr.permissions)

theorem exampleKernel_intact {ks : KernelSystem} (h : exampleKernel = some ks) :
    Intact ks.process.vmManager := by
  obtain ⟨ks₀, hstart, hrun⟩ := bind_eq_some_iff.mp h
  have hreached : KernelSystem.Reached (fun c ks => c.ReleasesOwn ks) ks :=
    (KernelSystem.Reached.start hstart).execAll (by
      intro c hc ks
      obtain rfl := List.mem_singleton.mp hc
      exact fun _ hop => absurd hop (by decide)) hrun
  exact hreached.owned.intact

/-- Mapped as a mapping is anyway, it leaves the first page as it is. -/
theorem mapping_framed_readWrite :
    ∃ ks ks' : KernelSystem, (exampleNext readWrite).exec ks =
        some (Result.success, ks') ∧
      (exampleNext readWrite).Filled ks ks' ∧
        (exampleNext readWrite).Framed ks ks' := by
  have hrun : (exampleKernel.bind (exampleNext readWrite).exec).map Prod.fst =
      some Result.success := by
    decide +kernel
  obtain ⟨⟨res, ks'⟩, hrun, rfl⟩ := Option.map_eq_some_iff.mp hrun
  obtain ⟨ks, hks, hcall⟩ := bind_eq_some_iff.mp hrun
  have hw : (exampleNext readWrite).Words := ⟨by decide, by decide⟩
  exact ⟨ks, ks', hcall, (mapping_framed_iff _ ks ks' _ hw (exampleKernel_intact hks)
    (show Result.success.isSuccess = true from rfl) hcall).mpr (Or.inl rfl)⟩

/-- A second page beside it, mapped read-only, makes the first one read-only too. -/
theorem linearAllocate_reprotects_neighbour :
    ∃ (c : MappingCall) (ks ks' : KernelSystem) (res : Result), c.Words ∧
      Intact ks.process.vmManager ∧ res.isSuccess = true ∧ c.exec ks = some (res, ks') ∧
        ¬ c.Framed ks ks' := by
  have hrun : exampleKernel.bind (exampleOutcome VMAPermission.read) =
      some (true, 0x30001000, some readWrite, some VMAPermission.read) := by
    decide +kernel
  obtain ⟨ks, hks, hrun⟩ := bind_eq_some_iff.mp hrun
  obtain ⟨⟨res, ks'⟩, hcall, hrun⟩ := bind_eq_some_iff.mp hrun
  simp only [Option.some.injEq, Prod.mk.injEq] at hrun
  obtain ⟨hres, htarget, hbefore, hafter⟩ := hrun
  have hw : (exampleNext VMAPermission.read).Words := ⟨by decide, by decide⟩
  refine ⟨_, ks, ks', res, hw, exampleKernel_intact hks, hres, hcall, fun hframe => ?_⟩
  have hsame := hframe 0x30000000 (Or.inl (by omega)) id
  rw [hsame, hbefore] at hafter
  exact absurd hafter (by decide)

end Example

end MappingCall

end GbaStation.Kernel
