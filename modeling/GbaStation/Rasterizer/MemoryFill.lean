import GbaStation.Common.IntervalMap
import GbaStation.Common.SlotVector
import GbaStation.Rasterizer.PhysicalMemory
import GbaStation.Rasterizer.Surface

/-!
# Memory fills (`renderer_software/sw_blitter.cpp`, `rasterizer_cache/rasterizer_cache.h`)

A fill repeats a value of two, three or four bytes over a range of memory. The blitter writes it at
once; the cache makes a surface of it and writes the bytes when a part of the range is flushed.
-/

namespace GbaStation.Rasterizer

/-! ## Configurations -/

structure MemoryFillConfig where
  addressStart : UInt32
  addressEnd : UInt32
  value32bit : UInt32
  fill24bit : Bool
  fill32bit : Bool

namespace MemoryFillConfig

/-- `DecodeAddressRegister` of the start. -/
def getStartAddress (config : MemoryFillConfig) : UInt32 := config.addressStart * 8

/-- `DecodeAddressRegister` of the end. -/
def getEndAddress (config : MemoryFillConfig) : UInt32 := config.addressEnd * 8

/-- The bytes of the value: those of `value_16bit` and `value_24bit` are the first of them. -/
def valueBytes (config : MemoryFillConfig) : List UInt8 :=
  [config.value32bit.toUInt8, (config.value32bit >>> 8).toUInt8,
    (config.value32bit >>> 16).toUInt8, (config.value32bit >>> 24).toUInt8]

@[simp] theorem length_valueBytes (config : MemoryFillConfig) : config.valueBytes.length = 4 := rfl

end MemoryFillConfig

/-! ## The blitter -/

/-- `SwBlitter::MemoryFill`. The invalidation before it does nothing to memory. -/
def memoryFill (config : MemoryFillConfig) (mem : GuestMemory) :
    Except MemoryFault GuestMemory :=
  match getPhysicalRef config.getStartAddress.toNat, getPhysicalRef config.getEndAddress.toNat with
  | some start, some stop =>
    if config.getEndAddress ≤ config.getStartAddress then .ok mem
    else if start.area ≠ stop.area then .error .unrelated
    else
      let length := stop.offset - start.offset
      if config.fill24bit then
        strideLoop length 3 (fun i mem => start.write i (config.valueBytes.take 3) mem) 0 mem
      else if config.fill32bit then
        strideLoop (length / 4) 1 (fun i mem => start.write (i * 4) config.valueBytes mem) 0 mem
      else strideLoop length 2 (fun i mem => start.write i (config.valueBytes.take 2) mem) 0 mem
  | _, _ => .ok mem

/-! ## The cache -/

/-- What the fills of the cache need: its surfaces, and who has newer bytes than memory. -/
structure FillCache where
  slotSurfaces : SlotVector Surface
  dirtyRegions : IntervalMap Nat

/-- What an invalidation does to surfaces that are not the owner, and what the download of a surface
that is no fill writes. -/
structure OtherSurfaces where
  invalidate : Interval → Nat → SlotVector Surface → SlotVector Surface
  get_invalidate : ∀ interval owner slots, (invalidate interval owner slots).get owner =
    slots.get owner
  download : Surface → Interval → GuestMemory → Except MemoryFault GuestMemory

/-- The surface of a fill. -/
def MemoryFillConfig.fillSurface (config : MemoryFillConfig) : Surface where
  addr := config.getStartAddress
  endAddr := config.getEndAddress
  size := config.getEndAddress - config.getStartAddress
  type := .fill
  resScale := 0xFFFF
  fillData := config.valueBytes
  fillSize := if config.fill32bit then 4 else if config.fill24bit then 3 else 2

namespace FillCache

variable (others : OtherSurfaces)

/-- `InvalidateRegion` with an owner. -/
def invalidateRegion (c : FillCache) (addr size : UInt32) (owner : Nat) :
    Except MemoryFault FillCache :=
  if size = 0 then .ok c
  else
    let interval := span addr (addr + size)
    match c.slotSurfaces.get owner with
    | none => .error .dangling
    | some s =>
      if s.type ≠ .texture ∧ addr ≥ s.addr ∧ addr + size ≤ s.endAddr ∧ s.width = s.stride then
        .ok {
          slotSurfaces := others.invalidate interval owner
            (c.slotSurfaces.modify owner (Surface.markValid interval))
          dirtyRegions := c.dirtyRegions.set interval owner }
      else .error .assertion

def accelerateFill (c : FillCache) (config : MemoryFillConfig) : Except MemoryFault FillCache :=
  let surface := config.fillSurface
  let (id, slots) := c.slotSurfaces.insert surface
  invalidateRegion others { c with slotSurfaces := slots } surface.addr surface.size id

/-- `DownloadFillSurface`. Whole patterns are written from an offset that is rounded down; what they
overwrite in front of the interval is restored. -/
def downloadFillSurface (surface : Surface) (interval : Interval) (mem : GuestMemory) :
    Except MemoryFault GuestMemory :=
  if surface.addr.toNat ≤ interval.lower ∧ interval.upper ≤ surface.endAddr.toNat then
    match getPhysicalRef surface.addr.toNat with
    | none => .ok mem
    | some dest => do
      let startOffset := interval.lower - surface.addr.toNat
      let endOffset := min (interval.upper - surface.addr.toNat) dest.getSize
      let backupBytes := startOffset % surface.fillSize
      let coarseStartOffset := startOffset - backupBytes
      let backup ← dest.read coarseStartOffset backupBytes mem
      let mem ← strideLoop endOffset surface.fillSize (fun offset mem =>
        dest.write offset (surface.fillData.take (min surface.fillSize (endOffset - offset))) mem)
        coarseStartOffset mem
      dest.write coarseStartOffset backup mem
  else .error .assertion

/-- The part of a segment that is flushed: all of it for a small size, which most likely comes from
the CPU. -/
def flushPart (size : UInt32) (flushInterval region : Interval) : Interval :=
  if size ≤ 8 then region else meet region flushInterval

/-- The body of the loop of `FlushRegion`: the intervals that were flushed, and memory. -/
def flushSegment (slots : SlotVector Surface) (size : UInt32) (flushInterval : Interval)
    (flushed : IntervalSet × GuestMemory) (segment : Interval × Nat) :
    Except MemoryFault (IntervalSet × GuestMemory) :=
  let interval := flushPart size flushInterval segment.1
  match slots.get segment.2 with
  | none => .error .dangling
  | some surface =>
    if surface.isRegionValid interval then do
      let mem ← if surface.type = .fill then downloadFillSurface surface interval flushed.2
        else others.download surface interval flushed.2
      return (flushed.1.add interval, mem)
    else .error .assertion

/-- `FlushRegion` for all surfaces. -/
def flushRegion (c : FillCache) (addr size : UInt32) (mem : GuestMemory) :
    Except MemoryFault (FillCache × GuestMemory) :=
  if size = 0 then .ok (c, mem)
  else do
    let flushInterval := span addr (addr + size)
    let (flushed, mem) ← (c.dirtyRegions.overlapping flushInterval).foldlM
      (flushSegment others c.slotSurfaces size flushInterval) (.empty, mem)
    return ({ c with dirtyRegions := c.dirtyRegions.eraseSet flushed }, mem)

/-- Calls of `FlushRegion` one after the other. -/
def flushRegions (c : FillCache) (mem : GuestMemory) :
    List (UInt32 × UInt32) → Except MemoryFault (FillCache × GuestMemory)
  | [] => .ok (c, mem)
  | (addr, size) :: flushes => do
    let (c, mem) ← c.flushRegion others addr size mem
    c.flushRegions mem flushes

end FillCache

/-! ## Patterns -/

/-- Memory with the pattern from `lo` to `hi`, in phase with `start`. -/
def fillPattern (pattern : List UInt8) (start lo hi : Nat) (mem : GuestMemory) : GuestMemory :=
  fun a => if lo ≤ a ∧ a < hi then pattern.getD ((a - start) % pattern.length) 0 else mem a

section Patterns

variable {pattern : List UInt8} {start lo hi stop offset m : Nat} {mem mem' : GuestMemory}
  {ref : MemoryRef}

theorem fillPattern_empty (h : hi ≤ lo) : fillPattern pattern start lo hi mem = mem := by
  funext a
  exact if_neg (by omega)

theorem fillPattern_congr {pattern' : List UInt8}
    (h : ∀ k, pattern.getD (k % pattern.length) 0 = pattern'.getD (k % pattern'.length) 0) :
    fillPattern pattern start lo hi mem = fillPattern pattern' start lo hi mem := by
  funext a
  unfold fillPattern
  rw [h]

/-- A part of the pattern that is written behind the pattern so far, at a whole number of patterns
from the start. -/
theorem write_fillPattern (hm : m ≤ pattern.length) (hphase : pattern.length ∣ offset)
    (hlo : lo ≤ ref.address + offset) (hinside : ref.Inside offset m) :
    ref.write offset (pattern.take m)
        (fillPattern pattern ref.address lo (ref.address + offset) mem) =
      .ok (fillPattern pattern ref.address lo (ref.address + (offset + m)) mem) := by
  have hlength : (pattern.take m).length = m := List.length_take_of_le hm
  rw [MemoryRef.write_of_inside (by rwa [hlength]), hlength]
  refine congrArg Except.ok (funext fun a => ?_)
  unfold fillPattern
  split_ifs with hnew hall hold hall' <;> try omega
  · -- a byte of the new part
    obtain ⟨k, rfl⟩ := hphase
    have hphase' : (a - ref.address) % pattern.length =
        a - (ref.address + pattern.length * k) := by
      have hsum : a - ref.address =
          a - (ref.address + pattern.length * k) + pattern.length * k := by omega
      rw [hsum, Nat.add_mul_mod_self_left, Nat.mod_eq_of_lt (by omega)]
    rw [hphase', List.getD_eq_getElem?_getD, List.getD_eq_getElem?_getD,
      List.getElem?_take_of_lt (by omega)]
  · rfl
  · rfl

end Patterns

end GbaStation.Rasterizer
