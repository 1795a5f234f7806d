import GbaStation.Common.IntervalSet

/-!
# The geometry of a surface (`rasterizer_cache/surface_params.cpp`)

Where the pixels of a surface lie in memory. All quantities are `u32`, and the arithmetic wraps
around as that of the code does. A failed `ASSERT` stops the program; a division by zero, which
would stop it too, has the value of Lean's division here, so the model has more runs than the code.
-/

namespace GbaStation.Rasterizer

/-- Why a computation of the cache stops: a failed `ASSERT`, a use of a slot that is not allocated,
the assertion "Region owner has invalid regions" of `FlushRegion`, a use of the end of a container,
or more turns of a loop than were looked at. -/
inductive Abort where
  | assertion | dangling | regionOwner | pastTheEnd | fuel
deriving DecidableEq, Repr

/-- `ASSERT`. -/
def ensure (p : Prop) [Decidable p] : Except Abort Unit :=
  if p then .ok () else .error .assertion

inductive PixelFormat where
  | rgba8 | rgb8 | rgb5a1 | rgb565 | rgba4 | ia8 | rg8 | i8 | a8 | ia4 | i4 | a4 | etc1 | etc1a4
  | d16 | d24 | d24s8 | invalid
deriving DecidableEq, Repr

inductive SurfaceType where
  | color | texture | depth | depthStencil | fill | invalid
deriving DecidableEq, Repr

inductive TextureType where
  | texture2D | cubeMap
deriving DecidableEq, Repr

/-- `GetFormatBpp`; the format of a surface without one is never asked for. -/
def getFormatBpp : PixelFormat → UInt32
  | .rgba8 | .d24s8 => 32
  | .rgb8 | .d24 => 24
  | .rgb5a1 | .rgb565 | .rgba4 | .ia8 | .rg8 | .d16 => 16
  | .i8 | .a8 | .ia4 | .etc1a4 => 8
  | .i4 | .a4 | .etc1 => 4
  | .invalid => 0

/-- `GetFormatType`. -/
def getFormatType : PixelFormat → Except Abort SurfaceType
  | .rgba8 | .rgb8 | .rgb5a1 | .rgb565 | .rgba4 => .ok .color
  | .ia8 | .rg8 | .i8 | .a8 | .ia4 | .i4 | .a4 | .etc1 | .etc1a4 => .ok .texture
  | .d16 | .d24 => .ok .depth
  | .d24s8 => .ok .depthStencil
  | .invalid => .error .assertion

/-- `Common::AlignUp`. -/
def alignUp (value size : UInt32) : UInt32 :=
  let rem := value % size
  if rem = 0 then value - rem else value - rem + size

/-- `Common::AlignDown`. -/
def alignDown (value size : UInt32) : UInt32 := value - value % size

/-! ## Intervals of addresses -/

/-- `SurfaceInterval{start, end}`. -/
def span (start stop : UInt32) : Interval := ⟨start.toNat, stop.toNat⟩

/-- `boost::icl::first`. -/
def first (i : Interval) : UInt32 := UInt32.ofNat i.lower

/-- `boost::icl::last_next`. -/
def lastNext (i : Interval) : UInt32 := UInt32.ofNat i.upper

/-- `i & j`. -/
def meet (i j : Interval) : Interval := ⟨max i.lower j.lower, min i.upper j.upper⟩

/-- `i == j`: two empty intervals are equal. -/
def sameInterval (i j : Interval) : Bool :=
  decide (i.upper ≤ i.lower ∧ j.upper ≤ j.lower ∨ i = j)

@[simp] theorem lower_span (start stop : UInt32) : (span start stop).lower = start.toNat := rfl

@[simp] theorem upper_span (start stop : UInt32) : (span start stop).upper = stop.toNat := rfl

@[simp] theorem lower_meet (i j : Interval) : (meet i j).lower = max i.lower j.lower := rfl

@[simp] theorem upper_meet (i j : Interval) : (meet i j).upper = min i.upper j.upper := rfl

/-! ## Parameters -/

/-- `MAX_PICA_LEVELS`. -/
def maxPicaLevels : Nat := 8

structure SurfaceParams where
  addr : UInt32 := 0
  /-- `end`. -/
  endAddr : UInt32 := 0
  size : UInt32 := 0
  width : UInt32 := 0
  height : UInt32 := 0
  stride : UInt32 := 0
  levels : UInt32 := 1
  resScale : UInt32 := 1
  isTiled : Bool := false
  textureType : TextureType := .texture2D
  pixelFormat : PixelFormat := .invalid
  type : SurfaceType := .invalid
  mipmapOffsets : List UInt32 := List.replicate maxPicaLevels 0
deriving DecidableEq, Repr

namespace SurfaceParams

def getInterval (p : SurfaceParams) : Interval := span p.addr p.endAddr

def pixelsInBytes (p : SurfaceParams) (size : UInt32) : UInt32 :=
  size * 8 / getFormatBpp p.pixelFormat

def bytesInPixels (p : SurfaceParams) (pixels : UInt32) : UInt32 :=
  pixels * getFormatBpp p.pixelFormat / 8

/-- The offsets of the levels from `offset` on. -/
def levelOffsets (p : SurfaceParams) : Nat → UInt32 → UInt32 → UInt32 → List UInt32
  | 0, _, _, _ => []
  | n + 1, width, height, offset =>
    offset :: p.levelOffsets n (width >>> 1) (height >>> 1)
      (offset + p.bytesInPixels (width * height))

/-- `CalculateMipLevelOffsets`. -/
def calculateMipLevelOffsets (p : SurfaceParams) : List UInt32 :=
  p.levelOffsets p.levels.toNat p.width p.height p.addr ++ p.mipmapOffsets.drop p.levels.toNat

/-- The size of the levels. -/
def levelSizes (p : SurfaceParams) : Nat → UInt32 → UInt32 → UInt32
  | 0, _, _ => 0
  | n + 1, width, height =>
    p.bytesInPixels (width * height) + p.levelSizes n (width >>> 1) (height >>> 1)

/-- `CalculateSurfaceSize`. -/
def calculateSurfaceSize (p : SurfaceParams) : UInt32 :=
  p.levelSizes p.levels.toNat p.width p.height

def updateParams (p : SurfaceParams) : Except Abort SurfaceParams := do
  let p := if p.stride = 0 then { p with stride := p.width } else p
  let p := { p with type := ← getFormatType p.pixelFormat }
  if p.levels ≠ 1 then
    ensure (p.stride = p.width)
    ensure (p.levels.toNat ≤ maxPicaLevels)
    let size := p.calculateSurfaceSize
    return { p with
      mipmapOffsets := p.calculateMipLevelOffsets, size := size, endAddr := p.addr + size }
  else
    let size := if p.isTiled then
        p.bytesInPixels (p.stride * 8 * (p.height / 8 - 1) + p.width * 8)
      else p.bytesInPixels (p.stride * (p.height - 1) + p.width)
    return { p with
      mipmapOffsets := p.mipmapOffsets.set 0 p.addr, size := size, endAddr := p.addr + size }

/-! ## Levels -/

/-- `mipmap_offsets[level]`. -/
def mipmapOffset (p : SurfaceParams) (level : Nat) : UInt32 := p.mipmapOffsets.getD level 0

/-- The last level up to `level` that does not begin behind the address. -/
def levelUpTo (p : SurfaceParams) (addr : UInt32) : Nat → Nat
  | 0 => 0
  | level + 1 =>
    if p.mipmapOffset (level + 1) > addr then p.levelUpTo addr level else level + 1

def levelOf (p : SurfaceParams) (addr : UInt32) : Nat :=
  if addr < p.addr ∨ addr > p.endAddr then 0 else p.levelUpTo addr (p.levels - 1).toNat

/-! ## Rectangles of a surface -/

/-- The outer rectangle that contains the interval. -/
def fromInterval (p : SurfaceParams) (interval : Interval) : Except Abort SurfaceParams := do
  let level := p.levelOf (first interval)
  let stop := lastNext interval
  ensure (level = p.levelOf stop ∨ stop = p.endAddr ∨ stop = p.mipmapOffset (level + 1))
  let width := p.width >>> UInt32.ofNat level
  let stride := p.stride >>> UInt32.ofNat level
  let tiledSize : UInt32 := if p.isTiled then 8 else 1
  let strideTiledBytes := p.bytesInPixels (stride * tiledSize)
  ensure (p.stride = p.width ∨ level = 0)
  let start := p.mipmapOffset level
  let alignedStart := start + alignDown (first interval - start) strideTiledBytes
  let alignedEnd := start + alignUp (stop - start) strideTiledBytes
  if alignedEnd - alignedStart > strideTiledBytes then
    updateParams { p with
      addr := alignedStart
      width := width
      stride := stride
      height := (alignedEnd - alignedStart) / p.bytesInPixels stride
      levels := 1 }
  else
    -- 1 row
    ensure (alignedEnd - alignedStart = strideTiledBytes)
    let tiledAlignment := p.bytesInPixels (if p.isTiled then 64 else 1)
    let alignedStart := start + alignDown (first interval - start) tiledAlignment
    let alignedEnd := start + alignUp (stop - start) tiledAlignment
    let width := p.pixelsInBytes (alignedEnd - alignedStart) / tiledSize
    updateParams { p with
      addr := alignedStart
      width := width
      stride := width
      height := tiledSize
      levels := 1 }

end SurfaceParams

end GbaStation.Rasterizer
