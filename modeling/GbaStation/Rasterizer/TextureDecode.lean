import GbaStation.Rasterizer.Color
import GbaStation.Rasterizer.PhysicalMemory
import GbaStation.Rasterizer.SurfaceParams

/-!
# Texels (`video_core/texture/texture_decode.cpp`, `video_core/texture/etc1.cpp`)

The color of a texel of a tile of 8x8. A tile is behind a pointer, from which so many bytes are read
at an offset; a pointer into an array that is too small for the tile gives a fault.
-/

namespace GbaStation.Rasterizer

/-- What can be read behind a pointer: so many bytes at an offset. -/
abbrev Source := Nat → Nat → Except MemoryFault (List UInt8)

/-- The source behind a pointer into an array. -/
def Source.ofBuffer (buffer : List UInt8) : Source := fun offset size =>
  if offset + size ≤ buffer.length then .ok ((buffer.drop offset).take size) else .error .outside

/-- The source behind a pointer to a physical address. -/
def Source.ofMemory (mem : GuestMemory) (address : Nat) : Source := fun offset size =>
  .ok ((List.range size).map fun i => mem (address + offset + i))

/-- The pointer, advanced. -/
def Source.advance (source : Source) (bytes : Nat) : Source := fun offset size =>
  source (bytes + offset) size

/-- `MortonInterleave`. -/
def mortonInterleave (x y : Nat) : Nat :=
  [0x00, 0x01, 0x04, 0x05, 0x10, 0x11, 0x14, 0x15].getD (x % 8) 0 +
    [0x00, 0x02, 0x08, 0x0a, 0x20, 0x22, 0x28, 0x2a].getD (y % 8) 0

theorem mortonInterleave_lt (x y : Nat) : mortonInterleave x y < 64 := by
  have hlut : ∀ i j : Fin 8, mortonInterleave i j < 64 := by decide
  have hlt := hlut ⟨x % 8, Nat.mod_lt x (by decide)⟩ ⟨y % 8, Nat.mod_lt y (by decide)⟩
  simpa only [mortonInterleave, Nat.mod_mod] using hlt

/-! ## ETC1 -/

namespace Etc1

/-- `etc1_modifier_table`. -/
def modifierTable : List (Nat × Nat) :=
  [(2, 8), (5, 17), (9, 29), (13, 42), (18, 60), (24, 80), (33, 106), (47, 183)]

/-- `BitField<position, bits, u64>`. -/
def bitField (raw : UInt64) (position bits : Nat) : Nat := raw.toNat / 2 ^ position % 2 ^ bits

/-- `BitField<position, bits, s64>`. -/
def signedBitField (raw : UInt64) (position bits : Nat) : Int :=
  let value := bitField raw position bits
  if value < 2 ^ (bits - 1) then value else value - 2 ^ bits

/-- The base value of a channel, whose fields begin at a bit: a value and a difference, or two
values. -/
def channel (raw : UInt64) (position x : Nat) : Int :=
  if bitField raw 33 1 = 1 then
    let base : Int := bitField raw (position + 3) 5
    let value := if 2 ≤ x then base + signedBitField raw position 3 else base
    (Color.convert5To8 (UInt8.ofInt value)).toNat
  else if x < 2 then (Color.convert4To8 (UInt8.ofNat (bitField raw (position + 4) 4))).toNat
  else (Color.convert4To8 (UInt8.ofNat (bitField raw position 4))).toNat

/-- `GetRGB`. -/
def getRGB (raw : UInt64) (x y : Nat) : UInt8 × UInt8 × UInt8 :=
  let texel := 4 * x + y
  let x := if bitField raw 32 1 = 1 then y else x
  let tableIndex := if x < 2 then bitField raw 37 3 else bitField raw 34 3
  let entry := modifierTable.getD tableIndex (0, 0)
  let magnitude : Int := if bitField raw texel 1 = 1 then entry.2 else entry.1
  let modifier := if bitField raw (16 + texel) 1 = 1 then -magnitude else magnitude
  let clamp (value : Int) : UInt8 := UInt8.ofInt (max 0 (min value 255))
  (clamp (channel raw 56 x + modifier), clamp (channel raw 48 x + modifier),
    clamp (channel raw 40 x + modifier))

end Etc1

/-- `memcpy` to a `u64`. -/
def makeInt64 (bytes : List UInt8) : UInt64 :=
  bytes.foldr (fun byte word => word <<< 8 ||| byte.toUInt64) 0

/-! ## Texels -/

open Color

/-- `CalculateTileSize`. -/
def calculateTileSize : PixelFormat → Nat
  | .rgba8 => 4 * 64
  | .rgb8 => 3 * 64
  | .rgb5a1 | .rgb565 | .rgba4 | .ia8 | .rg8 => 2 * 64
  | .i8 | .a8 | .ia4 => 1 * 64
  | .i4 | .a4 => 64 / 2
  | .etc1 => 4 * 8
  | .etc1a4 => 4 * 16
  | _ => 0

/-- The nibble of a texel. -/
def nibbleOf (byte : UInt8) (mortonOffset : Nat) : UInt8 :=
  if mortonOffset % 2 = 1 then (byte &&& 0xF0) >>> 4 else byte &&& 0xF

/-- `LookupTexelInTile`. -/
def lookupTexelInTile (source : Source) (x y : Nat) (format : PixelFormat)
    (disableAlpha : Bool := false) : Except MemoryFault Vec4 :=
  let withAlpha (color : Vec4) : Vec4 := if disableAlpha then { color with a := 255 } else color
  match format with
  | .rgba8 => return withAlpha (decodeRGBA8 (← source (mortonInterleave x y * 4) 4))
  | .rgb8 => return decodeRGB8 (← source (mortonInterleave x y * 3) 3)
  | .rgb5a1 => return withAlpha (decodeRGB5A1 (← source (mortonInterleave x y * 2) 2))
  | .rgb565 => return decodeRGB565 (← source (mortonInterleave x y * 2) 2)
  | .rgba4 => return withAlpha (decodeRGBA4 (← source (mortonInterleave x y * 2) 2))
  | .ia8 => do
    let bytes ← source (mortonInterleave x y * 2) 2
    -- Show intensity as red, alpha as green
    if disableAlpha then return ⟨byteOf bytes 1, byteOf bytes 0, 0, 255⟩
    else return ⟨byteOf bytes 1, byteOf bytes 1, byteOf bytes 1, byteOf bytes 0⟩
  | .rg8 => return decodeRG8 (← source (mortonInterleave x y * 2) 2)
  | .i8 => do
    let byte := byteOf (← source (mortonInterleave x y) 1) 0
    return ⟨byte, byte, byte, 255⟩
  | .a8 => do
    let byte := byteOf (← source (mortonInterleave x y) 1) 0
    if disableAlpha then return ⟨byte, byte, byte, 255⟩ else return ⟨0, 0, 0, byte⟩
  | .ia4 => do
    let byte := byteOf (← source (mortonInterleave x y) 1) 0
    let i := convert4To8 ((byte &&& 0xF0) >>> 4)
    let a := convert4To8 (byte &&& 0xF)
    if disableAlpha then return ⟨i, a, 0, 255⟩ else return ⟨i, i, i, a⟩
  | .i4 => do
    let mortonOffset := mortonInterleave x y
    let byte := byteOf (← source (mortonOffset / 2) 1) 0
    let i := convert4To8 (nibbleOf byte mortonOffset)
    return ⟨i, i, i, 255⟩
  | .a4 => do
    let mortonOffset := mortonInterleave x y
    let byte := byteOf (← source (mortonOffset / 2) 1) 0
    let a := convert4To8 (nibbleOf byte mortonOffset)
    if disableAlpha then return ⟨a, a, a, 255⟩ else return ⟨0, 0, 0, a⟩
  | .etc1 => do
    let subtile := (x / 4 + 2 * (y / 4)) * 8
    let (r, g, b) := Etc1.getRGB (makeInt64 (← source subtile 8)) (x % 4) (y % 4)
    return ⟨r, g, b, 255⟩
  | .etc1a4 => do
    let subtile := (x / 4 + 2 * (y / 4)) * 16
    let packedAlpha := makeInt64 (← source subtile 8)
    let alpha := convert4To8
      (packedAlpha >>> UInt64.ofNat (4 * (x % 4 * 4 + y % 4)) &&& 0xF).toUInt8
    let (r, g, b) := Etc1.getRGB (makeInt64 (← source (subtile + 8) 8)) (x % 4) (y % 4)
    return withAlpha ⟨r, g, b, alpha⟩
  -- an unknown texture format
  | .d16 | .d24 | .d24s8 | .invalid => return ⟨0, 0, 0, 0⟩

/-- `LookupTexture`. -/
def lookupTexture (source : Source) (x y : Nat) (format : PixelFormat) (stride : Nat)
    (disableAlpha : Bool := false) : Except MemoryFault Vec4 :=
  let tile := y / 8 * stride + x / 8 * calculateTileSize format
  lookupTexelInTile (source.advance tile) (x % 8) (y % 8) format disableAlpha

end GbaStation.Rasterizer
