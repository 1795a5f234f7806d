import Mathlib.Data.Rat.Floor
import GbaStation.Common.Cells
import GbaStation.Rasterizer.Color
import GbaStation.Y2R.Configuration

/-!
# One strip of a conversion (`hw/y2r.cpp`)

Eight lines at most are received into `data_buffer`, converted into tiles, and written back to the
same buffer in the order in which they are sent. Every access to the buffer, the tiles and the
tables is checked.
-/

namespace GbaStation.Y2R

open Rasterizer (Vec4 byteOf intBytes makeInt makeInt_intBytes)
open List (range)

/-- Why a conversion does not come to its end. -/
inductive Abort where
  | assertion
  | unreachable
  | divisionByZero
  | nullPointer
  /-- An access outside a buffer of the converter. -/
  | outOfBounds
  /-- The conversion has not ended yet. -/
  | outOfFuel
  deriving DecidableEq, Repr

/-- `TILE_SIZE`. -/
def tileSize : Nat := 64

/-- The cells behind a pointer; the size is kept apart. -/
abbrev Buffer := Nat → UInt8

abbrev ImageTile := Nat → UInt32

def load {β : Type} (size : Nat) (cells : Nat → β) (i : Nat) : Except Abort β :=
  if i < size then .ok (cells i) else .error .outOfBounds

def store {β : Type} (size : Nat) (cells : Nat → β) (i : Nat) (value : β) : Except Abort (Nat → β) :=
  if i < size then .ok (Function.update cells i value) else .error .outOfBounds

section Words

/-- The `u32` at an index, when the bytes are taken for words. -/
def loadWord (buffer : Buffer) (i : Nat) : UInt32 :=
  makeInt [buffer (4 * i), buffer (4 * i + 1), buffer (4 * i + 2), buffer (4 * i + 3)]

def storeWord (buffer : Buffer) (i : Nat) (word : UInt32) : Buffer := fun j =>
  if j / 4 = i then byteOf (intBytes word 4) (j % 4) else buffer j

/-- The words of a buffer. -/
def wordCells : Cells Buffer Nat UInt32 where
  get := loadWord
  set := storeWord
  get_set_self buffer i word := by
    have hbyte (k : Nat) (hk : k < 4) :
        storeWord buffer i word (4 * i + k) = byteOf (intBytes word 4) k := by
      rw [storeWord, if_pos (by omega), show (4 * i + k) % 4 = k by omega]
    rw [loadWord, show storeWord buffer i word (4 * i) = _ from hbyte 0 (by omega),
      hbyte 1 (by omega), hbyte 2 (by omega), hbyte 3 (by omega)]
    exact makeInt_intBytes word
  get_set_of_ne buffer i word j h := by
    have hbyte (k : Nat) (hk : k < 4) : storeWord buffer i word (4 * j + k) = buffer (4 * j + k) := by
      rw [storeWord, if_neg (by omega)]
    rw [loadWord, loadWord, show storeWord buffer i word (4 * j) = _ from hbyte 0 (by omega),
      hbyte 1 (by omega), hbyte 2 (by omega), hbyte 3 (by omega)]
    rfl

end Words

/-! ## From samples to tiles -/

/-- `std::clamp(value, 0, 0xFF)`. -/
def clampToByte (value : Int) : UInt8 := UInt8.ofNat (min (max value 0) 0xFF).toNat

/-- The colour of a pixel, without alpha. -/
def convertColor (c : CoefficientSet) (sampleY sampleU sampleV : UInt8) : Vec4 :=
  let y : Int := sampleY.toNat
  let u : Int := sampleU.toNat
  let v : Int := sampleV.toNat
  let cY := (c)[0].toInt * y
  let r := cY + (c)[1].toInt * v
  let g := cY - (c)[2].toInt * v - (c)[3].toInt * u
  let b := cY + (c)[4].toInt * u
  let roundingOffset : Int := 0x18
  let r := (r >>> (3 : Nat)) + (c)[5].toInt + roundingOffset
  let g := (g >>> (3 : Nat)) + (c)[6].toInt + roundingOffset
  let b := (b >>> (3 : Nat)) + (c)[7].toInt + roundingOffset
  ⟨clampToByte (r >>> (5 : Nat)), clampToByte (g >>> (5 : Nat)), clampToByte (b >>> (5 : Nat)), 0⟩

/-- A rational number, cut. -/
def trunc (q : ℚ) : ℤ := if 0 ≤ q then ⌊q⌋ else ⌈q⌉

/-- Coefficients 0 to 4 have 8 bits behind the point, coefficients 5 to 7 have 5. -/
def documentedColor (c : CoefficientSet) (sampleY sampleU sampleV : UInt8) : Vec4 :=
  let c₀ : ℚ := (c)[0].toInt / 256
  let c₁ : ℚ := (c)[1].toInt / 256
  let c₂ : ℚ := (c)[2].toInt / 256
  let c₃ : ℚ := (c)[3].toInt / 256
  let c₄ : ℚ := (c)[4].toInt / 256
  let y : ℚ := sampleY.toNat
  let u : ℚ := sampleU.toNat
  let v : ℚ := sampleV.toNat
  ⟨clampToByte (trunc (c₀ * y + c₁ * v + (c)[5].toInt / 32 + 3 / 4)),
    clampToByte (trunc (c₀ * y - c₃ * u - c₂ * v + (c)[6].toInt / 32 + 3 / 4)),
    clampToByte (trunc (c₀ * y + c₄ * u + (c)[7].toInt / 32 + 3 / 4)), 0⟩

/-- A pixel of a tile. -/
def packColor (color : Vec4) : UInt32 :=
  color.r.toUInt32 <<< 24 ||| color.g.toUInt32 <<< 16 ||| color.b.toUInt32 <<< 8

/-- Where `input_U` begins. -/
def planeU (width : Nat) : Nat := 8 * width

/-- Where `input_V` begins. -/
def planeV (width : Nat) : Nat := planeU width + 8 * width / 2

/-- The places of the luma and the two chroma samples of a pixel in `data_buffer`. -/
def sampleIndices (format : InputFormat) (width x y : Nat) : Nat × Nat × Nat :=
  match format with
  | .yuv422Indiv8 | .yuv422Indiv16 =>
    (y * width + x, planeU width + (y * width + x) / 2, planeV width + (y * width + x) / 2)
  | .yuv420Indiv8 | .yuv420Indiv16 =>
    (y * width + x, planeU width + (y / 2 * width + x) / 2, planeV width + (y / 2 * width + x) / 2)
  | .yuyv422Interleaved =>
    ((y * width + x) * 2, (y * width + x / 2 * 2) * 2 + 1, (y * width + x / 2 * 2) * 2 + 3)

/-- The size of `data_buffer`. -/
def bufferSize (width : Nat) : Nat := width * 8 * 4

/-- `output[tile][index] = color`. -/
def storeTile (numTiles : Nat) (tiles : Nat → ImageTile) (tile index : Nat) (color : UInt32) :
    Except Abort (Nat → ImageTile) := do
  let target ← load numTiles tiles tile
  let target ← store tileSize target index color
  store numTiles tiles tile target

def convertYUVToRGB (format : InputFormat) (width height : Nat) (coefficients : CoefficientSet)
    (input : Buffer) (tiles : Nat → ImageTile) : Except Abort (Nat → ImageTile) :=
  (range height).foldlM (fun tiles y =>
    (range width).foldlM (fun tiles x => do
      let (indexY, indexU, indexV) := sampleIndices format width x y
      let sampleY ← load (bufferSize width) input indexY
      let sampleU ← load (bufferSize width) input indexU
      let sampleV ← load (bufferSize width) input indexV
      storeTile (width / 8) tiles (x / 8) (y * 8 + x % 8)
        (packColor (convertColor coefficients sampleY sampleU sampleV))) tiles) tiles

/-! ## From tiles to the output -/

def linearLut : List Nat :=
  [0, 1, 2, 3, 4, 5, 6, 7,
    8, 9, 10, 11, 12, 13, 14, 15,
    16, 17, 18, 19, 20, 21, 22, 23,
    24, 25, 26, 27, 28, 29, 30, 31,
    32, 33, 34, 35, 36, 37, 38, 39,
    40, 41, 42, 43, 44, 45, 46, 47,
    48, 49, 50, 51, 52, 53, 54, 55,
    56, 57, 58, 59, 60, 61, 62, 63]

def mortonLut : List Nat :=
  [0, 1, 4, 5, 16, 17, 20, 21,
    2, 3, 6, 7, 18, 19, 22, 23,
    8, 9, 12, 13, 24, 25, 28, 29,
    10, 11, 14, 15, 26, 27, 30, 31,
    32, 33, 36, 37, 48, 49, 52, 53,
    34, 35, 38, 39, 50, 51, 54, 55,
    40, 41, 44, 45, 56, 57, 60, 61,
    42, 43, 46, 47, 58, 59, 62, 63]

/-- `tile_remap`, which stays null where the alignment has no enumerator. -/
def tileRemap : Option BlockAlignment → Option (List Nat)
  | some .linear => some linearLut
  | some .block8x8 => some mortonLut
  | none => none

/-- `out_map[i]`. -/
def mapEntry (outMap : Option (List Nat)) (i : Nat) : Except Abort Nat :=
  match outMap with
  | none => .error .nullPointer
  | some lut => load tileSize (lut.getD · 0) i

/-- `output[out_map[out_i++]] = input[i]`, for the pixels of the input in an order. -/
def rotateTile (order : List Nat) (input output : ImageTile) (outMap : Option (List Nat)) :
    Except Abort ImageTile :=
  order.zipIdx.foldlM (fun output (i, outI) => do
    let target ← mapEntry outMap outI
    let color ← load tileSize input i
    store tileSize output target color) output

def rotateTile0 (input output : ImageTile) (height : Nat) (outMap : Option (List Nat)) :
    Except Abort ImageTile :=
  rotateTile (range (height * 8)) input output outMap

def rotateTile90 (input output : ImageTile) (height : Nat) (outMap : Option (List Nat)) :
    Except Abort ImageTile :=
  rotateTile ((range 8).flatMap fun x => (range height).reverse.map fun y => y * 8 + x)
    input output outMap

def rotateTile180 (input output : ImageTile) (height : Nat) (outMap : Option (List Nat)) :
    Except Abort ImageTile :=
  rotateTile (range (height * 8)).reverse input output outMap

def rotateTile270 (input output : ImageTile) (height : Nat) (outMap : Option (List Nat)) :
    Except Abort ImageTile :=
  rotateTile ((range 8).reverse.flatMap fun x => (range height).map fun y => y * 8 + x)
    input output outMap

/-- `output` begins at a word of `data_buffer`, which has so many words. -/
def writeTileToOutput (words : Nat) (buffer : Buffer) (output : Nat) (tile : ImageTile)
    (height lineStride : Nat) : Except Abort Buffer :=
  (range height).foldlM (fun buffer y =>
    (range 8).foldlM (fun buffer x => do
      let color ← load tileSize tile (y * 8 + x)
      if output + y * lineStride + x < words then
        .ok (storeWord buffer (output + y * lineStride + x) color)
      else .error .outOfBounds) buffer) buffer

/-- The buffers of a conversion. -/
structure StripState where
  dataBuffer : Buffer
  tiles : Nat → ImageTile
  tmpTile : ImageTile

/-- One turn of the loop over the tiles. -/
def outputTile (rotation : Option Rotation) (alignment : Option BlockAlignment) (width height i : Nat)
    (s : StripState) (outputBuffer : Nat) : Except Abort (StripState × Nat) := do
  let numTiles := width / 8
  let remap := tileRemap alignment
  let (tmpTile, imageStripWidth, outputStride) ←
    match rotation with
    | some .none => do
      let tile ← load numTiles s.tiles i
      let tmpTile ← rotateTile0 tile s.tmpTile height remap
      .ok (tmpTile, width, 8)
    | some .clockwise90 => do
      let tile ← load numTiles s.tiles i
      let tmpTile ← rotateTile90 tile s.tmpTile height remap
      .ok (tmpTile, 8, 8 * height)
    | some .clockwise180 => do
      let tile ← load numTiles s.tiles (numTiles - i - 1)
      let tmpTile ← rotateTile180 tile s.tmpTile height remap
      .ok (tmpTile, width, 8)
    | some .clockwise270 => do
      let tile ← load numTiles s.tiles (numTiles - i - 1)
      let tmpTile ← rotateTile270 tile s.tmpTile height remap
      .ok (tmpTile, 8, 8 * height)
    | none => .ok (s.tmpTile, 0, 0)
  match alignment with
  | some .linear => do
    let dataBuffer ←
      writeTileToOutput (8 * width) s.dataBuffer outputBuffer tmpTile height imageStripWidth
    .ok ({ s with dataBuffer, tmpTile }, outputBuffer + outputStride)
  | some .block8x8 => do
    let dataBuffer ← writeTileToOutput (8 * width) s.dataBuffer outputBuffer tmpTile 8 8
    .ok ({ s with dataBuffer, tmpTile }, outputBuffer + tileSize)
  | none => .ok ({ s with tmpTile }, outputBuffer)

/-- The loop over the tiles. -/
def outputTiles (rotation : Option Rotation) (alignment : Option BlockAlignment)
    (width height : Nat) (s : StripState) : Except Abort StripState := do
  let (s, _) ← (range (width / 8)).foldlM (fun (s, outputBuffer) i =>
    outputTile rotation alignment width height i s outputBuffer) (s, 0)
  .ok s

/-- A strip, between the calls that receive its samples and the call that sends it. -/
def convertStrip (format : InputFormat) (rotation : Option Rotation)
    (alignment : Option BlockAlignment) (width height : Nat) (coefficients : CoefficientSet)
    (s : StripState) : Except Abort StripState := do
  let tiles ← convertYUVToRGB format width height coefficients s.dataBuffer s.tiles
  outputTiles rotation alignment width height { s with tiles }

end GbaStation.Y2R
