import Mathlib.Data.Finset.Card
import Mathlib.Data.Finset.Prod
import GbaStation.Y2R.TileOrder

/-!
# The picture of a strip

What a strip is to look like, in the words of the documentation of the converter, and that the strip
converter makes it.

- `convertsStrips_iff`: every strip is its picture, unless a strip with 4:2:0 subsampling has an odd
  number of lines: the chroma of its last line is not received as a whole.
-/

namespace GbaStation.Y2R

open Rasterizer (Vec4)
open Finset (range mem_range)

/-! ## Colors -/

section Colors

theorem clampToByte_of_nonpos {value : Int} (h : value ≤ 0) : clampToByte value = 0 := by
  rw [clampToByte, max_eq_right h]
  rfl

/-- Both roundings of a negative number are clamped. -/
theorem clampToByte_trunc (q : ℚ) : clampToByte (trunc q) = clampToByte ⌊q⌋ := by
  unfold trunc
  split
  · rfl
  · rename_i hneg
    have hq := not_le.mp hneg
    rw [clampToByte_of_nonpos (Int.ceil_le.mpr (by exact_mod_cast hq.le)),
      clampToByte_of_nonpos (Int.floor_nonpos hq.le)]

/-- The shifts of the converter are one division. -/
theorem clampToByte_shift (value offset : Int) :
    clampToByte (((value >>> (3 : Nat)) + offset + 0x18) >>> (5 : Nat)) =
      clampToByte (trunc ((value : ℚ) / 256 + offset / 32 + 3 / 4)) := by
  have hq : (value : ℚ) / 256 + offset / 32 + 3 / 4 = ((value + 8 * offset + 192 : ℤ) : ℚ) / (256 : ℕ) := by
    push_cast
    ring
  rw [clampToByte_trunc, hq, Rat.floor_intCast_div_natCast, Int.shiftRight_eq_div_pow,
    Int.shiftRight_eq_div_pow]
  congr 1
  omega

/-- The converter computes the documented formula. -/
theorem convertColor_eq (c : CoefficientSet) (sampleY sampleU sampleV : UInt8) :
    convertColor c sampleY sampleU sampleV = documentedColor c sampleY sampleU sampleV := by
  unfold convertColor documentedColor
  dsimp only
  rw [clampToByte_shift, clampToByte_shift, clampToByte_shift]
  congr 3 <;> push_cast <;> ring

end Colors

/-! ## Places -/

section Places

/-- The column and the row of a pixel in the rotated strip. -/
def rotated (rotation : Rotation) (width height x y : Nat) : Nat × Nat :=
  match rotation with
  | .none => (x, y)
  | .clockwise90 => (height - 1 - y, x)
  | .clockwise180 => (width - 1 - x, height - 1 - y)
  | .clockwise270 => (y, width - 1 - x)

/-- The width of the rotated strip. -/
def rotatedWidth (rotation : Rotation) (width height : Nat) : Nat :=
  match rotation with
  | .none | .clockwise180 => width
  | .clockwise90 | .clockwise270 => height

/-- Three bits, with room between them. -/
def spread (n : Nat) : Nat := n % 2 + 4 * (n / 2 % 2) + 16 * (n / 4 % 2)

/-- Where a pixel of an 8x8 tile is in Morton order. -/
def mortonPlace (column row : Nat) : Nat := spread column + 2 * spread row

/-- Where a pixel of the strip is in the output. -/
def position (rotation : Rotation) (alignment : BlockAlignment) (width height x y : Nat) : Nat :=
  let (column, row) := rotated rotation width height x y
  match alignment with
  | .linear => row * rotatedWidth rotation width height + column
  | .block8x8 =>
    (row / 8 * (rotatedWidth rotation width height / 8) + column / 8) * tileSize +
      mortonPlace (column % 8) (row % 8)

theorem mortonLut_getD : ∀ x < 8, ∀ y < 8, mortonLut.getD (y * 8 + x) 0 = mortonPlace x y := by
  decide

variable {rotation : Rotation} {alignment : BlockAlignment} {width height x y : Nat}

theorem sourceTile_sourceTile {n i : Nat} (hi : i < n) :
    sourceTile rotation n (sourceTile rotation n i) = i := by
  cases rotation <;> simp only [sourceTile] <;> omega

/-- The layout of the tiles is the picture, stored by lines. -/
theorem position_linear_eq (h : StripShape .linear width height) (hx : x < width) :
    position rotation .linear width height x y =
      tileWord rotation .linear width height (sourceTile rotation (width / 8) (x / 8))
        (turnOf rotation height (x % 8) y) := by
  obtain ⟨n, rfl⟩ := h.width_dvd
  have hrow : 8 * n / 8 = n := Nat.mul_div_cancel_left n (by decide)
  have hin (row column : Nat) (hcolumn : column < 8) :
      (row * 8 + column) / 8 = row ∧ (row * 8 + column) % 8 = column := by omega
  have hmod : x % 8 < 8 := Nat.mod_lt x (by decide)
  cases rotation with
  | none =>
    simp only [position, rotated, rotatedWidth, tileWord, tileStep, lineStride, outputStride,
      imageStripWidth, sourceTile, turnOf, (hin y _ hmod).1, (hin y _ hmod).2]
    omega
  | clockwise90 =>
    have hsplit : x * height = x / 8 * (8 * height) + x % 8 * height := by
      rw [← Nat.mul_assoc, ← Nat.add_mul, Nat.div_add_mod']
    simp only [position, rotated, rotatedWidth, tileWord, tileStep, lineStride, outputStride,
      imageStripWidth, sourceTile, turnOf]
    omega
  | clockwise180 =>
    simp only [position, rotated, rotatedWidth, tileWord, tileStep, lineStride, outputStride,
      imageStripWidth, sourceTile, turnOf, hrow, (hin (height - 1 - y) (7 - x % 8) (by omega)).1,
      (hin (height - 1 - y) (7 - x % 8) (by omega)).2]
    omega
  | clockwise270 =>
    have hturn : 8 * n - 1 - x = (n - x / 8 - 1) * 8 + (7 - x % 8) := by omega
    have hsplit : (8 * n - 1 - x) * height =
        (n - x / 8 - 1) * (8 * height) + (7 - x % 8) * height := by
      rw [hturn, Nat.add_mul, Nat.mul_assoc]
    simp only [position, rotated, rotatedWidth, tileWord, tileStep, lineStride, outputStride,
      imageStripWidth, sourceTile, turnOf, hrow]
    omega

/-- The layout of the tiles is the picture, stored by tiles. -/
theorem position_block8x8_eq (h : StripShape .block8x8 width height) (hx : x < width)
    (hy : y < height) :
    position rotation .block8x8 width height x y =
      tileWord rotation .block8x8 width height (sourceTile rotation (width / 8) (x / 8))
        (mortonLut.getD (turnOf rotation height (x % 8) y) 0) := by
  obtain ⟨n, rfl⟩ := h.width_dvd
  obtain rfl := h.whole rfl
  have hrow : 8 * n / 8 = n := Nat.mul_div_cancel_left n (by decide)
  have hmod : x % 8 < 8 := Nat.mod_lt x (by decide)
  have hword (i q : Nat) : i * 64 + q / 8 * 8 + q % 8 = i * 64 + q := by omega
  simp only [tileWord, tileStep, lineStride, tileSize, hword]
  cases rotation with
  | none =>
    rw [turnOf, mortonLut_getD _ hmod _ hy]
    simp only [position, rotated, rotatedWidth, sourceTile, tileSize, hrow, Nat.mod_eq_of_lt hy,
      Nat.div_eq_of_lt hy, Nat.zero_mul, Nat.zero_add]
  | clockwise90 =>
    have hcolumn : 8 - 1 - y < 8 := by omega
    rw [turnOf, mortonLut_getD _ hcolumn _ hmod]
    simp only [position, rotated, rotatedWidth, sourceTile, tileSize, Nat.mod_eq_of_lt hcolumn,
      Nat.div_eq_of_lt hcolumn, Nat.div_self (show 0 < 8 by decide), Nat.mul_one, Nat.add_zero]
  | clockwise180 =>
    have hcolumn : (8 * n - 1 - x) % 8 = 7 - x % 8 := by omega
    have htile : (8 * n - 1 - x) / 8 = n - x / 8 - 1 := by omega
    have hline : 8 - 1 - y < 8 := by omega
    rw [turnOf, mortonLut_getD _ (by omega) _ hline]
    simp only [position, rotated, rotatedWidth, sourceTile, tileSize, hrow, hcolumn, htile,
      Nat.mod_eq_of_lt hline, Nat.div_eq_of_lt hline, Nat.zero_mul, Nat.zero_add]
  | clockwise270 =>
    have hline : (8 * n - 1 - x) % 8 = 7 - x % 8 := by omega
    have htile : (8 * n - 1 - x) / 8 = n - x / 8 - 1 := by omega
    rw [turnOf, mortonLut_getD _ hy _ (by omega)]
    simp only [position, rotated, rotatedWidth, sourceTile, tileSize, hrow, hline, htile,
      Nat.mod_eq_of_lt hy, Nat.div_eq_of_lt hy, Nat.div_self (show 0 < 8 by decide), Nat.mul_one,
      Nat.add_zero]

theorem position_eq (h : StripShape alignment width height) (hx : x < width) (hy : y < height) :
    position rotation alignment width height x y =
      tileWord rotation alignment width height (sourceTile rotation (width / 8) (x / 8))
        ((lutOf alignment).getD (turnOf rotation height (x % 8) y) 0) := by
  cases alignment with
  | linear =>
    have hturn := turnOf_lt rotation h.height_le (Nat.mod_lt x (by decide)) hy
    have hheight := h.height_le
    rw [lutOf, linearLut_getD _ (by rw [tileSize]; omega)]
    exact position_linear_eq h hx
  | block8x8 => exact position_block8x8_eq h hx hy

/-- No two pixels have the same turn. -/
theorem turnOf_inj {x' y' : Nat} (hheight : height ≤ 8) (hx : x < 8) (hy : y < height) (hx' : x' < 8)
    (hy' : y' < height) (heq : turnOf rotation height x y = turnOf rotation height x' y') :
    x = x' ∧ y = y' := by
  have hplace := tileOrder_turnOf rotation height hheight x hx y hy
  rw [heq, tileOrder_turnOf rotation height hheight x' hx' y' hy'] at hplace
  have hindex := Option.some.inj hplace
  omega

theorem sourceTile_inj {n i j : Nat} (hi : i < n) (hj : j < n)
    (heq : sourceTile rotation n i = sourceTile rotation n j) : i = j := by
  rw [← (@sourceTile_sourceTile rotation) hi, heq, sourceTile_sourceTile hj]

theorem position_lt (h : StripShape alignment width height) (hx : x < width) (hy : y < height) :
    position rotation alignment width height x y < width * height := by
  have htile := Nat.div_lt_div_of_lt_of_dvd h.width_dvd hx
  rw [position_eq h hx hy, Nat.mul_comm]
  exact h.tileWord_lt (StripShape.sourceTile_lt htile)
    (h.lutOf_lt (turnOf_lt rotation h.height_le (Nat.mod_lt x (by decide)) hy))

theorem position_inj {x' y' : Nat} (h : StripShape alignment width height) (hx : x < width)
    (hy : y < height) (hx' : x' < width) (hy' : y' < height)
    (heq : position rotation alignment width height x y =
      position rotation alignment width height x' y') : x = x' ∧ y = y' := by
  have hheight := h.height_le
  have hmod (x : Nat) : x % 8 < 8 := Nat.mod_lt x (by decide)
  have htile {x : Nat} (hx : x < width) := Nat.div_lt_div_of_lt_of_dvd h.width_dvd hx
  have hturn {x y : Nat} (hy : y < height) := turnOf_lt rotation hheight (hmod x) hy
  have hsize {x y : Nat} (hy : y < height) : turnOf rotation height (x % 8) y < tileSize :=
    Nat.lt_of_lt_of_le (hturn hy) (by rw [tileSize]; omega)
  rw [position_eq h hx hy, position_eq h hx' hy'] at heq
  obtain ⟨hsource, hplace⟩ := h.tileWord_inj (StripShape.sourceTile_lt (htile hx)) (StripShape.sourceTile_lt (htile hx'))
    (h.lutOf_lt (hturn hy)) (h.lutOf_lt (hturn hy')) heq
  obtain ⟨hcolumn, hrow⟩ := turnOf_inj hheight (hmod x) hy (hmod x') hy'
    ((isRemap_lutOf alignment).inj _ (hsize hy) _ (hsize hy') hplace)
  have hindex := sourceTile_inj (htile hx) (htile hx') hsource
  omega

/-- Every pixel has a place of its own, and every place has a pixel. -/
theorem position_bijOn (rotation : Rotation) (h : StripShape alignment width height) :
    Set.BijOn (fun p : Nat × Nat => position rotation alignment width height p.1 p.2)
      {p | p.1 < width ∧ p.2 < height} {n | n < width * height} := by
  have hmaps : ∀ p ∈ range width ×ˢ range height,
      position rotation alignment width height p.1 p.2 ∈ range (width * height) := by
    intro p hp
    rw [Finset.mem_product, mem_range, mem_range] at hp
    exact mem_range.mpr (position_lt h hp.1 hp.2)
  have hinj : Set.InjOn (fun p : Nat × Nat => position rotation alignment width height p.1 p.2)
      (range width ×ˢ range height : Finset (Nat × Nat)) := by
    intro p hp q hq heq
    rw [Finset.mem_coe, Finset.mem_product, mem_range, mem_range] at hp hq
    obtain ⟨hx, hy⟩ := position_inj h hp.1 hp.2 hq.1 hq.2 heq
    exact Prod.ext hx hy
  have hcard : (range (width * height)).card ≤
      (range width ×ˢ range height : Finset (Nat × Nat)).card := by
    rw [Finset.card_product, Finset.card_range, Finset.card_range, Finset.card_range]
  have hsurj := Finset.surjOn_of_injOn_of_card_le _ hmaps hinj hcard
  have hdomain : ((range width ×ˢ range height : Finset (Nat × Nat)) : Set (Nat × Nat)) =
      {p | p.1 < width ∧ p.2 < height} := by
    ext p
    simp
  rw [hdomain] at hinj hsurj
  rw [Finset.coe_range] at hsurj
  exact ⟨fun p hp => position_lt h hp.1 hp.2, hinj, hsurj⟩

end Places

/-! ## Strips -/

section Strips

variable {format : InputFormat} {rotation : Rotation} {alignment : BlockAlignment}
  {width height lines : Nat} {c : CoefficientSet}

/-- A strip is the picture of what `data_buffer` holds. -/
theorem convertStrip_ok (format : InputFormat) (rotation : Rotation) (c : CoefficientSet)
    (h : StripShape alignment width height) (s : StripState) :
    ∃ s', convertStrip format (some rotation) (some alignment) width height c s = .ok s' ∧
      ∀ x y, x < width → y < height →
        loadWord s'.dataBuffer (position rotation alignment width height x y) =
          pixelWord format width c s.dataBuffer x y := by
  obtain ⟨tiles, hconvert, htiles⟩ :=
      (@convertYUVToRGB_ok format _ _ c s.dataBuffer s.tiles) h.width_dvd h.height_le
  obtain ⟨s', houtput, hwords⟩ := (@StripShape.outputTiles_ok rotation) h { s with tiles }
  refine ⟨s', ?_, fun x y hx hy => ?_⟩
  · rw [convertStrip, hconvert]
    exact houtput
  · have htile := Nat.div_lt_div_of_lt_of_dvd h.width_dvd hx
    rw [position_eq h hx hy, hwords _ _ _ (StripShape.sourceTile_lt htile) (Nat.mod_lt x (by decide)) hy,
      sourceTile_sourceTile htile]
    exact htiles x y hx hy

/-- Bytes that are received behind a pointer. -/
def receiveAt (start amount : Nat) (data : Nat → UInt8) (buffer : Buffer) : Buffer := fun i =>
  if start ≤ i ∧ i < start + amount then data (i - start) else buffer i

/-- The amounts of luma and of chroma that are received for a strip. -/
def receivedAmounts (format : InputFormat) (pixels : Nat) : Nat × Nat :=
  match format with
  | .yuv422Indiv8 | .yuv422Indiv16 => (pixels, pixels / 2)
  | .yuv420Indiv8 | .yuv420Indiv16 => (pixels, pixels / 4)
  | .yuyv422Interleaved => (pixels * 2, 0)

/-- What the calls of `ReceiveData` leave in `data_buffer`. -/
def receiveStrip (format : InputFormat) (width height : Nat) (dataY dataU dataV : Nat → UInt8)
    (buffer : Buffer) : Buffer :=
  let (luma, chroma) := receivedAmounts format (height * width)
  receiveAt (planeV width) chroma dataV (receiveAt (planeU width) chroma dataU
    (receiveAt 0 luma dataY buffer))

/-- A chroma sample is shared by two pixels of a line, with 4:2:0 subsampling by two lines too. -/
def documentedSamples (format : InputFormat) (width : Nat) (dataY dataU dataV : Nat → UInt8)
    (x y : Nat) : UInt8 × UInt8 × UInt8 :=
  match format with
  | .yuv422Indiv8 | .yuv422Indiv16 =>
    (dataY (y * width + x), dataU (y * (width / 2) + x / 2), dataV (y * (width / 2) + x / 2))
  | .yuv420Indiv8 | .yuv420Indiv16 =>
    (dataY (y * width + x), dataU (y / 2 * (width / 2) + x / 2), dataV (y / 2 * (width / 2) + x / 2))
  | .yuyv422Interleaved =>
    (dataY (2 * (y * width + x)), dataY (4 * (y * (width / 2) + x / 2) + 1),
      dataY (4 * (y * (width / 2) + x / 2) + 3))

/-- The formats with one line of chroma for two lines. -/
def InputFormat.Subsampled (format : InputFormat) : Prop :=
  format = .yuv420Indiv8 ∨ format = .yuv420Indiv16

instance (format : InputFormat) : Decidable format.Subsampled :=
  inferInstanceAs (Decidable (_ ∨ _))

theorem receiveAt_of_lt {start amount i : Nat} {data : Nat → UInt8} {buffer : Buffer}
    (h : i < amount) : receiveAt start amount data buffer (start + i) = data i := by
  rw [receiveAt, if_pos ⟨Nat.le_add_right _ _, Nat.add_lt_add_left h _⟩, Nat.add_sub_cancel_left]

theorem receiveAt_of_not {start amount i : Nat} {data : Nat → UInt8} {buffer : Buffer}
    (h : i < start ∨ start + amount ≤ i) : receiveAt start amount data buffer i = buffer i :=
  if_neg (by omega)

section Received

variable {dataY dataU dataV : Nat → UInt8} {buffer : Buffer} {i x y : Nat}

/-- A luma sample, where the planes are apart. -/
theorem receiveStrip_luma (hlt : i < (receivedAmounts format (height * width)).1)
    (hplane : i < planeU width ∨ (receivedAmounts format (height * width)).2 = 0) :
    receiveStrip format width height dataY dataU dataV buffer i = dataY i := by
  unfold receiveStrip
  dsimp only
  have hV : planeU width ≤ planeV width := Nat.le_add_right _ _
  rw [receiveAt_of_not (by omega), receiveAt_of_not (by omega)]
  exact (congrArg (receiveAt 0 _ dataY buffer) (Nat.zero_add i).symm).trans (receiveAt_of_lt hlt)

/-- The first chroma sample. -/
theorem receiveStrip_chromaU (hlt : i < (receivedAmounts format (height * width)).2)
    (hplane : i < 4 * width) :
    receiveStrip format width height dataY dataU dataV buffer (planeU width + i) = dataU i := by
  unfold receiveStrip
  dsimp only
  rw [receiveAt_of_not (.inl (by simp only [planeU, planeV]; omega))]
  exact receiveAt_of_lt hlt

/-- The second chroma sample. -/
theorem receiveStrip_chromaV (hlt : i < (receivedAmounts format (height * width)).2) :
    receiveStrip format width height dataY dataU dataV buffer (planeV width + i) = dataV i := by
  exact receiveAt_of_lt hlt

/-- Half of a row of chroma samples, in a row that there is. -/
theorem chromaIndex_lt {rows : Nat} (hwidth : 2 ∣ width) (hx : x < width) (hy : y < rows) :
    y * (width / 2) + x / 2 < rows * (width / 2) :=
  rowIndex_lt (Nat.div_lt_div_of_lt_of_dvd hwidth hx) hy

/-- The samples that a pixel finds are its own, when all of its chroma is received. -/
theorem sampleIndices_received (h : StripShape alignment width height)
    (heven : format.Subsampled → 2 ∣ height) (hx : x < width) (hy : y < height) :
    let buffer' := receiveStrip format width height dataY dataU dataV buffer
    let indices := sampleIndices format width x y
    (buffer' indices.1, buffer' indices.2.1, buffer' indices.2.2) =
      documentedSamples format width dataY dataU dataV x y := by
  have hheight := h.height_le
  have hwidth : 2 ∣ width := Nat.dvd_trans (by decide) h.width_dvd
  have hhalves (n : Nat) : n * (width / 2) * 2 = n * width := by
    rw [Nat.mul_assoc, Nat.div_mul_cancel hwidth]
  have hluma := rowIndex_lt hx hy
  have hstrip : height * width ≤ 8 * width := Nat.mul_le_mul_right _ hheight
  have hhalf := hhalves height
  cases format with
  | yuv422Indiv8 | yuv422Indiv16 =>
    have hchroma := chromaIndex_lt hwidth hx hy
    simp only [sampleIndices, documentedSamples, rowIndex_div_two hwidth]
    rw [receiveStrip_luma (by simpa only [receivedAmounts] using hluma)
        (.inl (by rw [planeU]; omega)),
      receiveStrip_chromaU (by simp only [receivedAmounts]; omega) (by omega),
      receiveStrip_chromaV (by simp only [receivedAmounts]; omega)]
  | yuv420Indiv8 | yuv420Indiv16 =>
    obtain ⟨rows, hrows⟩ := heven (by simp [InputFormat.Subsampled])
    have hchroma := (@chromaIndex_lt _ _ _ rows) hwidth hx (show y / 2 < rows by omega)
    have hamount : height * width = 4 * (rows * (width / 2)) := by
      have := hhalves rows
      rw [hrows, Nat.mul_assoc]
      omega
    simp only [sampleIndices, documentedSamples, rowIndex_div_two hwidth]
    rw [receiveStrip_luma (by simpa only [receivedAmounts] using hluma)
        (.inl (by rw [planeU]; omega)),
      receiveStrip_chromaU (by simp only [receivedAmounts]; omega) (by omega),
      receiveStrip_chromaV (by simp only [receivedAmounts]; omega)]
  | yuyv422Interleaved =>
    have hchroma := chromaIndex_lt hwidth hx hy
    have hrow := hhalves y
    have hpair : (y * width + x / 2 * 2) * 2 = 4 * (y * (width / 2) + x / 2) := by omega
    simp only [sampleIndices, documentedSamples, hpair, Nat.mul_comm (y * width + x) 2]
    rw [receiveStrip_luma (by simp only [receivedAmounts]; omega) (.inr rfl),
      receiveStrip_luma (by simp only [receivedAmounts]; omega) (.inr rfl),
      receiveStrip_luma (by simp only [receivedAmounts]; omega) (.inr rfl)]

end Received

/-- The output of a strip is the picture: its pixels, each at its place. -/
structure IsPicture (rotation : Rotation) (alignment : BlockAlignment) (width height : Nat)
    (color : Nat → Nat → Vec4) (output : Nat → UInt32) : Prop where
  once : Set.BijOn (fun p : Nat × Nat => position rotation alignment width height p.1 p.2)
    {p | p.1 < width ∧ p.2 < height} {n | n < width * height}
  colors : ∀ x y, x < width → y < height →
    output (position rotation alignment width height x y) = packColor (color x y)

/-- The samples of a strip have room in `data_buffer`. -/
def ReceivesInside (format : InputFormat) (width height : Nat) : Prop :=
  let (luma, chroma) := receivedAmounts format (height * width)
  luma ≤ bufferSize width ∧ planeU width + chroma ≤ bufferSize width ∧
    planeV width + chroma ≤ bufferSize width

theorem receivesInside (format : InputFormat) (hheight : height ≤ 8) :
    ReceivesInside format width height := by
  have hstrip := Nat.mul_le_mul_right width hheight
  cases format <;> simp only [ReceivesInside, receivedAmounts, bufferSize, planeU, planeV] <;> omega

/-- Every strip of a conversion becomes its picture, without an access outside a buffer: whatever the
coefficients, the samples, and the contents of the buffers before. -/
def ConvertsStrips (format : InputFormat) (rotation : Rotation) (alignment : BlockAlignment)
    (width lines : Nat) : Prop :=
  ∀ start, start < lines → 8 ∣ start →
    ∀ (c : CoefficientSet) (dataY dataU dataV : Nat → UInt8) (s : StripState),
      let height := min (lines - start) 8
      let dataBuffer := receiveStrip format width height dataY dataU dataV s.dataBuffer
      ReceivesInside format width height ∧
        ∃ s', convertStrip format (some rotation) (some alignment) width height c
            { s with dataBuffer } = .ok s' ∧
          IsPicture rotation alignment width height
            (fun x y =>
              let (y', u', v') := documentedSamples format width dataY dataU dataV x y
              documentedColor c y' u' v')
            (loadWord s'.dataBuffer)

theorem stripShape_of_lines (hwidth : 8 ∣ width) (hlines : alignment = .block8x8 → 8 ∣ lines)
    {start : Nat} (hstart : start < lines) (hdvd : 8 ∣ start) :
    StripShape alignment width (min (lines - start) 8) where
  width_dvd := hwidth
  height_le := Nat.min_le_right _ _
  whole halign := by
    have := hlines halign
    omega

/-- Coefficients that show one chroma sample as the red of the pixel. -/
def redOfV : CoefficientSet := #v[0, 256, 0, 0, 0, 0, 0, 0]

theorem convertColor_redOfV (sampleY sampleU sampleV : UInt8) :
    convertColor redOfV sampleY sampleU sampleV = convertColor redOfV 0 0 sampleV := by
  have h₀ : redOfV[0].toInt = 0 := rfl
  have h₂ : redOfV[2].toInt = 0 := rfl
  have h₃ : redOfV[3].toInt = 0 := rfl
  have h₄ : redOfV[4].toInt = 0 := rfl
  simp only [convertColor, h₀, h₂, h₃, h₄, Int.zero_mul]

/-- The chroma of the last line of an odd strip is not received as a whole. -/
theorem receiveStrip_last (h : StripShape alignment width height) (hformat : format.Subsampled)
    (hodd : ¬ 2 ∣ height) (hpos : 0 < width) (dataY dataU dataV : Nat → UInt8) (buffer : Buffer) :
    receiveStrip format width height dataY dataU dataV buffer
      (sampleIndices format width (width - 1) (height - 1)).2.2 =
        buffer (sampleIndices format width (width - 1) (height - 1)).2.2 := by
  have hwidth : 2 ∣ width := Nat.dvd_trans (by decide) h.width_dvd
  have hheight := h.height_le
  obtain ⟨rows, hrows⟩ : ∃ rows, height = 2 * rows + 1 := ⟨height / 2, by omega⟩
  have hhalves : rows * (width / 2) * 2 = rows * width := by
    rw [Nat.mul_assoc, Nat.div_mul_cancel hwidth]
  have hamount : height * width = 4 * (rows * (width / 2)) + width := by
    rw [hrows, Nat.add_mul, Nat.mul_assoc, Nat.one_mul]
    omega
  have hindex : (height - 1) / 2 * width + (width - 1) = rows * width + (width - 1) := by
    rw [hrows, show (2 * rows + 1 - 1) / 2 = rows by omega]
  have height8 := h.width_dvd
  have hchroma : (receivedAmounts format (height * width)).2 ≤ (rows * width + (width - 1)) / 2 := by
    rcases hformat with rfl | rfl <;> simp only [receivedAmounts] <;> omega
  have hplace : (sampleIndices format width (width - 1) (height - 1)).2.2 =
      planeV width + (rows * width + (width - 1)) / 2 := by
    rcases hformat with rfl | rfl <;> simp only [sampleIndices, hindex]
  have hluma : (receivedAmounts format (height * width)).1 ≤ planeV width := by
    have := Nat.mul_le_mul_right width hheight
    rcases hformat with rfl | rfl <;> simp only [receivedAmounts, planeU, planeV] <;> omega
  have hplanes : (receivedAmounts format (height * width)).2 ≤ 8 * width / 2 := by
    have := Nat.mul_le_mul_right width hheight
    rcases hformat with rfl | rfl <;> simp only [receivedAmounts] <;> omega
  rw [hplace]
  unfold receiveStrip
  dsimp only
  rw [receiveAt_of_not (.inr (Nat.add_le_add_left hchroma _)),
    receiveAt_of_not (.inr (by rw [planeV]; omega)), receiveAt_of_not (.inr (by omega))]

/-- An odd strip shows what `data_buffer` held before. -/
theorem ConvertsStrips.two_dvd (hstrips : ConvertsStrips format rotation alignment width lines)
    (hwidth : 8 ∣ width) (hlines : alignment = .block8x8 → 8 ∣ lines) (hpos : 0 < width)
    (hformat : format.Subsampled) : 2 ∣ lines := by
  by_contra hodd
  -- the last strip, over a buffer that holds ones
  have hdvd : 8 ∣ lines / 8 * 8 := Nat.dvd_mul_left 8 _
  have hstart : lines / 8 * 8 < lines := by omega
  have hshape := stripShape_of_lines hwidth hlines hstart hdvd
  have hodd' : ¬ 2 ∣ min (lines - lines / 8 * 8) 8 := by omega
  have hheight : 0 < min (lines - lines / 8 * 8) 8 := by omega
  have hpicture := (hstrips _ hstart hdvd redOfV (fun _ => 0) (fun _ => 0) (fun _ => 0)
    ⟨fun _ => 1, fun _ _ => 0, fun _ => 0⟩).2
  generalize min (lines - lines / 8 * 8) 8 = height at *
  have hx : width - 1 < width := by omega
  have hy : height - 1 < height := by omega
  obtain ⟨s', hconvert, hpicture⟩ := hpicture
  obtain ⟨s'', hconvert', hwords⟩ := convertStrip_ok format rotation redOfV hshape
    ⟨receiveStrip format width height (fun _ => 0) (fun _ => 0) (fun _ => 0) fun _ => 1,
      fun _ _ => 0, fun _ => 0⟩
  obtain rfl : s' = s'' := Except.ok.inj (hconvert.symm.trans hconvert')
  have hword := (hwords _ _ hx hy).symm.trans (hpicture.colors _ _ hx hy)
  have hstale := receiveStrip_last hshape hformat hodd' hpos (fun _ => 0) (fun _ => 0)
    (fun _ => 0) fun _ => 1
  have hsamples : documentedSamples format width (fun _ => 0) (fun _ => 0) (fun _ => 0)
      (width - 1) (height - 1) = (0, 0, 0) := by
    cases format <;> rfl
  rw [pixelWord, convertColor_redOfV, hsamples] at hword
  dsimp only at hword
  rw [hstale, ← convertColor_eq] at hword
  revert hword
  decide

/-- Every strip becomes its picture if and only if no strip has an odd number of lines and one line
of chroma for two lines. -/
theorem convertsStrips_iff (hwidth : 8 ∣ width) (hlines : alignment = .block8x8 → 8 ∣ lines) :
    ConvertsStrips format rotation alignment width lines ↔
      width = 0 ∨ (format.Subsampled → 2 ∣ lines) := by
  constructor
  · intro hstrips
    by_cases hpos : width = 0
    · exact .inl hpos
    · exact .inr fun hformat => hstrips.two_dvd hwidth hlines (Nat.pos_of_ne_zero hpos) hformat
  · intro heven start hstart hdvd c dataY dataU dataV s
    have hshape := stripShape_of_lines hwidth hlines hstart hdvd
    obtain ⟨s', hconvert, hwords⟩ := convertStrip_ok format rotation c hshape
      { s with dataBuffer := receiveStrip format width _ dataY dataU dataV s.dataBuffer }
    refine ⟨receivesInside format hshape.height_le, s', hconvert, position_bijOn rotation hshape,
      fun x y hx hy => ?_⟩
    have hsamples :=
      (@sampleIndices_received format _ _ _ dataY dataU dataV s.dataBuffer) hshape
        (fun hformat => by
        have := heven.resolve_left (by omega) hformat
        omega) hx hy
    rw [hwords x y hx hy, pixelWord, ← hsamples]
    exact congrArg packColor (convertColor_eq c _ _ _)

/-- A picture of 8 by 10 pixels, turned by 90 degrees. -/
theorem convertsStrips_turned : 8 ∣ 8 ∧ (BlockAlignment.linear = .block8x8 → 8 ∣ 10) ∧
    ConvertsStrips .yuv420Indiv8 .clockwise90 .linear 8 10 :=
  ⟨by decide, by decide, (convertsStrips_iff (by decide) (by decide)).mpr (.inr fun _ => by decide)⟩

/-- One line is enough for a strip that is not its picture. -/
theorem not_convertsStrips_oneLine : ¬ ConvertsStrips .yuv420Indiv8 .none .linear 8 1 := fun h =>
  absurd (h.two_dvd (by decide) (by decide) (by decide) (.inl rfl)) (by decide)

end Strips

end GbaStation.Y2R
