import Mathlib.Data.List.Range
import GbaStation.Y2R.Strip

/-!
# Tiles on their way to the output

What `convertYUVToRGB` leaves in the tiles, and what one tile becomes in `data_buffer`: where each
of its pixels goes is a table of `lut` entries and an order of the pixels.
-/

namespace GbaStation.Y2R

open Rasterizer (Vec4)
open List (range mem_range)

theorem load_ok {β : Type} {size i : Nat} {cells : Nat → β} (h : i < size) :
    load size cells i = .ok (cells i) := if_pos h

/-! ## The samples of a pixel -/

section Samples

variable {format : InputFormat} {width height x y n : Nat}

/-- The halves of a row and of a pixel's place in it. -/
theorem rowIndex_div_two (hwidth : 2 ∣ width) : (y * width + x) / 2 = y * (width / 2) + x / 2 := by
  obtain ⟨k, rfl⟩ := hwidth
  rw [Nat.mul_left_comm, Nat.mul_add_div (by decide), Nat.mul_div_cancel_left k (by decide)]

theorem rowIndex_lt (hx : x < width) (hy : y < height) : y * width + x < height * width :=
  calc y * width + x < y * width + width := Nat.add_lt_add_left hx _
    _ = (y + 1) * width := (Nat.succ_mul y width).symm
    _ ≤ height * width := Nat.mul_le_mul_right _ hy

theorem rowIndex_inj {y' x' : Nat} (hx : x < width) (hx' : x' < width)
    (h : y' * width + x' = y * width + x) : y' = y ∧ x' = x := by
  have hdiv : ∀ r k, k < width → (r * width + k) / width = r := fun r k hk => by
    rw [Nat.mul_comm, Nat.mul_add_div (by omega), Nat.div_eq_of_lt hk, Nat.add_zero]
  have hy : y' = y := by rw [← hdiv y' x' hx', h, hdiv y x hx]
  subst hy
  exact ⟨rfl, by omega⟩

/-- No sample is read outside the buffer. -/
theorem sampleIndices_lt (hwidth : 2 ∣ width) (hx : x < width) (hy : y < 8) :
    (sampleIndices format width x y).1 < bufferSize width ∧
      (sampleIndices format width x y).2.1 < bufferSize width ∧
      (sampleIndices format width x y).2.2 < bufferSize width := by
  have hhalf : y / 2 * width + x < 8 * width := rowIndex_lt hx (by omega)
  have hpair : y * width + x / 2 * 2 + 2 ≤ 8 * width := by
    have hcolumn : x / 2 * 2 + 2 ≤ width := by omega
    calc y * width + x / 2 * 2 + 2 ≤ y * width + width := by omega
      _ = (y + 1) * width := (Nat.succ_mul y width).symm
      _ ≤ 8 * width := Nat.mul_le_mul_right _ hy
  cases format <;> simp only [sampleIndices, planeU, planeV, bufferSize] <;> omega

end Samples

/-! ## `convertYUVToRGB` -/

section Tiles

variable {format : InputFormat} {width height x y n tile index : Nat} {c : CoefficientSet}
  {input : Buffer} {tiles : Nat → ImageTile}

/-- The pixels of the tiles. -/
def tileCells : Cells (Nat → ImageTile) (Nat × Nat) UInt32 where
  get tiles place := tiles place.1 place.2
  set tiles place color :=
    Function.update tiles place.1 (Function.update (tiles place.1) place.2 color)
  get_set_self tiles place color := by
    rw [Function.update_self, Function.update_self]
  get_set_of_ne tiles place color place' h := by
    by_cases htile : place'.1 = place.1
    · have hindex : place'.2 ≠ place.2 := fun heq => h (Prod.ext htile heq)
      rw [htile, Function.update_self, Function.update_of_ne hindex]
    · rw [Function.update_of_ne htile]

theorem storeTile_ok (htile : tile < n) (hindex : index < tileSize) (color : UInt32) :
    storeTile n tiles tile index color = .ok (tileCells.set tiles (tile, index) color) := by
  rw [storeTile, load_ok htile]
  show (store tileSize (tiles tile) index color >>= fun target => store n tiles tile target) = _
  rw [store, if_pos hindex]
  exact if_pos htile

/-- The word of a pixel, from the samples in a buffer. -/
def pixelWord (format : InputFormat) (width : Nat) (c : CoefficientSet) (input : Buffer) (x y : Nat) :
    UInt32 :=
  packColor (convertColor c (input (sampleIndices format width x y).1)
    (input (sampleIndices format width x y).2.1) (input (sampleIndices format width x y).2.2))

/-- Every pixel of the strip is in its tile. -/
theorem convertYUVToRGB_ok (hwidth : 8 ∣ width) (hheight : height ≤ 8) :
    ∃ tiles', convertYUVToRGB format width height c input tiles = .ok tiles' ∧
      ∀ x y, x < width → y < height →
        tiles' (x / 8) (y * 8 + x % 8) = pixelWord format width c input x y := by
  have htwo : 2 ∣ width := Nat.dvd_trans (by decide) hwidth
  have hrow (y : Nat) (hy : y < height) (tiles : Nat → ImageTile) :
      (range width).foldlM (fun tiles x => do
        let sampleY ← load (bufferSize width) input (sampleIndices format width x y).1
        let sampleU ← load (bufferSize width) input (sampleIndices format width x y).2.1
        let sampleV ← load (bufferSize width) input (sampleIndices format width x y).2.2
        storeTile (width / 8) tiles (x / 8) (y * 8 + x % 8)
          (packColor (convertColor c sampleY sampleU sampleV))) tiles =
        .ok (tileCells.scatter (fun x => (x / 8, y * 8 + x % 8)) (pixelWord format width c input · y)
          (range width) tiles) := by
    refine foldlM_eq_foldl (fun x hx tiles => ?_) tiles
    rw [mem_range] at hx
    obtain ⟨hY, hU, hV⟩ := (@sampleIndices_lt format) htwo hx (Nat.lt_of_lt_of_le hy hheight)
    dsimp only
    rw [load_ok hY, load_ok hU, load_ok hV]
    exact storeTile_ok (Nat.div_lt_div_of_lt_of_dvd hwidth hx) (by rw [tileSize]; omega) _
  refine ⟨_, foldlM_eq_foldl (fun y hy tiles => hrow y (mem_range.mp hy) tiles) tiles, ?_⟩
  intro x y hx hy
  rw [tileCells.foldl_scatter (fun y x => (x / 8, y * 8 + x % 8))
    (fun y x => pixelWord format width c input x y)]
  have hmem : (y, x) ∈ (range height).flatMap fun y => (range width).map (Prod.mk y) :=
    mem_pairs.mpr ⟨mem_range.mpr hy, mem_range.mpr hx⟩
  refine (@Cells.get_scatter_of_injOn _ _ _ _ tileCells
    fun p : Nat × Nat => (p.2 / 8, p.1 * 8 + p.2 % 8)) hmem ?_
  rintro ⟨y', x'⟩ - heq
  rw [Prod.mk.injEq] at heq
  exact Prod.ext (by omega) (by omega)

end Tiles

/-! ## Tables and orders -/

section Orders

/-- A table of `tile_remap` puts every pixel somewhere else. -/
structure IsRemap (lut : List Nat) : Prop where
  lt : ∀ p < tileSize, lut.getD p 0 < tileSize
  inj : ∀ p < tileSize, ∀ q < tileSize, lut.getD p 0 = lut.getD q 0 → p = q

theorem isRemap_linearLut : IsRemap linearLut :=
  ⟨by decide +kernel, by decide +kernel⟩

theorem isRemap_mortonLut : IsRemap mortonLut :=
  ⟨by decide +kernel, by decide +kernel⟩

theorem linearLut_getD : ∀ p < tileSize, linearLut.getD p 0 = p := by decide

/-- The table of an alignment. -/
def lutOf : BlockAlignment → List Nat
  | .linear => linearLut
  | .block8x8 => mortonLut

theorem tileRemap_some (alignment : BlockAlignment) :
    tileRemap (some alignment) = some (lutOf alignment) := by
  cases alignment <;> rfl

theorem isRemap_lutOf (alignment : BlockAlignment) : IsRemap (lutOf alignment) := by
  cases alignment with
  | linear => exact isRemap_linearLut
  | block8x8 => exact isRemap_mortonLut

/-- The order of the pixels of a tile, for a rotation. -/
def tileOrder (rotation : Rotation) (height : Nat) : List Nat :=
  match rotation with
  | .none => range (height * 8)
  | .clockwise90 =>
    (range 8).flatMap fun x => (range height).reverse.map fun y => y * 8 + x
  | .clockwise180 => (range (height * 8)).reverse
  | .clockwise270 =>
    (range 8).reverse.flatMap fun x => (range height).map fun y => y * 8 + x

/-- When a pixel of a tile has its turn. -/
def turnOf (rotation : Rotation) (height x y : Nat) : Nat :=
  match rotation with
  | .none => y * 8 + x
  | .clockwise90 => x * height + (height - 1 - y)
  | .clockwise180 => (height - 1 - y) * 8 + (7 - x)
  | .clockwise270 => (7 - x) * height + y

/-- A pixel has its turn, and the turns are those of the tile. -/
theorem tileOrder_turnOf (rotation : Rotation) : ∀ height ≤ 8, ∀ x < 8, ∀ y < height,
    (tileOrder rotation height)[turnOf rotation height x y]? = some (y * 8 + x) := by
  cases rotation <;> decide +kernel

theorem length_tileOrder (rotation : Rotation) : ∀ height ≤ 8,
    (tileOrder rotation height).length = height * 8 := by
  cases rotation <;> decide

theorem tileOrder_lt (rotation : Rotation) : ∀ height ≤ 8, ∀ i ∈ tileOrder rotation height,
    i < height * 8 := by
  cases rotation <;> decide +kernel

theorem turnOf_lt (rotation : Rotation) {height x y : Nat} (hheight : height ≤ 8) (hx : x < 8)
    (hy : y < height) : turnOf rotation height x y < height * 8 := by
  rw [← length_tileOrder rotation height hheight]
  exact (List.getElem?_eq_some_iff.mp (tileOrder_turnOf rotation height hheight x hx y hy)).1

variable {order : List Nat} {input output : ImageTile} {lut : List Nat}

/-- Every pixel of the order is where the table puts it. -/
theorem rotateTile_ok (hlut : IsRemap lut) (hlength : order.length ≤ tileSize)
    (horder : ∀ i ∈ order, i < tileSize) :
    ∃ output', rotateTile order input output (some lut) = .ok output' ∧
      ∀ p i, order[p]? = some i → output' (lut.getD p 0) = input i := by
  have hturn {p : Nat × Nat} (hp : p ∈ order.zipIdx) : order[p.2]? = some p.1 :=
    List.mem_zipIdx_iff_getElem?.mp hp
  have hlt {p : Nat × Nat} (hp : p ∈ order.zipIdx) : p.2 < tileSize :=
    Nat.lt_of_lt_of_le (List.getElem?_eq_some_iff.mp (hturn hp)).1 hlength
  refine ⟨_, (@foldlM_eq_foldl _ _ _ _ (fun output p =>
    functionCells.set output (lut.getD p.2 0) (input p.1))) (fun p hp output => ?_) output, ?_⟩
  · have hi : p.1 < tileSize := horder _ (List.mem_of_getElem? (hturn hp))
    dsimp only
    rw [mapEntry, load_ok (hlt hp), load_ok hi]
    exact if_pos (hlut.lt _ (hlt hp))
  · intro p i hp
    have hmem : (i, p) ∈ order.zipIdx := List.mem_zipIdx_iff_getElem?.mpr hp
    refine (@Cells.get_scatter_of_mem _ _ _ _ functionCells fun p : Nat × Nat => lut.getD p.2 0)
      ⟨(i, p), hmem, rfl⟩ ?_
    intro q hq heq
    have hpq : q.2 = p := hlut.inj _ (hlt hq) _ (hlt hmem) heq
    have hq' := hturn hq
    rw [hpq, hp] at hq'
    exact congrArg input (Option.some.inj hq').symm

end Orders

/-! ## One tile of the output -/

section Output

variable {words base rows stride : Nat} {buffer : Buffer} {tile : ImageTile}

/-- The rows of a tile, each behind the one before, or further on. -/
theorem writeTileToOutput_ok (hrows : rows ≤ 8) (hstride : 8 ≤ stride)
    (hwords : ∀ y x, y < rows → x < 8 → base + y * stride + x < words) :
    ∃ buffer', writeTileToOutput words buffer base tile rows stride = .ok buffer' ∧
      (∀ y x, y < rows → x < 8 →
        loadWord buffer' (base + y * stride + x) = tile (y * 8 + x)) ∧
      ∀ i, (∀ y x, y < rows → x < 8 → base + y * stride + x ≠ i) →
        loadWord buffer' i = loadWord buffer i := by
  have hrow (y : Nat) (hy : y < rows) (buffer : Buffer) :
      (range 8).foldlM (fun buffer x => do
        let color ← load tileSize tile (y * 8 + x)
        if base + y * stride + x < words then
          .ok (storeWord buffer (base + y * stride + x) color)
        else .error .outOfBounds) buffer =
        .ok (wordCells.scatter (base + y * stride + ·) (fun x => tile (y * 8 + x)) (range 8)
          buffer) := by
    refine foldlM_eq_foldl (fun x hx buffer => ?_) buffer
    rw [mem_range] at hx
    rw [load_ok (by rw [tileSize]; omega)]
    exact if_pos (hwords y x hy hx)
  refine ⟨_, foldlM_eq_foldl (fun y hy buffer => hrow y (mem_range.mp hy) buffer) buffer, ?_, ?_⟩
  · intro y x hy hx
    rw [wordCells.foldl_scatter (fun y x => base + y * stride + x) (fun y x => tile (y * 8 + x))]
    refine (@Cells.get_scatter_of_injOn _ _ _ _ wordCells
      (fun p : Nat × Nat => base + p.1 * stride + p.2) (fun p => tile (p.1 * 8 + p.2)) _ _ (y, x))
      (mem_pairs.mpr ⟨mem_range.mpr hy, mem_range.mpr hx⟩) ?_
    rintro ⟨y', x'⟩ hmem heq
    dsimp only at heq
    have hx' : x' < 8 := mem_range.mp (mem_pairs.mp hmem).2
    obtain ⟨rfl, rfl⟩ := (@rowIndex_inj stride) (by omega) (by omega)
      (show y' * stride + x' = y * stride + x by omega)
    rfl
  · intro i hi
    rw [wordCells.foldl_scatter (fun y x => base + y * stride + x) (fun y x => tile (y * 8 + x))]
    refine wordCells.get_scatter_of_not_mem ?_
    rintro ⟨y, x⟩ hmem
    obtain ⟨hy, hx⟩ := mem_pairs.mp hmem
    exact hi y x (mem_range.mp hy) (mem_range.mp hx)

end Output

/-! ## All tiles of the output -/

section Layout

/-- The tile that is output in a turn. -/
def sourceTile (rotation : Rotation) (numTiles i : Nat) : Nat :=
  match rotation with
  | .none | .clockwise90 => i
  | .clockwise180 | .clockwise270 => numTiles - i - 1

/-- `image_strip_width`. -/
def imageStripWidth (rotation : Rotation) (width : Nat) : Nat :=
  match rotation with
  | .none | .clockwise180 => width
  | .clockwise90 | .clockwise270 => 8

/-- `output_stride`. -/
def outputStride (rotation : Rotation) (height : Nat) : Nat :=
  match rotation with
  | .none | .clockwise180 => 8
  | .clockwise90 | .clockwise270 => 8 * height

/-- How far the output moves on with a tile. -/
def tileStep (rotation : Rotation) (alignment : BlockAlignment) (height : Nat) : Nat :=
  match alignment with
  | .linear => outputStride rotation height
  | .block8x8 => tileSize

/-- The distance of the rows of a tile. -/
def lineStride (rotation : Rotation) (alignment : BlockAlignment) (width : Nat) : Nat :=
  match alignment with
  | .linear => imageStripWidth rotation width
  | .block8x8 => 8

/-- The rows of a tile that are output. -/
def outputRows (alignment : BlockAlignment) (height : Nat) : Nat :=
  match alignment with
  | .linear => height
  | .block8x8 => 8

/-- The word of a pixel of a tile. -/
def tileWord (rotation : Rotation) (alignment : BlockAlignment) (width height i q : Nat) : Nat :=
  i * tileStep rotation alignment height + q / 8 * lineStride rotation alignment width + q % 8

variable {rotation : Rotation} {alignment : BlockAlignment} {width height i j q q' base : Nat}
  {s s' : StripState}

/-- A turn of the loop, put together from its parts. -/
theorem outputTile_eq (rotation : Rotation) (alignment : BlockAlignment)
    (width height i : Nat) (s : StripState) (base : Nat) :
    outputTile (some rotation) (some alignment) width height i s base = (do
      let tile ← load (width / 8) s.tiles (sourceTile rotation (width / 8) i)
      let tmpTile ← rotateTile (tileOrder rotation height) tile s.tmpTile (some (lutOf alignment))
      let dataBuffer ← writeTileToOutput (8 * width) s.dataBuffer base tmpTile
        (outputRows alignment height) (lineStride rotation alignment width)
      .ok ({ s with dataBuffer, tmpTile }, base + tileStep rotation alignment height)) := by
  rw [← tileRemap_some]
  cases rotation <;> cases alignment <;>
    simp only [outputTile, sourceTile, rotateTile0, rotateTile90, rotateTile180, rotateTile270,
      tileOrder, outputRows, lineStride, tileStep, imageStripWidth, outputStride] <;> rfl

/-- What the strip looks like to the tiles: blocks are whole. -/
structure StripShape (alignment : BlockAlignment) (width height : Nat) : Prop where
  width_dvd : 8 ∣ width
  height_le : height ≤ 8
  whole : alignment = .block8x8 → height = 8

namespace StripShape

variable (h : StripShape alignment width height)
include h

theorem outputRows_eq : outputRows alignment height = height := by
  cases alignment with
  | linear => rfl
  | block8x8 => exact (h.whole rfl).symm

omit h in
theorem sourceTile_lt (hi : i < width / 8) : sourceTile rotation (width / 8) i < width / 8 := by
  cases rotation <;> simp only [sourceTile] <;> omega

theorem le_lineStride (hi : i < width / 8) : 8 ≤ lineStride rotation alignment width := by
  cases alignment <;> cases rotation <;> simp only [lineStride, imageStripWidth] <;> omega

/-- The tiles are side by side, or one behind the other. -/
theorem tileWord_cases (rotation : Rotation) :
    (∀ i q, tileWord rotation alignment width height i q = q / 8 * width + (i * 8 + q % 8)) ∨
      ∀ i q, tileWord rotation alignment width height i q = i * (height * 8) + q := by
  have hstep (i q : Nat) : i * (height * 8) + q / 8 * 8 + q % 8 = i * (height * 8) + q := by omega
  cases alignment with
  | block8x8 =>
    refine .inr fun i q => ?_
    rw [← hstep]
    simp only [tileWord, tileStep, lineStride, tileSize, h.whole rfl]
  | linear =>
    cases rotation with
    | none | clockwise180 =>
      refine .inl fun i q => ?_
      simp only [tileWord, tileStep, lineStride, outputStride, imageStripWidth]
      omega
    | clockwise90 | clockwise270 =>
      refine .inr fun i q => ?_
      rw [← hstep, Nat.mul_comm height 8]
      rfl

theorem tileWord_lt (hi : i < width / 8) (hq : q < height * 8) :
    tileWord rotation alignment width height i q < height * width := by
  have hcolumn : i * 8 + q % 8 < width := by omega
  rcases h.tileWord_cases rotation with heq | heq
  · rw [heq]
    exact rowIndex_lt hcolumn (by omega)
  · rw [heq]
    calc i * (height * 8) + q < width / 8 * (height * 8) := rowIndex_lt hq hi
      _ = height * width := by
        rw [Nat.mul_comm height 8, ← Nat.mul_assoc, Nat.div_mul_cancel h.width_dvd, Nat.mul_comm]

theorem tileWord_inj (hi : i < width / 8) (hj : j < width / 8) (hq : q < height * 8)
    (hq' : q' < height * 8)
    (heq : tileWord rotation alignment width height i q =
      tileWord rotation alignment width height j q') : i = j ∧ q = q' := by
  rcases h.tileWord_cases rotation with hword | hword
  · rw [hword, hword] at heq
    obtain ⟨hrow, hcolumn⟩ := rowIndex_inj (by omega) (by omega) heq
    omega
  · rw [hword, hword] at heq
    exact rowIndex_inj hq' hq heq

/-- A table does not leave the rows that are output. -/
theorem lutOf_lt (hq : q < height * 8) : (lutOf alignment).getD q 0 < height * 8 := by
  have hheight := h.height_le
  have hq' : q < tileSize := by rw [tileSize]; omega
  cases alignment with
  | linear => rwa [lutOf, linearLut_getD q hq']
  | block8x8 =>
    rw [h.whole rfl]
    exact isRemap_mortonLut.lt q hq'

/-- What one turn adds to the output, and what it leaves. -/
theorem outputTile_ok (hi : i < width / 8)
    (hbase : base = i * tileStep rotation alignment height) :
    ∃ s', outputTile (some rotation) (some alignment) width height i s base =
        .ok (s', (i + 1) * tileStep rotation alignment height) ∧ s'.tiles = s.tiles ∧
      (∀ x y, x < 8 → y < height →
        loadWord s'.dataBuffer (tileWord rotation alignment width height i
            ((lutOf alignment).getD (turnOf rotation height x y) 0)) =
          s.tiles (sourceTile rotation (width / 8) i) (y * 8 + x)) ∧
      ∀ w, (∀ q < height * 8, tileWord rotation alignment width height i q ≠ w) →
        loadWord s'.dataBuffer w = loadWord s.dataBuffer w := by
  have hheight := h.height_le
  have hsize : height * 8 ≤ tileSize := by rw [tileSize]; omega
  have hword (y x : Nat) (hx : x < 8) : base + y * lineStride rotation alignment width + x =
      tileWord rotation alignment width height i (y * 8 + x) := by
    rw [tileWord, hbase, show (y * 8 + x) / 8 = y by omega, show (y * 8 + x) % 8 = x by omega]
  obtain ⟨tmpTile, hrotate, htmp⟩ :=
      (@rotateTile_ok _ (s.tiles (sourceTile rotation (width / 8) i)) s.tmpTile)
    (isRemap_lutOf alignment) (Nat.le_trans (Nat.le_of_eq (length_tileOrder rotation height hheight))
      hsize) fun k hk => Nat.lt_of_lt_of_le (tileOrder_lt rotation height hheight k hk) hsize
  obtain ⟨dataBuffer, hwrite, hin, hout⟩ :=
      (@writeTileToOutput_ok (8 * width) base _ _ s.dataBuffer tmpTile) hheight (h.le_lineStride hi)
    fun y x hy hx => by
      rw [hword y x hx]
      exact Nat.lt_of_lt_of_le (h.tileWord_lt hi (by omega)) (Nat.mul_le_mul_right _ hheight)
  refine ⟨{ s with dataBuffer, tmpTile }, ?_, rfl, ?_, ?_⟩
  · rw [outputTile_eq, load_ok (sourceTile_lt hi)]
    show (rotateTile _ _ _ _ >>= _) = _
    rw [hrotate]
    show (writeTileToOutput _ _ _ _ _ _ >>= _) = _
    rw [h.outputRows_eq, hwrite, hbase, Nat.succ_mul]
    rfl
  · intro x y hx hy
    have hturn := turnOf_lt rotation hheight hx hy
    have hcell := hin ((lutOf alignment).getD (turnOf rotation height x y) 0 / 8)
      ((lutOf alignment).getD (turnOf rotation height x y) 0 % 8)
      (by have := h.lutOf_lt hturn; omega) (Nat.mod_lt _ (by decide))
    rw [hword _ _ (Nat.mod_lt _ (by decide)), Nat.div_add_mod'] at hcell
    rw [hcell]
    exact htmp _ _ (tileOrder_turnOf rotation height hheight x hx y hy)
  · intro w hw
    refine hout w fun y x hy hx => ?_
    rw [hword y x hx]
    exact hw _ (by omega)

/-- The output of a strip: every pixel of every tile is where the layout puts it. -/
theorem outputTiles_ok (s : StripState) :
    ∃ s', outputTiles (some rotation) (some alignment) width height s = .ok s' ∧
      ∀ i x y, i < width / 8 → x < 8 → y < height →
        loadWord s'.dataBuffer (tileWord rotation alignment width height i
            ((lutOf alignment).getD (turnOf rotation height x y) 0)) =
          s.tiles (sourceTile rotation (width / 8) i) (y * 8 + x) := by
  have hturn {x y : Nat} (hx : x < 8) (hy : y < height) :
      (lutOf alignment).getD (turnOf rotation height x y) 0 < height * 8 :=
    h.lutOf_lt (turnOf_lt rotation h.height_le hx hy)
  let Placed (n : Nat) (r : StripState × Nat) : Prop :=
    r.1.tiles = s.tiles ∧ r.2 = n * tileStep rotation alignment height ∧
      ∀ i x y, i < n → x < 8 → y < height →
        loadWord r.1.dataBuffer (tileWord rotation alignment width height i
            ((lutOf alignment).getD (turnOf rotation height x y) 0)) =
          s.tiles (sourceTile rotation (width / 8) i) (y * 8 + x)
  have hstart : Placed 0 (s, 0) :=
    ⟨rfl, (Nat.zero_mul _).symm, fun i _ _ hi => absurd hi (Nat.not_lt_zero i)⟩
  obtain ⟨⟨s', base⟩, hloop, -, -, hall⟩ := @foldlM_range_ok _ _ (fun r i =>
      outputTile (some rotation) (some alignment) width height i r.1 r.2)
    Placed (width / 8) _ hstart (by
      rintro n ⟨s₁, base⟩ hn ⟨htiles, hbase, hwords⟩
      obtain ⟨s₂, hstep, htiles', hnew, hold⟩ :=
        (@StripShape.outputTile_ok rotation _ _ _ _ _ s₁) h hn hbase
      refine ⟨_, hstep, htiles'.trans htiles, rfl, fun i x y hi hx hy => ?_⟩
      rcases Nat.lt_or_ge i n with hlt | hge
      · -- the words of another tile
        rw [hold _ fun q hq heq => absurd (h.tileWord_inj hn (by omega) hq (hturn hx hy) heq).1
          (Nat.ne_of_gt hlt)]
        exact hwords i x y hlt hx hy
      · obtain rfl : i = n := by omega
        rw [hnew x y hx hy, htiles])
  refine ⟨s', ?_, hall⟩
  rw [outputTiles, hloop]
  rfl

end StripShape

end Layout

end GbaStation.Y2R
