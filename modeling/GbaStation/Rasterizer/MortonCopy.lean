import GbaStation.Rasterizer.MortonTile

/-!
# Copies between a tiled and a linear image (`rasterizer_cache/texture_codec.h`)

`MortonCopy` walks over the tiles of an image, the lowest line of tiles of the linear image first.
A copy to the tiled image may begin and end inside of a tile, of which it then makes the rest in a
temporary array.

- `mortonCopy_exact`: a tiled image survives the way to the host and back, and what a copy to a
  part of the tiled image writes is that part of the whole.
-/

namespace GbaStation.Rasterizer

open MemoryArea (subspan subspan_of_le read_whole write_whole)

/-- A remainder, where the divisor may be zero. -/
def remainder (value divisor : Nat) : Except MemoryFault Nat :=
  if divisor = 0 then .error .division else .ok (value % divisor)

theorem remainder_of_pos {value divisor : Nat} (h : 0 < divisor) :
    remainder value divisor = .ok (value % divisor) := if_neg (Nat.ne_of_gt h)

/-- A difference of values of `u32`. -/
def wordSub (value value' : Nat) : Nat := word (value + 2 ^ 32 - value')

theorem wordSub_of_le {value value' : Nat} (hle : value' ≤ value) (h : value < 2 ^ 32) :
    wordSub value value' = value - value' := by
  unfold wordSub word
  omega

/-- The variables of `MortonCopy` that go from tile to tile. -/
structure MortonCursor where
  x : Nat
  y : Nat
  linearOffset : Nat
  tiledOffset : Nat
deriving DecidableEq, Repr

namespace Codec

variable (c : Codec)

/-- `linear_next_tile`. -/
def linearNextTile (width height : Nat) (cursor : MortonCursor) :
    Except MemoryFault MortonCursor := do
  let x ← remainder (word (cursor.x + 8)) width
  let linearOffset := word (cursor.linearOffset + 8 * c.linearBytesPerPixel)
  if x ≠ 0 then
    return { cursor with x, linearOffset }
  let y ← remainder (word (cursor.y + 8)) height
  if y = 0 then
    return { cursor with x, y, linearOffset }
  let line := word (width * 9 * c.linearBytesPerPixel)
  return { cursor with x, y, linearOffset := wordSub linearOffset line }

/-- `Common::AlignDown` to a tile. -/
def alignDown (value : Nat) : Nat := value - value % c.tileSize

/-- `Common::AlignUp` to a tile. -/
def alignUp (value : Nat) : Nat :=
  if value % c.tileSize = 0 then value else word (c.alignDown value + c.tileSize)

/-- The cursor at the tile where a copy begins. -/
def firstTile (width height startOffset : Nat) : Except MemoryFault MortonCursor := do
  let beginPixelIndex := word (c.alignDown startOffset * 8) / c.bpp
  let x := (← remainder beginPixelIndex (word (width * 8))) / 8
  let y := word (beginPixelIndex / word (width * 8) * 8)
  let line := wordSub (wordSub height 8) y
  return ⟨x, y, word ((line * width + x) * c.linearBytesPerPixel), 0⟩

/-- A tile where the cursor is, into a temporary array. -/
def copyTemporary (width linearSize : Nat) (cursor : MortonCursor) (temporary linear : Buffer) :
    Except MemoryFault Buffer := do
  let linearTileStride := word ((7 * width + 8) * c.linearBytesPerPixel)
  let linearData ← subspan ⟨0, linearSize⟩ cursor.linearOffset linearTileStride
  let copied ← c.mortonCopyTile false width ⟨0, c.tileSize⟩ linearData ⟨temporary, linear⟩
  return copied.tiled

/-- A tile where the cursor is, and on to the next one. -/
def copyTile (mortonToLinear : Bool) (width height linearSize tiledSize tiledOffset : Nat)
    (state : Images × MortonCursor) : Except MemoryFault (Images × MortonCursor) := do
  let (images, cursor) := state
  let linearTileStride := word ((7 * width + 8) * c.linearBytesPerPixel)
  let linearData ← subspan ⟨0, linearSize⟩ cursor.linearOffset linearTileStride
  let tiledData ← subspan ⟨0, tiledSize⟩ tiledOffset c.tileSize
  let images ← c.mortonCopyTile mortonToLinear width tiledData linearData images
  let cursor ← c.linearNextTile width height
    { cursor with tiledOffset := word (tiledOffset + c.tileSize) }
  return (images, cursor)

/-- The part of `MortonCopy` up to the first whole tile. -/
def copyHead (width height startOffset endOffset linearSize tiledSize : Nat) (temporary : Buffer)
    (images : Images) (cursor : MortonCursor) : Except MemoryFault (Images × MortonCursor) := do
  let tile ← c.copyTemporary width linearSize cursor temporary images.linear
  let bytes ← (MemoryArea.mk 0 c.tileSize).data.read (startOffset - c.alignDown startOffset)
    (wordSub (min (c.alignUp startOffset) endOffset) startOffset) tile
  let tiled ← (MemoryArea.mk 0 tiledSize).data.write 0 bytes images.tiled
  let cursor ← c.linearNextTile width height
    { cursor with
      tiledOffset := word (cursor.tiledOffset + wordSub (c.alignUp startOffset) startOffset) }
  return ({ images with tiled }, cursor)

/-- The part of `MortonCopy` behind the last whole tile. -/
def copyTail (width endOffset linearSize tiledSize : Nat) (temporary : Buffer) (images : Images)
    (cursor : MortonCursor) : Except MemoryFault Images := do
  let tile ← c.copyTemporary width linearSize cursor temporary images.linear
  let bytes ← (MemoryArea.mk 0 c.tileSize).data.read 0 (endOffset - c.alignDown endOffset) tile
  let tiled ← (MemoryArea.mk 0 tiledSize).data.write cursor.tiledOffset bytes images.tiled
  return { images with tiled }

/-- The whole tiles of `MortonCopy`. -/
def copyWhole (mortonToLinear : Bool) (width height startOffset endOffset linearSize tiledSize : Nat)
    (state : Images × MortonCursor) : Except MemoryFault (Images × MortonCursor) :=
  if c.alignUp startOffset < c.alignDown endOffset then
    strideLoop
      (min (wordSub (word (state.2.tiledOffset + c.alignDown endOffset)) (c.alignUp startOffset))
        (word tiledSize)) c.tileSize
      (c.copyTile mortonToLinear width height linearSize tiledSize) state.2.tiledOffset state
  else .ok state

/-- `MortonCopy`, with the sizes of both buffers, and with what the temporary arrays hold before they
are written. -/
def mortonCopy (mortonToLinear : Bool) (width height startOffset endOffset linearSize tiledSize : Nat)
    (temporary temporary' : Buffer) (images : Images) : Except MemoryFault Images :=
  if mortonToLinear = true ∧
      ¬(c.alignUp startOffset = startOffset ∧ c.alignDown endOffset = endOffset) then
    .error .assertion
  else do
    let cursor ← c.firstTile width height startOffset
    let state ← (if startOffset < c.alignUp startOffset ∧ mortonToLinear = false then
        c.copyHead width height startOffset endOffset linearSize tiledSize temporary images cursor
      else .ok (images, cursor))
    let state ← c.copyWhole mortonToLinear width height startOffset endOffset linearSize tiledSize
      state
    if max (c.alignUp startOffset) (c.alignDown endOffset) < endOffset ∧ mortonToLinear = false then
      c.copyTail width endOffset linearSize tiledSize temporary' state.1 state.2
    else .ok state.1

/-! ## Images -/

/-- The codec loses nothing, and the dimensions are those of an image that has a tile, and whose
bytes on the host have offsets that are values of `u32`. -/
structure Image (columns rows linearSize : Nat) : Prop where
  exact : c.IsExact
  columns_pos : 0 < columns
  rows_pos : 0 < rows
  linearSize_eq : linearSize = 8 * columns * (8 * rows) * c.linearBytesPerPixel
  fits : linearSize < 2 ^ 32

/-- The index of a pixel of a tile in the linear image. -/
def pixelIndex (columns rows k x y : Nat) : Nat :=
  (8 * (rows - 1 - k / columns) + (7 - y)) * (8 * columns) + (8 * (k % columns) + x)

/-- Where the lines of a tile begin in the linear image. -/
def lineStart (columns rows k : Nat) : Nat :=
  (8 * (rows - 1 - k / columns) * (8 * columns) + 8 * (k % columns)) * c.linearBytesPerPixel

/-- The cursor is at a tile, if there is one. -/
def AtTile (columns rows k : Nat) (cursor : MortonCursor) : Prop :=
  k < columns * rows → cursor.x = 8 * (k % columns) ∧ cursor.y = 8 * (k / columns) ∧
    cursor.linearOffset = c.lineStart columns rows k

variable {c} {columns rows linearSize k k' x y x' y' : Nat} {cursor : MortonCursor}

/-- The row and the column of a tile. -/
theorem exists_row_column (hcolumns : 0 < columns) (hk : k < columns * rows) : ∃ row column,
    row < rows ∧ column < columns ∧ k / columns = row ∧ k % columns = column :=
  ⟨_, _, Nat.div_lt_of_lt_mul hk, Nat.mod_lt k hcolumns, rfl, rfl⟩

theorem lineStart_hostOffset : c.lineStart columns rows k + c.hostOffset (8 * columns) x y =
    pixelIndex columns rows k x y * c.linearBytesPerPixel := by
  rw [lineStart, hostOffset, ← Nat.add_mul, pixelIndex, Nat.add_mul (8 * _) (7 - y)]
  exact congrArg (· * c.linearBytesPerPixel) (by omega)

/-- The pixels of two tiles are different. -/
theorem pixelIndex_ne (hk : k < columns * rows) (hk' : k' < columns * rows) (hx : x < 8)
    (hx' : x' < 8) (hy : y < 8) (hy' : y' < 8) (hne : k ≠ k') :
    pixelIndex columns rows k x y ≠ pixelIndex columns rows k' x' y' := by
  intro heq
  have hcolumns : 0 < columns := Nat.pos_of_mul_pos_right (Nat.zero_lt_of_lt hk)
  obtain ⟨row, column, hrow, hcolumn, hdiv, hmod⟩ := exists_row_column hcolumns hk
  obtain ⟨row', column', hrow', hcolumn', hdiv', hmod'⟩ := exists_row_column hcolumns hk'
  rw [pixelIndex, pixelIndex, hdiv, hmod, hdiv', hmod'] at heq
  obtain ⟨hline, hplace⟩ := of_mul_add_eq (by omega) (by omega) heq
  have hsame : row = row' ∧ column = column' := by omega
  exact hne (by rw [← Nat.div_add_mod k columns, hdiv, hmod, hsame.1, hsame.2, ← hdiv', ← hmod',
    Nat.div_add_mod])

namespace Image

variable (h : c.Image columns rows linearSize)
include h

theorem linearBytesPerPixel_pos : 0 < c.linearBytesPerPixel := by
  obtain ⟨-, -, hbpp, hle, -⟩ := of_isExact h.exact
  omega

/-- The lines of a tile are in the image. -/
theorem lineStart_le (hk : k < columns * rows) :
    c.lineStart columns rows k + (7 * (8 * columns) + 8) * c.linearBytesPerPixel ≤ linearSize := by
  obtain ⟨row, column, hrow, hcolumn, hdiv, hmod⟩ := exists_row_column h.columns_pos hk
  -- the line of tiles is one of the lines of the image
  have hlines : (8 * (rows - 1 - row) + 8) * (8 * columns) ≤ 8 * rows * (8 * columns) :=
    Nat.mul_le_mul_right _ (by omega)
  rw [Nat.add_mul] at hlines
  rw [h.linearSize_eq, lineStart, ← Nat.add_mul, Nat.mul_comm (8 * columns), hdiv, hmod]
  exact Nat.mul_le_mul_right _ (by omega)

theorem onTile (hk : k < columns * rows) (tile : Nat) : c.OnTile (8 * columns) ⟨tile, c.tileSize⟩
    ⟨c.lineStart columns rows k, (7 * (8 * columns) + 8) * c.linearBytesPerPixel⟩ where
  exact := h.exact
  wide := by
    have hcolumns := h.columns_pos
    omega
  tileSize := rfl
  linearSize := rfl
  fits := Nat.lt_of_le_of_lt (Nat.le_of_add_left_le (h.lineStart_le hk)) h.fits

/-- The bytes of a line of tiles. -/
theorem line_le : 8 * columns * c.linearBytesPerPixel * 8 ≤ linearSize := by
  have hrows : 8 ≤ 8 * rows := Nat.le_mul_of_pos_right 8 h.rows_pos
  rw [h.linearSize_eq, Nat.mul_right_comm (8 * columns) (8 * rows)]
  exact Nat.mul_le_mul_left _ hrows

theorem height_le : 8 * rows ≤ linearSize := by
  have hcolumns := h.columns_pos
  rw [h.linearSize_eq]
  exact Nat.le_trans (Nat.le_mul_of_pos_left _ (by omega))
    (Nat.le_mul_of_pos_right _ h.linearBytesPerPixel_pos)

/-- The cursor goes from a tile to the next one. -/
theorem linearNextTile_atTile (hk : k < columns * rows) (hcursor : c.AtTile columns rows k cursor) :
    ∃ next, c.linearNextTile (8 * columns) (8 * rows) cursor = .ok next ∧
      next.tiledOffset = cursor.tiledOffset ∧ c.AtTile columns rows (k + 1) next := by
  obtain ⟨hx, hy, hoffset⟩ := hcursor hk
  obtain ⟨row, column, hrow, hcolumn, hdiv, hmod⟩ := exists_row_column h.columns_pos hk
  have hbytes := h.linearBytesPerPixel_pos
  have hle := h.lineStart_le hk
  have hfits := h.fits
  have hline := h.line_le
  have hwidth : 8 * columns ≤ 8 * columns * c.linearBytesPerPixel := Nat.le_mul_of_pos_right _ hbytes
  have hheight := h.height_le
  rw [hdiv] at hy
  rw [hmod] at hx
  have hxword : word (cursor.x + 8) = 8 * (column + 1) := by
    rw [hx]
    exact word_of_lt (by omega)
  have hoffsetWord : word (cursor.linearOffset + 8 * c.linearBytesPerPixel) =
      c.lineStart columns rows k + 8 * c.linearBytesPerPixel := by
    rw [hoffset]
    rw [Nat.add_mul] at hle
    exact word_of_lt (by omega)
  rw [linearNextTile, hxword, remainder_of_pos (by omega), hoffsetWord]
  simp only [bind, Except.bind, pure, Except.pure]
  have hindex : k = columns * row + column := by rw [← hdiv, ← hmod, Nat.div_add_mod]
  have hstart : c.lineStart columns rows k = 8 * ((rows - 1 - row) *
      (8 * columns * c.linearBytesPerPixel)) + 8 * column * c.linearBytesPerPixel := by
    rw [lineStart, hdiv, hmod, Nat.add_mul, Nat.mul_assoc, Nat.mul_assoc 8 (rows - 1 - row)]
  rcases Nat.lt_or_ge (column + 1) columns with hnext | hlast
  · -- the next tile is in the same line of tiles
    have hdiv' : (k + 1) / columns = row := by
      rw [hindex, Nat.add_assoc, Nat.mul_add_div h.columns_pos, Nat.div_eq_of_lt hnext, Nat.add_zero]
    have hmod' : (k + 1) % columns = column + 1 := by
      rw [hindex, Nat.add_assoc, Nat.mul_add_mod, Nat.mod_eq_of_lt hnext]
    have hmodx : 8 * (column + 1) % (8 * columns) = 8 * (column + 1) := Nat.mod_eq_of_lt (by omega)
    rw [hmodx, if_pos (by omega)]
    refine ⟨_, rfl, rfl, fun _ => ⟨by rw [hmod'], by rw [hdiv', ← hy], ?_⟩⟩
    rw [lineStart, lineStart, hdiv, hmod, hdiv', hmod', ← Nat.add_mul]
    exact congrArg (· * c.linearBytesPerPixel) (by omega)
  · have hcolumns : column + 1 = columns := by omega
    have hdiv' : (k + 1) / columns = row + 1 := by
      rw [hindex, Nat.add_assoc, hcolumns, Nat.mul_add_div h.columns_pos, Nat.div_self h.columns_pos]
    have hmod' : (k + 1) % columns = 0 := by
      rw [hindex, Nat.add_assoc, hcolumns, Nat.mul_add_mod, Nat.mod_self]
    have hyword : word (cursor.y + 8) = 8 * (row + 1) := by
      rw [hy]
      exact word_of_lt (by omega)
    rw [hcolumns, Nat.mod_self, if_neg (fun hne => hne rfl), hyword, remainder_of_pos (by omega)]
    dsimp only
    rcases Nat.lt_or_ge (row + 1) rows with hbelow | hend
    · -- the cursor goes to the begin of the line of tiles above
      have hmody : 8 * (row + 1) % (8 * rows) = 8 * (row + 1) := Nat.mod_eq_of_lt (by omega)
      rw [hmody, if_neg (by omega)]
      refine ⟨_, rfl, rfl, fun _ => ⟨by rw [hmod'], by rw [hdiv'], ?_⟩⟩
      have hstart' : c.lineStart columns rows (k + 1) =
          8 * ((rows - 1 - (row + 1)) * (8 * columns * c.linearBytesPerPixel)) := by
        rw [lineStart, hdiv', hmod', Nat.add_mul, Nat.mul_assoc, Nat.mul_assoc 8 (rows - 1 - (row + 1)),
          Nat.mul_zero, Nat.zero_mul, Nat.add_zero]
      have habove : (rows - 1 - row) * (8 * columns * c.linearBytesPerPixel) =
          (rows - 1 - (row + 1)) * (8 * columns * c.linearBytesPerPixel) +
            8 * columns * c.linearBytesPerPixel := by
        rw [← Nat.succ_mul]
        exact congrArg (· * _) (by omega)
      have hend : 8 * column * c.linearBytesPerPixel + 8 * c.linearBytesPerPixel =
          8 * columns * c.linearBytesPerPixel := by
        rw [← Nat.add_mul, ← hcolumns, Nat.mul_succ]
      have hnine : 8 * columns * 9 * c.linearBytesPerPixel =
          9 * (8 * columns * c.linearBytesPerPixel) := by
        rw [Nat.mul_right_comm, Nat.mul_comm]
      have hlines : (7 * (8 * columns) + 8) * c.linearBytesPerPixel =
          7 * (8 * columns * c.linearBytesPerPixel) + 8 * c.linearBytesPerPixel := by
        rw [Nat.add_mul, Nat.mul_assoc]
      dsimp only
      rw [hnine, hstart']
      rw [hstart, hlines] at hle
      rw [hstart]
      generalize 8 * columns * c.linearBytesPerPixel = line at *
      generalize (rows - 1 - (row + 1)) * line = above at *
      rw [(@word_of_lt (9 * line)) (by omega), wordSub_of_le (by omega) (by omega)]
      omega
    · -- that was the last tile
      have hrows : row + 1 = rows := by omega
      rw [hrows, Nat.mod_self, if_pos rfl]
      refine ⟨_, rfl, rfl, fun hk' => ?_⟩
      rw [hindex, Nat.add_assoc, hcolumns, ← Nat.mul_succ, Nat.succ_eq_add_one, hrows] at hk'
      exact absurd hk' (Nat.lt_irrefl _)

theorem tileSize_pos : 0 < c.tileSize := by
  obtain ⟨-, hsize, hbpp, -⟩ := of_isExact h.exact
  omega

/-- The tile where a copy begins. -/
theorem firstTile_atTile {start : Nat} (hstart : start < 2 ^ 29) :
    ∃ cursor, c.firstTile (8 * columns) (8 * rows) start = .ok cursor ∧ cursor.tiledOffset = 0 ∧
      c.AtTile columns rows (start / c.tileSize) cursor := by
  obtain ⟨-, hsize, hbpp, -⟩ := of_isExact h.exact
  have hcolumns := h.columns_pos
  have hline := h.line_le
  have hfits := h.fits
  have hwidth : 8 * columns ≤ 8 * columns * c.linearBytesPerPixel :=
    Nat.le_mul_of_pos_right _ h.linearBytesPerPixel_pos
  -- the index of the first pixel of the tile
  have hdown : c.alignDown start = c.tileSize * (start / c.tileSize) := by
    have hparts := Nat.div_add_mod start c.tileSize
    unfold alignDown
    omega
  have hword : word (c.alignDown start * 8) = c.alignDown start * 8 := by
    have hle := Nat.sub_le start (start % c.tileSize)
    exact word_of_lt (by unfold alignDown; omega)
  have hbegin : word (c.alignDown start * 8) / c.bpp = 64 * (start / c.tileSize) := by
    rw [hword, hdown, hsize]
    generalize start / (8 * c.bpp) = k
    have hshape : 8 * c.bpp * k * 8 = c.bpp * (64 * k) := by
      rw [Nat.mul_right_comm, Nat.mul_right_comm 8, Nat.mul_comm (8 * 8), Nat.mul_assoc]
    rw [hshape, Nat.mul_div_cancel_left _ hbpp]
  have hsixtyfour : word (8 * columns * 8) = 64 * columns := by
    rw [word_of_lt (by omega)]
    omega
  rw [firstTile, hbegin, hsixtyfour, remainder_of_pos (by omega)]
  refine ⟨_, rfl, rfl, fun hk => ?_⟩
  obtain ⟨row, column, hrow, hcolumn, hdiv, hmod⟩ := exists_row_column h.columns_pos hk
  have hle := h.lineStart_le hk
  have hheight := h.height_le
  have hx : 64 * (start / c.tileSize) % (64 * columns) / 8 = 8 * column := by
    rw [Nat.mul_mod_mul_left, hmod]
    omega
  have hy : word (64 * (start / c.tileSize) / (64 * columns) * 8) = 8 * row := by
    rw [Nat.mul_div_mul_left _ _ (by decide), hdiv, word_of_lt (by omega), Nat.mul_comm]
  have hlines : wordSub (wordSub (8 * rows) 8) (8 * row) = 8 * (rows - 1 - row) := by
    rw [(@wordSub_of_le _ 8) (by omega) (by omega), wordSub_of_le (by omega) (by omega)]
    omega
  have hstarts : c.lineStart columns rows (start / c.tileSize) =
      (8 * (rows - 1 - row) * (8 * columns) + 8 * column) * c.linearBytesPerPixel := by
    rw [lineStart, hdiv, hmod]
  rw [hx, hy, hdiv, hmod, hlines, ← hstarts]
  exact ⟨rfl, rfl, word_of_lt (by omega)⟩

end Image

/-! ## Copies to the tiled image -/

/-- The bytes of a tiled image. -/
def imageSize (c : Codec) (columns rows : Nat) : Nat := columns * rows * c.tileSize

/-- The pixels of the tiled image are those of the linear one. -/
def IsSwizzled (c : Codec) (columns rows : Nat) (image host : Buffer) : Prop :=
  ∀ k < columns * rows, ∀ m < 64, c.part image (k * c.tileSize) m =
    c.encodePart (c.hostPixel host (c.lineStart columns rows k) (8 * columns) (mortonX m) (mortonY m))

/-- So many bytes of an image, from an offset on, have been written to a buffer. -/
def Written (image destination : Buffer) (start count : Nat) (buffer : Buffer) : Prop :=
  ∀ i, buffer i = if i < count then image (start + i) else destination i

/-- More bytes are written behind those that have been. -/
theorem Written.append {image destination buffer source : Buffer} {start count offset size : Nat}
    (h : Written image destination start count buffer)
    (hbytes : ∀ j < size, source (offset + j) = image (start + count + j)) :
    Written image destination start (count + size)
      (splice buffer count (window source offset size)) := by
  have hlength : (window source offset size).length = size := length_window
  intro i
  rcases Nat.lt_or_ge i count with hlt | hge
  · rw [splice_of_outside (.inl hlt), h, if_pos hlt, if_pos (by omega)]
  · obtain ⟨j, rfl⟩ := Nat.exists_eq_add_of_le hge
    rcases Nat.lt_or_ge j size with hin | hout
    · have hbyte : byteOf (window source offset size) j = source (offset + j) := by
        rw [byteOf, List.getD_eq_getElem?_getD, List.getElem?_eq_getElem (by omega)]
        simp only [window, List.getElem_map, List.getElem_range, Option.getD_some]
      rw [splice_of_lt (by omega), hbyte, hbytes j hin, if_pos (by omega), Nat.add_assoc]
    · rw [splice_of_outside (.inr (by omega)), h, if_neg (by omega), if_neg (by omega)]

namespace Image

variable {host image destination : Buffer} {images : Images} {start tiledSize : Nat}
variable (h : c.Image columns rows linearSize)
include h

theorem subspan_lines (hk : k < columns * rows) : subspan ⟨0, linearSize⟩
    (c.lineStart columns rows k) (word ((7 * (8 * columns) + 8) * c.linearBytesPerPixel)) =
      .ok ⟨c.lineStart columns rows k, (7 * (8 * columns) + 8) * c.linearBytesPerPixel⟩ := by
  have hle := h.lineStart_le hk
  have hfits := h.fits
  rw [word_of_lt (by omega), subspan_of_le hle, Nat.zero_add]

/-- Every linear image has a tiled one. -/
theorem exists_isSwizzled (host : Buffer) : ∃ image, c.IsSwizzled columns rows image host := by
  have htile (k : Nat) : ∃ tile : Buffer, k < columns * rows → ∀ m < 64, c.part tile 0 m =
      c.encodePart (c.hostPixel host (c.lineStart columns rows k) (8 * columns) (mortonX m)
        (mortonY m)) := by
    by_cases hk : k < columns * rows
    · obtain ⟨tile, -, hparts, -⟩ :=
        (@OnTile.mortonCopyTile_encode _ _ _ _ ⟨fun _ => 0, host⟩) (h.onTile hk 0)
      exact ⟨tile, fun _ => hparts⟩
    · exact ⟨fun _ => 0, fun hlt => absurd hlt hk⟩
  choose tile hparts using htile
  refine ⟨fun i => tile (i / c.tileSize) (i % c.tileSize), fun k hk m hm => ?_⟩
  rw [← hparts k hk m hm]
  refine part_congr h.exact hm fun i hi => ?_
  rw [Nat.mul_comm, Nat.mul_add_div h.tileSize_pos, Nat.div_eq_of_lt hi, Nat.mul_add_mod,
    Nat.mod_eq_of_lt hi, Nat.add_zero, Nat.zero_add]

/-- A tile that was encoded is that of the image. -/
theorem mortonCopyTile_image (himage : c.IsSwizzled columns rows image images.linear)
    (hk : k < columns * rows) (tile : Nat) : ∃ tiled,
      c.mortonCopyTile false (8 * columns) ⟨tile, c.tileSize⟩
        ⟨c.lineStart columns rows k, (7 * (8 * columns) + 8) * c.linearBytesPerPixel⟩ images =
          .ok { images with tiled } ∧
      (∀ i < c.tileSize, tiled (tile + i) = image (k * c.tileSize + i)) ∧
      ∀ a, a < tile ∨ tile + c.tileSize ≤ a → tiled a = images.tiled a := by
  obtain ⟨tiled, hcopy, hparts, hframe⟩ :=
    (@OnTile.mortonCopyTile_encode _ _ _ _ images) (h.onTile hk tile)
  exact ⟨tiled, hcopy, fun i hi => ext_part h.exact
    (fun m hm => (hparts m hm).trans (himage k hk m hm).symm) hi, hframe⟩

/-- A tile in a temporary array. -/
theorem copyTemporary_image (himage : c.IsSwizzled columns rows image host)
    (hk : k < columns * rows) (hcursor : c.AtTile columns rows k cursor) (temporary : Buffer) :
    ∃ tile, c.copyTemporary (8 * columns) linearSize cursor temporary host = .ok tile ∧
      ∀ i < c.tileSize, tile i = image (k * c.tileSize + i) := by
  obtain ⟨-, -, hoffset⟩ := hcursor hk
  obtain ⟨tile, hcopy, hbytes, -⟩ :=
    (@Image.mortonCopyTile_image _ _ _ _ _ _ ⟨temporary, host⟩) h himage hk 0
  refine ⟨tile, ?_, fun i hi => ?_⟩
  · rw [copyTemporary, hoffset, h.subspan_lines hk, ok_bind, hcopy]
    rfl
  · rw [← hbytes i hi, Nat.zero_add]

/-- A tile in the tiled buffer, behind what has been written. -/
theorem copyTile_image {i : Nat} (himage : c.IsSwizzled columns rows image images.linear)
    (hwritten : Written image destination start i images.tiled) (hk : k < columns * rows)
    (hplace : start + i = k * c.tileSize) (hroom : i + c.tileSize ≤ tiledSize)
    (hsize : tiledSize < 2 ^ 32) (hcursor : c.AtTile columns rows k cursor) :
    ∃ tiled next, c.copyTile false (8 * columns) (8 * rows) linearSize tiledSize i
        (images, cursor) = .ok ({ images with tiled }, next) ∧
      Written image destination start (i + c.tileSize) tiled ∧
      next.tiledOffset = i + c.tileSize ∧ c.AtTile columns rows (k + 1) next := by
  obtain ⟨tiled, hcopy, hbytes, hframe⟩ := h.mortonCopyTile_image himage hk i
  obtain ⟨next, hnext, htiled, hat⟩ :=
      (@Image.linearNextTile_atTile _ _ _ _ _ { cursor with tiledOffset := word (i + c.tileSize) })
        h hk fun hlt => hcursor hlt
  refine ⟨tiled, next, ?_, fun a => ?_, htiled.trans (word_of_lt (by omega)), hat⟩
  · have hroom' : subspan ⟨0, tiledSize⟩ i c.tileSize = .ok ⟨i, c.tileSize⟩ := by
      rw [subspan_of_le hroom, Nat.zero_add]
    have hoffset := (hcursor hk).2.2
    rw [hoffset] at hnext
    rw [copyTile, hoffset, h.subspan_lines hk, ok_bind, hroom', ok_bind, hcopy, ok_bind, hnext]
    rfl
  · rcases Nat.lt_or_ge a i with hlt | hge
    · rw [hframe a (.inl hlt), hwritten, if_pos hlt, if_pos (by omega)]
    · obtain ⟨j, rfl⟩ := Nat.exists_eq_add_of_le hge
      rcases Nat.lt_or_ge j c.tileSize with hin | hout
      · rw [hbytes j hin, if_pos (by omega), ← hplace, Nat.add_assoc]
      · rw [hframe _ (.inr (by omega)), hwritten, if_neg (by omega), if_neg (by omega)]

theorem tileSize_le : c.tileSize ≤ 256 := by
  obtain ⟨-, hsize, -, hbpp, -, hle⟩ := of_isExact h.exact
  omega

/-- The end of a tile, from inside of it. -/
theorem alignUp_of_ne (haligned : start % c.tileSize ≠ 0) (hstart : start < 2 ^ 29) :
    c.alignUp start = c.alignDown start + c.tileSize ∧
      c.alignUp start = (start / c.tileSize + 1) * c.tileSize ∧
      c.alignDown start = start / c.tileSize * c.tileSize := by
  have hsize := h.tileSize_le
  have hparts := Nat.div_add_mod' start c.tileSize
  have hdown : c.alignDown start = start / c.tileSize * c.tileSize := by
    unfold alignDown
    omega
  have hup : c.alignUp start = c.alignDown start + c.tileSize := by
    rw [alignUp, if_neg haligned]
    exact word_of_lt (by omega)
  exact ⟨hup, by rw [hup, hdown, Nat.succ_mul], hdown⟩

/-- The part of a copy up to the first whole tile. -/
theorem copyHead_image {stop : Nat} {temporary : Buffer}
    (himage : c.IsSwizzled columns rows image images.linear) (hle : start ≤ stop)
    (hstop : stop ≤ imageSize c columns rows) (hsize : stop - start ≤ tiledSize)
    (haligned : start % c.tileSize ≠ 0) (hstart : start < 2 ^ 29) (hzero : cursor.tiledOffset = 0)
    (hcursor : c.AtTile columns rows (start / c.tileSize) cursor) :
    ∃ tiled next, c.copyHead (8 * columns) (8 * rows) start stop linearSize tiledSize temporary
        images cursor = .ok ({ images with tiled }, next) ∧
      Written image images.tiled start (min (c.alignUp start) stop - start) tiled ∧
      next.tiledOffset = c.alignUp start - start ∧
      c.AtTile columns rows (c.alignUp start / c.tileSize) next := by
  obtain ⟨hup, hnextTile, hdown⟩ := h.alignUp_of_ne haligned hstart
  have hpos := h.tileSize_pos
  have htileSize := h.tileSize_le
  have hlt := Nat.mod_lt start hpos
  have hparts := Nat.div_add_mod' start c.tileSize
  have hk : start / c.tileSize < columns * rows := by
    refine Nat.lt_of_mul_lt_mul_right (a := c.tileSize) ?_
    unfold imageSize at hstop
    omega
  obtain ⟨tile, htile, hbytes⟩ := h.copyTemporary_image himage hk hcursor temporary
  obtain ⟨next, hnext, htiled, hat⟩ := (@Image.linearNextTile_atTile _ _ _ _ _ { cursor with
      tiledOffset := word (cursor.tiledOffset + wordSub (c.alignUp start) start) }) h hk fun hlt => hcursor hlt
  have hcount : wordSub (min (c.alignUp start) stop) start = min (c.alignUp start) stop - start :=
    wordSub_of_le (by omega) (by omega)
  have hoffset : word (0 + wordSub (c.alignUp start) start) = c.alignUp start - start := by
    rw [wordSub_of_le (by omega) (by omega), word_of_lt (by omega), Nat.zero_add]
  have hread :=
    (@read_whole (start - c.alignDown start) (min (c.alignUp start) stop - start) tile
      c.tileSize) (by omega)
  have hwrite :=
    (@write_whole 0 images.tiled
      (window tile (start - c.alignDown start) (min (c.alignUp start) stop - start)) tiledSize)
    (by rw [length_window]; omega)
  have hempty : Written image images.tiled start 0 images.tiled := fun i =>
    (if_neg (Nat.not_lt_zero i)).symm
  have hwritten :=
    (@Written.append _ _ _ tile _ _ (start - c.alignDown start)
      (min (c.alignUp start) stop - start)) hempty fun j hj => by
      rw [hbytes _ (by omega)]
      exact congrArg image (by omega)
  refine ⟨_, next, ?_, by rwa [Nat.zero_add] at hwritten, ?_, ?_⟩
  · rw [copyHead, htile, ok_bind, hcount, hread, ok_bind, hwrite, ok_bind, hnext]
    rfl
  · rw [htiled]
    rw [hzero, hoffset]
  · rw [hnextTile, Nat.mul_div_cancel _ hpos]
    exact hat

/-- The whole tiles of a copy. -/
theorem copyTile_loop {stop : Nat} (himage : c.IsSwizzled columns rows image images.linear)
    (hstop : stop ≤ columns * rows) (hsize : tiledSize < 2 ^ 32)
    (hroom : stop * c.tileSize - start ≤ tiledSize) (hk : k ≤ stop)
    (hplace : start ≤ k * c.tileSize)
    (hwritten : Written image destination start (k * c.tileSize - start) images.tiled)
    (hoffset : cursor.tiledOffset = k * c.tileSize - start)
    (hcursor : c.AtTile columns rows k cursor) :
    ∃ tiled next, strideLoop (stop * c.tileSize - start) c.tileSize
        (c.copyTile false (8 * columns) (8 * rows) linearSize tiledSize)
        (k * c.tileSize - start) (images, cursor) = .ok ({ images with tiled }, next) ∧
      Written image destination start (stop * c.tileSize - start) tiled ∧
      next.tiledOffset = stop * c.tileSize - start ∧ c.AtTile columns rows stop next := by
  have hpos := h.tileSize_pos
  -- the counter is at the begin of a tile, and all before it has been written
  let I (i : Nat) (s : Images × MortonCursor) : Prop := ∃ k ≤ stop, start + i = k * c.tileSize ∧
    s.1.linear = images.linear ∧ Written image destination start i s.1.tiled ∧
    s.2.tiledOffset = i ∧ c.AtTile columns rows k s.2
  have hbody (i : Nat) (s : Images × MortonCursor) (hi : i < stop * c.tileSize - start)
      (hinv : I i s) : ∃ s', c.copyTile false (8 * columns) (8 * rows) linearSize tiledSize i s =
        .ok s' ∧ I (i + c.tileSize) s' := by
    obtain ⟨k, -, hplace, hlinear, hwritten, -, hat⟩ := hinv
    have hk : k < stop := Nat.lt_of_mul_lt_mul_right (a := c.tileSize) (by omega)
    have hnext := Nat.mul_le_mul_right c.tileSize hk
    rw [Nat.succ_mul] at hnext
    obtain ⟨tiled, next, hcopy, hwritten', htiled, hat'⟩ :=
        (@Image.copyTile_image _ _ _ _ _ _ _ _ s.1) h
      (by rw [hlinear]; exact himage) hwritten (Nat.lt_of_lt_of_le hk hstop) hplace (by omega)
      hsize hat
    exact ⟨_, hcopy, k + 1, hk, by rw [Nat.succ_mul]; omega, hlinear, hwritten', htiled, hat'⟩
  have hmul := Nat.mul_le_mul_right c.tileSize hk
  obtain ⟨i, s, hloop, ⟨k', hk', hplace', hlinear, hwritten', htiled, hat⟩, hge, hlt⟩ :=
    strideLoop_ok hpos hbody (by omega) (show I _ (images, cursor) from
      ⟨k, hk, by omega, rfl, hwritten, hoffset, hcursor⟩)
  -- the loop ends at the end of a tile
  have hlast : k' = stop :=
    Nat.le_antisymm hk' (Nat.le_of_mul_le_mul_right (by omega : _ ≤ k' * c.tileSize) hpos)
  have hend : i = stop * c.tileSize - start := by
    rw [hlast] at hplace'
    omega
  rw [hend] at hwritten' htiled
  exact ⟨s.1.tiled, s.2, hloop.trans (by rw [← hlinear]), hwritten', htiled, hlast ▸ hat⟩

/-- The part of a copy behind the last whole tile. -/
theorem copyTail_image {stop : Nat} {temporary : Buffer}
    (himage : c.IsSwizzled columns rows image images.linear)
    (hstop : stop ≤ imageSize c columns rows) (hplace : start ≤ c.alignDown stop)
    (hsize : stop - start ≤ tiledSize) (haligned : stop % c.tileSize ≠ 0)
    (hwritten : Written image destination start (c.alignDown stop - start) images.tiled)
    (hoffset : cursor.tiledOffset = c.alignDown stop - start)
    (hcursor : c.AtTile columns rows (stop / c.tileSize) cursor) :
    ∃ tiled, c.copyTail (8 * columns) stop linearSize tiledSize temporary images cursor =
        .ok { images with tiled } ∧
      Written image destination start (stop - start) tiled := by
  have hpos := h.tileSize_pos
  have hlt := Nat.mod_lt stop hpos
  have hparts := Nat.div_add_mod' stop c.tileSize
  have hdown : c.alignDown stop = stop / c.tileSize * c.tileSize := by
    unfold alignDown
    omega
  have hk : stop / c.tileSize < columns * rows := by
    refine Nat.lt_of_mul_lt_mul_right (a := c.tileSize) ?_
    unfold imageSize at hstop
    omega
  obtain ⟨tile, htile, hbytes⟩ := h.copyTemporary_image himage hk hcursor temporary
  have hread := (@read_whole 0 (stop - c.alignDown stop) tile c.tileSize) (by omega)
  have hwrite :=
    (@write_whole (c.alignDown stop - start) images.tiled
      (window tile 0 (stop - c.alignDown stop)) tiledSize) (by rw [length_window]; omega)
  have hmore := (@Written.append _ _ _ tile _ _ 0 (stop - c.alignDown stop)) hwritten
    fun j hj => by
      rw [Nat.zero_add, hbytes j (by omega)]
      exact congrArg image (by omega)
  refine ⟨_, ?_, by rwa [show c.alignDown stop - start + (stop - c.alignDown stop) = stop - start by
    omega] at hmore⟩
  rw [copyTail, htile, ok_bind, hread, ok_bind, hoffset, hwrite]
  rfl

theorem imageSize_le : imageSize c columns rows ≤ linearSize := by
  obtain ⟨-, hsize, -, hbpp, -⟩ := of_isExact h.exact
  have htile : c.tileSize ≤ 64 * c.linearBytesPerPixel := by omega
  have hshape : columns * rows * (64 * c.linearBytesPerPixel) =
      8 * columns * (8 * rows) * c.linearBytesPerPixel := by
    rw [← Nat.mul_assoc, Nat.mul_mul_mul_comm, Nat.mul_comm (columns * rows)]
  rw [h.linearSize_eq, ← hshape, imageSize]
  exact Nat.mul_le_mul_left _ htile

/-- The begin of the first whole tile. -/
theorem alignUp_spec (hstart : start < 2 ^ 29) : start ≤ c.alignUp start ∧
    c.alignUp start < start + c.tileSize ∧
    c.alignUp start = c.alignUp start / c.tileSize * c.tileSize := by
  have hpos := h.tileSize_pos
  by_cases haligned : start % c.tileSize = 0
  · have hup : c.alignUp start = start := if_pos haligned
    have hparts := Nat.div_add_mod' start c.tileSize
    rw [hup]
    omega
  · obtain ⟨hup, hnext, hdown⟩ := h.alignUp_of_ne haligned hstart
    have hlt := Nat.mod_lt start hpos
    have hparts := Nat.div_add_mod' start c.tileSize
    refine ⟨by omega, by omega, ?_⟩
    rw [hnext, Nat.mul_div_cancel _ hpos]

/-- A copy to a part of the tiled image writes that part, and nothing else. -/
theorem mortonCopy_encode {stop : Nat} (temporary temporary' : Buffer)
    (himage : c.IsSwizzled columns rows image images.linear) (hle : start ≤ stop)
    (hstop : stop ≤ imageSize c columns rows) (hstart : start < 2 ^ 29)
    (hroom : stop - start ≤ tiledSize) (hsize : tiledSize < 2 ^ 32) :
    ∃ tiled, c.mortonCopy false (8 * columns) (8 * rows) start stop linearSize tiledSize temporary
        temporary' images = .ok { images with tiled } ∧
      Written image images.tiled start (stop - start) tiled := by
  have hpos := h.tileSize_pos
  have hfits := Nat.lt_of_le_of_lt (Nat.le_trans hstop h.imageSize_le) h.fits
  obtain ⟨hstartUp, hupLt, hupTile⟩ := h.alignUp_spec hstart
  have hdown : c.alignDown stop = stop / c.tileSize * c.tileSize := by
    have hparts := Nat.div_add_mod' stop c.tileSize
    unfold alignDown
    omega
  have hdownLe : c.alignDown stop ≤ stop := Nat.sub_le _ _
  obtain ⟨first, hfirst, hzero, hat⟩ := h.firstTile_atTile hstart
  -- up to the first whole tile
  have hhead : ∃ tiled cursor,
      (if start < c.alignUp start ∧ false = false then
        c.copyHead (8 * columns) (8 * rows) start stop linearSize tiledSize temporary images first
      else .ok (images, first)) = .ok ({ images with tiled }, cursor) ∧
      Written image images.tiled start (min (c.alignUp start) stop - start) tiled ∧
      cursor.tiledOffset = c.alignUp start - start ∧
      c.AtTile columns rows (c.alignUp start / c.tileSize) cursor := by
    by_cases haligned : start % c.tileSize = 0
    · have hup : c.alignUp start = start := if_pos haligned
      rw [hup, if_neg (by omega), Nat.min_eq_left hle, Nat.sub_self]
      exact ⟨_, first, rfl, fun i => (if_neg (Nat.not_lt_zero i)).symm, hzero, hat⟩
    · obtain ⟨hup, -⟩ := h.alignUp_of_ne haligned hstart
      have hlt := Nat.mod_lt start hpos
      rw [if_pos ⟨by unfold alignDown at hup; omega, rfl⟩]
      exact h.copyHead_image himage hle hstop hroom haligned hstart hzero hat
  obtain ⟨tiled, cursor, hhead, hwritten, hoffset, hat⟩ := hhead
  -- the whole tiles
  have hmiddle : ∃ tiled' cursor',
      c.copyWhole false (8 * columns) (8 * rows) start stop linearSize tiledSize
        ({ images with tiled }, cursor) = .ok ({ images with tiled := tiled' }, cursor') ∧
      Written image images.tiled start (min (max (c.alignUp start) (c.alignDown stop)) stop - start)
        tiled' ∧
      cursor'.tiledOffset = max (c.alignUp start) (c.alignDown stop) - start ∧
      c.AtTile columns rows (max (c.alignUp start) (c.alignDown stop) / c.tileSize) cursor' := by
    rcases Nat.lt_or_ge (c.alignUp start) (c.alignDown stop) with hlt | hge
    · have hend : min (wordSub (word (cursor.tiledOffset + c.alignDown stop)) (c.alignUp start))
          (word tiledSize) = stop / c.tileSize * c.tileSize - start := by
        have hdifference : wordSub (word (c.alignUp start - start + c.alignDown stop))
            (c.alignUp start) = c.alignDown stop - start := by
          unfold wordSub word
          omega
        rw [hoffset, hdifference, word_of_lt hsize, ← hdown, Nat.min_eq_left (by omega)]
      have hbegin : min (c.alignUp start) stop = c.alignUp start / c.tileSize * c.tileSize := by
        rw [← hupTile, Nat.min_eq_left (by omega)]
      have htiles : c.alignUp start / c.tileSize ≤ stop / c.tileSize :=
        Nat.div_le_div_right (by omega)
      have hlast : stop / c.tileSize ≤ columns * rows :=
        Nat.div_le_of_le_mul (by rwa [Nat.mul_comm])
      have hoffset' : cursor.tiledOffset = c.alignUp start / c.tileSize * c.tileSize - start := by
        rw [← hupTile, hoffset]
      rw [hbegin] at hwritten
      have hroom' : stop / c.tileSize * c.tileSize - start ≤ tiledSize := by
        rw [← hdown]
        exact Nat.le_trans (Nat.sub_le_sub_right hdownLe start) hroom
      have hplace : start ≤ c.alignUp start / c.tileSize * c.tileSize := by
        rw [← hupTile]
        exact hstartUp
      obtain ⟨tiled', cursor', hloop, hwritten', htiled', hat'⟩ :=
          (@Image.copyTile_loop _ _ _ _ _ _ _ _ { images with tiled }) h himage hlast hsize hroom'
            htiles hplace hwritten hoffset' hat
      have hwhole : c.copyWhole false (8 * columns) (8 * rows) start stop linearSize tiledSize
          ({ images with tiled }, cursor) = strideLoop
            (min (wordSub (word (cursor.tiledOffset + c.alignDown stop)) (c.alignUp start))
              (word tiledSize)) c.tileSize
            (c.copyTile false (8 * columns) (8 * rows) linearSize tiledSize) cursor.tiledOffset
            ({ images with tiled }, cursor) := if_pos hlt
      rw [hwhole, hend, hoffset', Nat.max_eq_right (Nat.le_of_lt hlt), Nat.min_eq_left hdownLe,
        hdown, Nat.mul_div_cancel _ hpos]
      exact ⟨tiled', cursor', hloop, hwritten', htiled', hat'⟩
    · rw [copyWhole, if_neg (Nat.not_lt.mpr hge), Nat.max_eq_left hge]
      exact ⟨tiled, cursor, rfl, hwritten, hoffset, hat⟩
  obtain ⟨tiled', cursor', hmiddle, hwritten', hoffset', hat'⟩ := hmiddle
  -- behind the last whole tile
  have htail : ∃ tiled'',
      (if max (c.alignUp start) (c.alignDown stop) < stop ∧ false = false then
        c.copyTail (8 * columns) stop linearSize tiledSize temporary' { images with tiled := tiled' }
          cursor'
      else .ok { images with tiled := tiled' }) = .ok { images with tiled := tiled'' } ∧
      Written image images.tiled start (stop - start) tiled'' := by
    rcases Nat.lt_or_ge (max (c.alignUp start) (c.alignDown stop)) stop with hlt | hge
    · have hmax : max (c.alignUp start) (c.alignDown stop) = c.alignDown stop := by
        have htile : c.alignUp start / c.tileSize ≤ stop / c.tileSize :=
          Nat.div_le_div_right (by omega)
        have hmul := Nat.mul_le_mul_right c.tileSize htile
        omega
      rw [hmax] at hoffset' hat' hlt hwritten'
      rw [Nat.min_eq_left hdownLe] at hwritten'
      rw [hdown, Nat.mul_div_cancel _ hpos] at hat'
      have haligned : stop % c.tileSize ≠ 0 := by
        unfold alignDown at hlt
        omega
      rw [hmax, if_pos ⟨hlt, rfl⟩]
      exact (@Image.copyTail_image _ _ _ _ _ _ _ { images with tiled := tiled' }) h himage hstop
        (by omega) hroom
        haligned hwritten' hoffset' hat'
    · rw [if_neg fun hcond => absurd hcond.1 (Nat.not_lt.mpr hge)]
      rw [Nat.min_eq_right hge] at hwritten'
      exact ⟨tiled', rfl, hwritten'⟩
  obtain ⟨tiled'', htail, hwritten''⟩ := htail
  refine ⟨tiled'', ?_, hwritten''⟩
  rw [mortonCopy, if_neg fun hcond => Bool.false_ne_true hcond.1, hfirst, ok_bind, hhead, ok_bind,
    hmiddle, ok_bind]
  exact htail

/-- The pixels of a tile have been decoded. -/
def Decoded (c : Codec) (columns rows k : Nat) (image host : Buffer) : Prop :=
  ∀ x < 8, ∀ y < 8, c.hostPixel host (c.lineStart columns rows k) (8 * columns) x y =
    c.decodePart (c.part image (k * c.tileSize) (mortonInterleave x y))

/-- A tile is decoded, and those that were decoded remain so. -/
theorem copyTile_decode (hk : k < columns * rows) (hroom : (k + 1) * c.tileSize ≤ tiledSize)
    (hcursor : c.AtTile columns rows k cursor) :
    ∃ linear next, c.copyTile true (8 * columns) (8 * rows) linearSize tiledSize (k * c.tileSize)
        (images, cursor) = .ok ({ images with linear }, next) ∧
      c.AtTile columns rows (k + 1) next ∧
      (∀ k' < k, Decoded c columns rows k' images.tiled images.linear →
        Decoded c columns rows k' images.tiled linear) ∧
      Decoded c columns rows k images.tiled linear := by
  have hroom' := hroom
  rw [Nat.succ_mul] at hroom'
  obtain ⟨-, -, -, -, hhost, -⟩ := of_isExact h.exact
  obtain ⟨linear, hcopy, hpixels, hframe⟩ :=
    (@OnTile.mortonCopyTile_decode _ _ _ _ images) (h.onTile hk (k * c.tileSize))
  obtain ⟨next, hnext, -, hat⟩ :=
      (@Image.linearNextTile_atTile _ _ _ _ _
        { cursor with tiledOffset := word (k * c.tileSize + c.tileSize) }) h hk fun hlt =>
      hcursor hlt
  refine ⟨linear, next, ?_, hat, fun k' hk' hdecoded x hx y hy => ?_, hpixels⟩
  · have hsubspan : subspan ⟨0, tiledSize⟩ (k * c.tileSize) c.tileSize =
        .ok ⟨k * c.tileSize, c.tileSize⟩ := by
      rw [subspan_of_le hroom', Nat.zero_add]
    have hoffset := (hcursor hk).2.2
    rw [hoffset] at hnext
    rw [copyTile, hoffset, h.subspan_lines hk, ok_bind, hsubspan, ok_bind, hcopy, ok_bind, hnext]
    rfl
  · rw [← hdecoded x hx y hy]
    refine window_congr fun i hi => hframe _ fun x' hx' y' hy' => ?_
    -- the pixels of two tiles do not overlap
    have hne := pixelIndex_ne (Nat.lt_trans hk' hk) hk hx hx' hy hy' (Nat.ne_of_lt hk')
    rw [lineStart_hostOffset, lineStart_hostOffset]
    rcases Nat.lt_or_gt_of_ne hne with hlt | hgt
    · have hmul := Nat.mul_le_mul_right c.linearBytesPerPixel hlt
      rw [Nat.succ_mul] at hmul
      exact .inl (by omega)
    · have hmul := Nat.mul_le_mul_right c.linearBytesPerPixel hgt
      rw [Nat.succ_mul] at hmul
      exact .inr (by omega)

/-- A tiled image that is decoded as a whole is that of the linear image. -/
theorem mortonCopy_decode (temporary temporary' : Buffer)
    (hroom : imageSize c columns rows ≤ tiledSize) (hsize : tiledSize < 2 ^ 32) :
    ∃ linear, c.mortonCopy true (8 * columns) (8 * rows) 0 (imageSize c columns rows) linearSize
        tiledSize temporary temporary' images = .ok { images with linear } ∧
      c.IsSwizzled columns rows images.tiled linear := by
  have hpos := h.tileSize_pos
  have hfits := Nat.lt_of_le_of_lt h.imageSize_le h.fits
  have hup : c.alignUp 0 = 0 := if_pos (Nat.zero_mod _)
  have hdown : c.alignDown (imageSize c columns rows) = imageSize c columns rows := by
    rw [alignDown, imageSize, Nat.mul_mod_left, Nat.sub_zero]
  have hsome : 0 < imageSize c columns rows :=
    Nat.mul_pos (Nat.mul_pos h.columns_pos h.rows_pos) hpos
  obtain ⟨first, hfirst, hzero, hat⟩ := (@Image.firstTile_atTile _ _ _ _ h 0) (by decide)
  rw [Nat.zero_div] at hat
  -- the counter is at the begin of a tile, and all before it has been decoded
  let I (i : Nat) (s : Images × MortonCursor) : Prop := ∃ k ≤ columns * rows,
    i = k * c.tileSize ∧ s.1.tiled = images.tiled ∧ c.AtTile columns rows k s.2 ∧
    ∀ k' < k, Decoded c columns rows k' images.tiled s.1.linear
  have hbody (i : Nat) (s : Images × MortonCursor) (hi : i < imageSize c columns rows)
      (hinv : I i s) : ∃ s', c.copyTile true (8 * columns) (8 * rows) linearSize tiledSize i s =
        .ok s' ∧ I (i + c.tileSize) s' := by
    obtain ⟨k, -, rfl, htiled, hat, hdecoded⟩ := hinv
    have hk : k < columns * rows := Nat.lt_of_mul_lt_mul_right (a := c.tileSize) hi
    have hnext : (k + 1) * c.tileSize ≤ tiledSize :=
      Nat.le_trans (Nat.mul_le_mul_right c.tileSize hk) hroom
    obtain ⟨linear, next, hcopy, hat', hkept, hnew⟩ :=
      (@Image.copyTile_decode _ _ _ _ _ _ s.1) h hk hnext hat
    rw [htiled] at hkept hnew
    refine ⟨_, hcopy, k + 1, hk, (Nat.succ_mul k _).symm, htiled, hat', fun k' hk' => ?_⟩
    rcases Nat.lt_or_eq_of_le (Nat.le_of_lt_succ hk') with hlt | rfl
    · exact hkept k' hlt (hdecoded k' hlt)
    · exact hnew
  obtain ⟨i, s, hloop, ⟨k, hk, rfl, htiled, -, hdecoded⟩, hge, -⟩ :=
    strideLoop_ok hpos hbody (by omega) (show I 0 (images, first) from
      ⟨0, Nat.zero_le _, (Nat.zero_mul _).symm, rfl, hat, fun k' hk' => absurd hk' (Nat.not_lt_zero _)⟩)
  have hall : k = columns * rows := Nat.le_antisymm hk (Nat.le_of_mul_le_mul_right hge hpos)
  refine ⟨s.1.linear, ?_, fun k' hk' m hm => ?_⟩
  · have hend : min (wordSub (word (first.tiledOffset + c.alignDown (imageSize c columns rows)))
        (c.alignUp 0)) (word tiledSize) = imageSize c columns rows := by
      rw [hzero, hdown, hup, Nat.zero_add, word_of_lt hfits, word_of_lt hsize,
        wordSub_of_le (Nat.zero_le _) hfits, Nat.sub_zero, Nat.min_eq_left hroom]
    have hwhole : c.copyWhole true (8 * columns) (8 * rows) 0 (imageSize c columns rows) linearSize
        tiledSize (images, first) = strideLoop
          (min (wordSub (word (first.tiledOffset + c.alignDown (imageSize c columns rows)))
            (c.alignUp 0)) (word tiledSize)) c.tileSize
          (c.copyTile true (8 * columns) (8 * rows) linearSize tiledSize) first.tiledOffset
          (images, first) := if_pos (by rw [hup, hdown]; exact hsome)
    rw [mortonCopy, if_neg fun hcond => hcond.2 ⟨hup, hdown⟩, hfirst, ok_bind,
      if_neg fun hcond => Bool.noConfusion hcond.2, ok_bind, hwhole, hend, hzero, hloop, ok_bind,
      if_neg fun hcond => Bool.noConfusion hcond.2, ← htiled]
  · have hpixel := hdecoded k' (hall ▸ hk') _ (mortonX_lt m) _ (mortonY_lt m)
    rw [mortonInterleave_mortonX hm] at hpixel
    rw [hpixel, encodePart_decodePart h.exact isPart_part]

end Image

/-! ## The way there and back -/

section Exact

variable (c)

/-- A tiled image that is decoded and encoded again is what it was. -/
def RoundTrips (width height : Nat) : Prop :=
  ∀ (temporary temporary' destination : Buffer) (images : Images), ∃ linear tiled,
    c.mortonCopy true width height 0 (width * height * c.bpp / 8)
        (width * height * c.linearBytesPerPixel) (width * height * c.bpp / 8) temporary temporary'
        images = .ok { images with linear } ∧
      c.mortonCopy false width height 0 (width * height * c.bpp / 8)
        (width * height * c.linearBytesPerPixel) (width * height * c.bpp / 8) temporary temporary'
        ⟨destination, linear⟩ = .ok ⟨tiled, linear⟩ ∧
      ∀ i < width * height * c.bpp / 8, tiled i = images.tiled i

/-- A part of the tiled image that is encoded is that part of the whole, at the begin of the buffer,
and the rest of the buffer remains. -/
def Windows (width height start stop : Nat) : Prop :=
  ∀ (temporary temporary' destination : Buffer) (images : Images) (tiledSize : Nat),
    stop - start ≤ tiledSize → tiledSize < 2 ^ 32 → ∃ whole part,
      c.mortonCopy false width height 0 (width * height * c.bpp / 8)
          (width * height * c.linearBytesPerPixel) (width * height * c.bpp / 8) temporary temporary'
          images = .ok { images with tiled := whole } ∧
        c.mortonCopy false width height start stop (width * height * c.linearBytesPerPixel) tiledSize
          temporary temporary' ⟨destination, images.linear⟩ = .ok ⟨part, images.linear⟩ ∧
        ∀ i, part i = if i < stop - start then whole (start + i) else destination i

variable {c} {width height start stop : Nat}

theorem exists_image (hexact : c.IsExact) (hwidth : 0 < width) (hheight : 0 < height)
    (hcolumns : 8 ∣ width) (hrows : 8 ∣ height)
    (hfits : width * height * c.linearBytesPerPixel < 2 ^ 32) :
    ∃ columns rows, width = 8 * columns ∧ height = 8 * rows ∧
      c.Image columns rows (width * height * c.linearBytesPerPixel) ∧
      width * height * c.bpp / 8 = imageSize c columns rows := by
  obtain ⟨columns, rfl⟩ := hcolumns
  obtain ⟨rows, rfl⟩ := hrows
  obtain ⟨-, hsize, -⟩ := of_isExact hexact
  refine ⟨columns, rows, rfl, rfl, ⟨hexact, by omega, by omega, rfl, hfits⟩, ?_⟩
  have hshape : 8 * columns * (8 * rows) * c.bpp = 8 * (columns * rows * (8 * c.bpp)) := by
    rw [Nat.mul_mul_mul_comm, Nat.mul_assoc, Nat.mul_assoc 8, Nat.mul_left_comm 8 (columns * rows)]
  rw [hshape, Nat.mul_div_cancel_left _ (by decide), imageSize, hsize]

/-- An image without lines is copied at once. -/
theorem mortonCopy_empty {mortonToLinear : Bool} {linearSize tiledSize : Nat}
    {temporary temporary' : Buffer} {images : Images} (hline : word (width * 8) ≠ 0) :
    c.mortonCopy mortonToLinear width height 0 0 linearSize tiledSize temporary temporary' images =
      .ok images := by
  have hup : c.alignUp 0 = 0 := if_pos (Nat.zero_mod _)
  have hdown : c.alignDown 0 = 0 := Nat.zero_sub _
  rw [mortonCopy, if_neg fun hcond => hcond.2 ⟨hup, hdown⟩, firstTile,
    remainder_of_pos (Nat.pos_of_ne_zero hline)]
  simp only [ok_bind, hup, hdown, copyWhole, Nat.lt_irrefl, false_and, if_false, Nat.max_self, pure,
    Except.pure]

theorem exact_of_pos (hexact : c.IsExact) (hwidth : 0 < width) (hheight : 0 < height)
    (hcolumns : 8 ∣ width) (hrows : 8 ∣ height)
    (hfits : width * height * c.linearBytesPerPixel < 2 ^ 32) (hle : start ≤ stop)
    (hstop : stop ≤ width * height * c.bpp / 8) (hstart : start < 2 ^ 29) :
    c.RoundTrips width height ∧ c.Windows width height start stop := by
  obtain ⟨columns, rows, rfl, rfl, himage, hsize⟩ :=
    exists_image hexact hwidth hheight hcolumns hrows hfits
  have hword := Nat.lt_of_le_of_lt himage.imageSize_le himage.fits
  rw [hsize] at hstop
  unfold RoundTrips Windows
  rw [hsize]
  constructor
  · intro temporary temporary' destination images
    obtain ⟨linear, hdecode, hswizzled⟩ := (@Image.mortonCopy_decode _ _ _ _ images) himage temporary
      temporary' (Nat.le_refl _) hword
    obtain ⟨tiled, hencode, hwritten⟩ :=
        (@Image.mortonCopy_encode _ _ _ _ _ ⟨destination, linear⟩ 0 (imageSize c columns rows))
          himage temporary temporary'
      hswizzled (Nat.zero_le _) (Nat.le_refl _) (by decide) (Nat.sub_le _ _) hword
    refine ⟨linear, tiled, hdecode, hencode, fun i hi => ?_⟩
    rw [hwritten, Nat.sub_zero, if_pos hi, Nat.zero_add]
  · intro temporary temporary' destination images tiledSize hroom htiled
    obtain ⟨image, hswizzled⟩ := himage.exists_isSwizzled images.linear
    obtain ⟨whole, hwhole, hall⟩ :=
        (@Image.mortonCopy_encode _ _ _ _ _ images 0 (imageSize c columns rows)) himage temporary
          temporary' hswizzled
      (Nat.zero_le _) (Nat.le_refl _) (by decide) (Nat.sub_le _ _) hword
    obtain ⟨part, hpart, hwritten⟩ :=
        (@Image.mortonCopy_encode _ _ _ _ _ ⟨destination, images.linear⟩) himage temporary
          temporary' hswizzled hle hstop hstart hroom
      htiled
    refine ⟨whole, part, hwhole, hpart, fun i => ?_⟩
    rw [hwritten]
    split
    · rw [hall, if_pos (by omega), Nat.zero_add]
    · rfl

/-- Nothing is lost on the way to the host and back, and every part of the tiled image can be made
alone, if the offsets are values of `u32` and a line of tiles has pixels as one. -/
theorem mortonCopy_exact (hexact : c.IsExact) (hline : word (width * 8) ≠ 0)
    (hcolumns : 8 ∣ width) (hrows : 8 ∣ height)
    (hfits : width * height * c.linearBytesPerPixel < 2 ^ 32) (hle : start ≤ stop)
    (hstop : stop ≤ width * height * c.bpp / 8) (hstart : start < 2 ^ 29) :
    c.RoundTrips width height ∧ c.Windows width height start stop := by
  have hwidth : 0 < width := Nat.pos_of_ne_zero fun hzero => by
    subst hzero
    exact hline rfl
  rcases Nat.eq_zero_or_pos height with rfl | hheight
  · have hnone : width * 0 * c.bpp / 8 = 0 := by rw [Nat.mul_zero, Nat.zero_mul, Nat.zero_div]
    rw [hnone, Nat.le_zero] at hstop
    obtain ⟨rfl, rfl⟩ : stop = 0 ∧ start = 0 := ⟨hstop, by omega⟩
    unfold RoundTrips Windows
    rw [hnone]
    exact ⟨fun _ _ destination images => ⟨images.linear, destination, mortonCopy_empty hline,
      mortonCopy_empty hline, nofun⟩, fun _ _ destination images _ _ _ =>
        ⟨images.tiled, destination, mortonCopy_empty hline, mortonCopy_empty hline, fun _ => rfl⟩⟩
  · exact exact_of_pos hexact hwidth hheight hcolumns hrows hfits hle hstop hstart

/-- A texture of 24x16 pixels of four bits, and a window that begins and ends inside of tiles. -/
theorem mortonCopy_exact_i4 : (⟨.i4, false, by decide⟩ : Codec).RoundTrips 24 16 ∧
    (⟨.i4, false, by decide⟩ : Codec).Windows 24 16 5 150 :=
  mortonCopy_exact (by decide) (by decide) (by decide) (by decide) (by decide) (by decide) (by decide)
    (by decide)

theorem mortonCopy_of_firstTile_error {mortonToLinear : Bool} {linearSize tiledSize : Nat}
    {temporary temporary' : Buffer} {images : Images}
    (haligned : c.alignUp start = start ∧ c.alignDown stop = stop)
    (hfirst : c.firstTile width height start = .error .division) :
    c.mortonCopy mortonToLinear width height start stop linearSize tiledSize temporary temporary'
      images = .error .division := by
  rw [mortonCopy, if_neg fun hcond => hcond.2 haligned, hfirst]
  rfl

/-- A window of a single tile, where the cursor is at another tile. -/
theorem mortonCopy_of_wrongTile {columns rows linearSize k : Nat} {cursor : MortonCursor}
    {image : Buffer} {images : Images} (h : c.Image columns rows linearSize)
    (temporary temporary' : Buffer) (himage : c.IsSwizzled columns rows image images.linear)
    (hk : k < columns * rows) (hstart : c.alignUp start = start)
    (hstop : c.alignDown (start + c.tileSize) = start + c.tileSize)
    (hword : start + c.tileSize < 2 ^ 32)
    (hfirst : c.firstTile (8 * columns) (8 * rows) start = .ok cursor) (hzero : cursor.tiledOffset = 0)
    (hat : c.AtTile columns rows k cursor) :
    ∃ part, c.mortonCopy false (8 * columns) (8 * rows) start (start + c.tileSize) linearSize
        c.tileSize temporary temporary' images = .ok { images with tiled := part } ∧
      ∀ i < c.tileSize, part i = image (k * c.tileSize + i) := by
  have hpos := h.tileSize_pos
  have hempty : Written image images.tiled (k * c.tileSize) 0 images.tiled := fun i =>
    (if_neg (Nat.not_lt_zero i)).symm
  obtain ⟨part, next, hcopy, hwritten, -, -⟩ := (@Image.copyTile_image _ _ _ _ _ _ _ _ _ _ c.tileSize h 0)
    himage hempty hk (Nat.add_zero _) (by rw [Nat.zero_add]) (by omega) hat
  rw [Nat.zero_add] at hwritten
  refine ⟨part, ?_, fun i hi => by rw [hwritten, if_pos hi]⟩
  have hend : min (wordSub (word (cursor.tiledOffset + c.alignDown (start + c.tileSize)))
      (c.alignUp start)) (word c.tileSize) = c.tileSize := by
    rw [hzero, hstop, hstart, Nat.zero_add, word_of_lt hword, wordSub_of_le (by omega) hword,
      Nat.add_sub_cancel_left, word_of_lt (by omega), Nat.min_self]
  have hwhole : c.copyWhole false (8 * columns) (8 * rows) start (start + c.tileSize) linearSize
      c.tileSize (images, cursor) = strideLoop
        (min (wordSub (word (cursor.tiledOffset + c.alignDown (start + c.tileSize)))
          (c.alignUp start)) (word c.tileSize)) c.tileSize
        (c.copyTile false (8 * columns) (8 * rows) linearSize c.tileSize) cursor.tiledOffset
        (images, cursor) := if_pos (by omega)
  rw [mortonCopy, if_neg fun hcond => Bool.noConfusion hcond.1, hfirst, ok_bind,
    if_neg fun hcond => absurd hcond.1 (by omega), ok_bind, hwhole, hend, hzero,
    strideLoop_of_lt hpos hpos hcopy, strideLoop_of_le (by omega), ok_bind,
    if_neg fun hcond => absurd hcond.1 (by omega)]

/-- What the theorem excludes does fail: the width is zero, or a line of tiles has no pixels as a
value of `u32`; and the index of the first pixel of a window is not a value of `u32`. -/
theorem not_mortonCopy_exact : ¬(⟨.rgba8, false, by decide⟩ : Codec).RoundTrips 0 8 ∧
    ¬(⟨.i4, false, by decide⟩ : Codec).RoundTrips (2 ^ 29) 8 ∧
    ¬(⟨.rgba8, false, by decide⟩ : Codec).Windows 8 (2 ^ 24 + 8) (2 ^ 29) (2 ^ 29 + 256) := by
  let zeros : Buffer := fun _ => 0
  refine ⟨fun h => ?_, fun h => ?_, fun h => ?_⟩
  · obtain ⟨linear, tiled, hdecode, -⟩ := h zeros zeros zeros ⟨zeros, zeros⟩
    rw [mortonCopy_of_firstTile_error (by decide) rfl] at hdecode
    cases hdecode
  · obtain ⟨linear, tiled, hdecode, -⟩ := h zeros zeros zeros ⟨zeros, zeros⟩
    rw [mortonCopy_of_firstTile_error (by decide) rfl] at hdecode
    cases hdecode
  · -- the lines of the last tile are ones, and those of the first tile are zeros
    let host : Buffer := fun a => if a < 256 then 1 else 0
    have himage : (⟨.rgba8, false, by decide⟩ : Codec).Image 1 (2 ^ 21 + 1) (2 ^ 29 + 256) :=
      ⟨by decide, by decide, by decide, by decide, by decide⟩
    obtain ⟨image, hswizzled⟩ := himage.exists_isSwizzled host
    obtain ⟨whole, hwhole, hall⟩ := (@Image.mortonCopy_encode _ _ _ _ _ ⟨zeros, host⟩ 0
      (2 ^ 29 + 256) himage (2 ^ 29 + 256)) zeros zeros hswizzled (by decide)
      (by decide) (by decide) (by decide) (by decide)
    obtain ⟨part, hpart, hfirst⟩ :=
        (@mortonCopy_of_wrongTile _ (2 ^ 29) _ _ _ 0 ⟨0, 0, 2 ^ 29, 0⟩ _ ⟨zeros, host⟩) himage
          zeros zeros hswizzled (by decide)
      (by decide) (by decide) (by decide) rfl rfl fun _ => by decide
    obtain ⟨whole', part', hwhole', hpart', hbytes⟩ := h zeros zeros zeros ⟨zeros, host⟩ 256
      (by decide) (by decide)
    have hwholes : whole = whole' := congrArg Images.tiled (Except.ok.inj (hwhole.symm.trans hwhole'))
    have hparts : part = part' := congrArg Images.tiled (Except.ok.inj (hpart.symm.trans hpart'))
    have hzero : image 0 = 0 := by
      have hpixel := hswizzled 0 (by decide) 0 (by decide)
      exact (List.cons.inj hpixel).1
    have hone : image (2 ^ 29) = 1 := by
      have hpixel := hswizzled (2 ^ 21) (by decide) 0 (by decide)
      exact (List.cons.inj hpixel).1
    have hsame : image 0 = image (2 ^ 29) := by
      calc image 0 = part 0 := (hfirst 0 (by decide)).symm
        _ = whole (2 ^ 29) := by
          rw [hparts, hwholes]
          exact hbytes 0
        _ = image (2 ^ 29) := hall (2 ^ 29)
    rw [hzero, hone] at hsame
    exact absurd hsame (by decide)

end Exact

end Codec

end GbaStation.Rasterizer
