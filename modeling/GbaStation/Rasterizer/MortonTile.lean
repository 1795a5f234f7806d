import GbaStation.Rasterizer.PixelCodec

/-!
# Tiles of an image (`rasterizer_cache/texture_codec.h`)

`MortonCopyTile` converts the 8x8 pixels of a tile, which lie in the order of Morton in the tiled
image and row by row, the last row first, in the linear one.

- The part of a tile that a pixel has is the bytes of it, or the half of a byte: `part`, `putPart`.
-/

namespace GbaStation.Rasterizer

open Color
open UInt8 (ofFin ofNat)

/-! ## Buffers -/

/-- So many bytes of a buffer. -/
def window (buffer : Buffer) (start size : Nat) : List UInt8 :=
  (List.range size).map fun i => buffer (start + i)

/-- The buffer with bytes written over it. -/
def splice (buffer : Buffer) (start : Nat) (bytes : List UInt8) : Buffer := fun a =>
  if start ≤ a ∧ a < start + bytes.length then bytes.getD (a - start) 0 else buffer a

section Buffers

variable {buffer buffer' : Buffer} {start size a : Nat} {bytes : List UInt8}

theorem length_window : (window buffer start size).length = size := by
  rw [window, List.length_map, List.length_range]

theorem window_congr {start' : Nat} (h : ∀ i < size, buffer (start + i) = buffer' (start' + i)) :
    window buffer start size = window buffer' start' size :=
  List.map_congr_left fun i hi => h i (List.mem_range.mp hi)

theorem of_window_eq {start' : Nat} (h : window buffer start size = window buffer' start' size)
    {i : Nat} (hi : i < size) : buffer (start + i) = buffer' (start' + i) :=
  List.map_inj_left.mp h i (List.mem_range.mpr hi)

theorem splice_of_outside (h : a < start ∨ start + bytes.length ≤ a) :
    splice buffer start bytes a = buffer a := if_neg (by omega)

theorem splice_of_lt {i : Nat} (h : i < bytes.length) :
    splice buffer start bytes (start + i) = byteOf bytes i := by
  rw [splice, if_pos ⟨Nat.le_add_right .., Nat.add_lt_add_left h _⟩, Nat.add_sub_cancel_left]
  rfl

theorem splice_start {byte : UInt8} : splice buffer start [byte] start = byte :=
  splice_of_lt (i := 0) Nat.one_pos

theorem window_splice : window (splice buffer start bytes) start bytes.length = bytes := by
  refine List.ext_getElem length_window fun i hi hi' => ?_
  simp only [window, List.getElem_map, List.getElem_range]
  rw [splice_of_lt hi', byteOf, List.getD_eq_getElem?_getD, List.getElem?_eq_getElem hi',
    Option.getD_some]

end Buffers

/-! ## The order of Morton -/

/-- The column of a pixel. -/
def mortonX (m : Nat) : Nat := m % 2 + 2 * (m / 4 % 2) + 4 * (m / 16 % 2)

/-- The row of a pixel. -/
def mortonY (m : Nat) : Nat := m / 2 % 2 + 2 * (m / 8 % 2) + 4 * (m / 32 % 2)

theorem mortonX_lt (m : Nat) : mortonX m < 8 := by unfold mortonX; omega

theorem mortonY_lt (m : Nat) : mortonY m < 8 := by unfold mortonY; omega

theorem mortonInterleave_mortonX {m : Nat} (h : m < 64) :
    mortonInterleave (mortonX m) (mortonY m) = m := by
  have hall : ∀ m < 64, mortonInterleave (mortonX m) (mortonY m) = m := by decide
  exact hall m h

theorem mortonX_mortonInterleave {x y : Nat} (hx : x < 8) (hy : y < 8) :
    mortonX (mortonInterleave x y) = x ∧ mortonY (mortonInterleave x y) = y := by
  have hall : ∀ x < 8, ∀ y < 8,
      mortonX (mortonInterleave x y) = x ∧ mortonY (mortonInterleave x y) = y := by decide
  exact hall x hx y hy

/-! ## Parts of a tile -/

section Nibbles

variable {value current : UInt8} {m m' : Nat}

theorem nibbleOf_lt (byte : UInt8) (m : Nat) : (nibbleOf byte m).toNat < 16 := by
  have hall : ∀ v : Fin 256, ((ofFin v &&& 0xF0) >>> 4).toNat < 16 ∧
      (ofFin v &&& 0xF).toNat < 16 := by decide +kernel
  have hbyte := hall byte.toFin
  rw [nibbleOf]
  split
  · exact hbyte.1
  · exact hbyte.2

/-- What the halves of a byte are after one of them was written. -/
theorem putNibble_halves (h : value.toNat < 16) :
    ((value <<< 4 ||| (current &&& 0x0F)) &&& 0xF0) >>> 4 = value ∧
      (value <<< 4 ||| (current &&& 0x0F)) &&& 0xF = current &&& 0xF ∧
      ((current &&& 0xF0) ||| value) &&& 0xF = value ∧
      (((current &&& 0xF0) ||| value) &&& 0xF0) >>> 4 = (current &&& 0xF0) >>> 4 := by
  have hall : ∀ v : Fin 16, ∀ b : Fin 256,
      ((ofNat v <<< 4 ||| (ofFin b &&& 0x0F)) &&& 0xF0) >>> 4 = ofNat v ∧
      (ofNat v <<< 4 ||| (ofFin b &&& 0x0F)) &&& 0xF = ofFin b &&& 0xF ∧
      ((ofFin b &&& 0xF0) ||| ofNat v) &&& 0xF = ofNat v ∧
      (((ofFin b &&& 0xF0) ||| ofNat v) &&& 0xF0) >>> 4 =
        (ofFin b &&& 0xF0) >>> 4 := by decide +kernel
  have hvalue := hall ⟨value.toNat, h⟩ current.toFin
  rwa [UInt8.ofNat_toNat] at hvalue

theorem nibbleOf_putNibble_same (h : value.toNat < 16) :
    nibbleOf (Codec.putNibble value current m) m = value := by
  obtain ⟨hhigh, -, hlow, -⟩ := (@putNibble_halves _ current) h
  unfold nibbleOf Codec.putNibble
  split
  · exact hhigh
  · exact hlow

theorem nibbleOf_putNibble_other (h : value.toNat < 16) (hne : m % 2 ≠ m' % 2) :
    nibbleOf (Codec.putNibble value current m) m' = nibbleOf current m' := by
  obtain ⟨-, hlow, -, hhigh⟩ := (@putNibble_halves _ current) h
  unfold nibbleOf Codec.putNibble
  rcases Nat.mod_two_eq_zero_or_one m with hm | hm
  · have hneg : ¬m % 2 = 1 := by omega
    have hm' : m' % 2 = 1 := by omega
    simp only [if_neg hneg, if_pos hm', hhigh]
  · have hm' : ¬m' % 2 = 1 := by omega
    simp only [if_pos hm, if_neg hm', hlow]

/-- A byte is its halves. -/
theorem ext_nibbleOf {byte byte' : UInt8} (heven : nibbleOf byte 0 = nibbleOf byte' 0)
    (hodd : nibbleOf byte 1 = nibbleOf byte' 1) : byte = byte' := by
  have hall : ∀ v : Fin 256, nibbleOf (ofFin v) 1 <<< 4 ||| nibbleOf (ofFin v) 0 =
      ofFin v := by decide +kernel
  have hbyte : nibbleOf byte 1 <<< 4 ||| nibbleOf byte 0 = byte := hall byte.toFin
  rw [← hbyte, hodd, heven]
  exact hall byte'.toFin

theorem nibbleOf_congr (byte : UInt8) (h : m % 2 = m' % 2) : nibbleOf byte m = nibbleOf byte m' := by
  rw [nibbleOf, nibbleOf, h]

end Nibbles

namespace Codec

variable (c : Codec)

/-- The part of a tile that a pixel has. -/
def part (buffer : Buffer) (start m : Nat) : List UInt8 :=
  if c.is4bit then [nibbleOf (buffer (start + m / 2)) m]
  else window buffer (start + m * c.bytesPerPixel) c.bytesPerPixel

def putPart (buffer : Buffer) (start m : Nat) (part : List UInt8) : Buffer :=
  if c.is4bit then
    splice buffer (start + m / 2) [putNibble (byteOf part 0) (buffer (start + m / 2)) m]
  else splice buffer (start + m * c.bytesPerPixel) part

/-- The bytes of a pixel, or a half of a byte. -/
def IsPart (part : List UInt8) : Prop :=
  if c.is4bit then ∃ nibble : UInt8, nibble.toNat < 16 ∧ part = [nibble]
  else part.length = c.bytesPerPixel

def decodePart (part : List UInt8) : List UInt8 :=
  if c.is4bit then c.decodeNibble (byteOf part 0) else c.decodePixel part

def encodePart (source : List UInt8) : List UInt8 :=
  if c.is4bit then [c.encodeNibble source] else c.encodePixel source

variable {c} {buffer buffer' : Buffer} {start start' m m' a : Nat} {part source : List UInt8}

theorem isPart_part : c.IsPart (c.part buffer start m) := by
  unfold IsPart Codec.part
  split
  · exact ⟨_, nibbleOf_lt _ m, rfl⟩
  · exact length_window

theorem isPart_encodePart (h : c.IsExact) (hlength : source.length = c.hostBytes) :
    c.IsPart (c.encodePart source) := by
  unfold IsPart encodePart
  split
  · have hall : ∀ v : Fin 256, (convert8To4 (ofFin v)).toNat < 16 := by decide +kernel
    exact ⟨_, hall (UInt8.toFin _), rfl⟩
  · next h4 => exact length_encodePixel h (Bool.eq_false_iff.mpr h4) hlength

theorem length_decodePart (h : c.IsExact) (hpart : c.IsPart part) :
    (c.decodePart part).length = c.hostBytes := by
  unfold IsPart at hpart
  unfold decodePart
  split
  · next h4 =>
    have hhost : c.hostBytes = 4 := by
      obtain ⟨format, converted, hintegral⟩ := c
      cases format <;> first | rfl | simp [is4bit] at h4
    rw [hhost, decodeNibble]
    split <;> rfl
  · next h4 =>
    rw [if_neg h4] at hpart
    exact length_decodePixel h (Bool.eq_false_iff.mpr h4) hpart

/-- An exact codec loses nothing. -/
theorem encodePart_decodePart (h : c.IsExact) (hpart : c.IsPart part) :
    c.encodePart (c.decodePart part) = part := by
  unfold IsPart at hpart
  unfold encodePart decodePart
  split
  · next h4 =>
    rw [if_pos h4] at hpart
    obtain ⟨nibble, hnibble, rfl⟩ := hpart
    have hsame := (convert_same nibble).1 hnibble
    show [c.encodeNibble (c.decodeNibble nibble)] = [nibble]
    rw [encodeNibble, decodeNibble]
    by_cases hi4 : c.format = .i4
    · rw [if_pos hi4, if_pos hi4]
      exact congrArg (fun byte => [convert8To4 byte]) (averageRgbComponents_same _ 255)
        |>.trans (congrArg (fun byte => [byte]) hsame)
    · rw [if_neg hi4, if_neg hi4]
      exact congrArg (fun byte => [byte]) hsame
  · next h4 =>
    rw [if_neg h4] at hpart
    exact encodePixel_decodePixel h (Bool.eq_false_iff.mpr h4) hpart

theorem part_putPart_same (hpart : c.IsPart part) :
    c.part (c.putPart buffer start m part) start m = part := by
  unfold IsPart at hpart
  unfold Codec.part putPart
  split
  · next h4 =>
    rw [if_pos h4] at hpart
    obtain ⟨nibble, hnibble, rfl⟩ := hpart
    rw [splice_start]
    exact congrArg (fun nibble => [nibble]) (nibbleOf_putNibble_same hnibble)
  · next h4 =>
    rw [if_neg h4] at hpart
    rw [← hpart, window_splice]

theorem part_putPart_other (hpart : c.IsPart part) (hne : m ≠ m') :
    c.part (c.putPart buffer start m part) start m' = c.part buffer start m' := by
  unfold IsPart at hpart
  unfold Codec.part putPart
  split
  · next h4 =>
    rw [if_pos h4] at hpart
    obtain ⟨nibble, hnibble, rfl⟩ := hpart
    by_cases hbyte : m / 2 = m' / 2
    · -- the other half of the same byte
      have hother : m % 2 ≠ m' % 2 := by omega
      rw [hbyte, splice_start]
      exact congrArg (fun nibble => [nibble]) (nibbleOf_putNibble_other hnibble hother)
    · rw [splice_of_outside (by rw [List.length_singleton]; omega)]
  · next h4 =>
    rw [if_neg h4] at hpart
    refine window_congr fun i hi => splice_of_outside ?_
    rw [hpart]
    rcases Nat.lt_or_gt_of_ne hne with hlt | hgt
    · have hmul := Nat.mul_le_mul_right c.bytesPerPixel hlt
      rw [Nat.succ_mul] at hmul
      omega
    · have hmul := Nat.mul_le_mul_right c.bytesPerPixel hgt
      rw [Nat.succ_mul] at hmul
      omega

theorem putPart_of_outside (h : c.IsExact) (hpart : c.IsPart part) (hm : m < 64)
    (ha : a < start ∨ start + c.tileSize ≤ a) : c.putPart buffer start m part a = buffer a := by
  unfold IsPart at hpart
  unfold putPart
  obtain ⟨⟨h4, -, hsize⟩ | ⟨h4, -, hsize⟩, -⟩ := of_isExact h
  · rw [if_pos h4]
    exact splice_of_outside (by rw [List.length_singleton]; omega)
  · rw [h4, if_neg Bool.false_ne_true] at hpart
    rw [h4, if_neg Bool.false_ne_true]
    have hmul := Nat.mul_le_mul_right c.bytesPerPixel hm
    rw [Nat.succ_mul] at hmul
    exact splice_of_outside (by omega)

theorem part_congr (h : c.IsExact) (hm : m < 64)
    (hbytes : ∀ i < c.tileSize, buffer (start + i) = buffer' (start' + i)) :
    c.part buffer start m = c.part buffer' start' m := by
  unfold Codec.part
  obtain ⟨⟨h4, -, hsize⟩ | ⟨h4, -, hsize⟩, -⟩ := of_isExact h
  · rw [if_pos h4, if_pos h4, hbytes (m / 2) (by omega)]
  · rw [h4, if_neg Bool.false_ne_true, if_neg Bool.false_ne_true]
    have hmul := Nat.mul_le_mul_right c.bytesPerPixel hm
    rw [Nat.succ_mul] at hmul
    refine window_congr fun i hi => ?_
    rw [Nat.add_assoc, Nat.add_assoc]
    exact hbytes _ (by omega)

/-- A tile is its parts. -/
theorem ext_part (h : c.IsExact)
    (hparts : ∀ m < 64, c.part buffer start m = c.part buffer' start' m) {i : Nat}
    (hi : i < c.tileSize) : buffer (start + i) = buffer' (start' + i) := by
  obtain ⟨⟨h4, -, hsize⟩ | ⟨h4, hpos, hsize⟩, -⟩ := of_isExact h
  · have hnibble (m : Nat) (hm : m < 64) :
        nibbleOf (buffer (start + m / 2)) m = nibbleOf (buffer' (start' + m / 2)) m := by
      have hpart := hparts m hm
      rw [Codec.part, Codec.part, if_pos h4, if_pos h4] at hpart
      exact (List.cons.inj hpart).1
    have heven := hnibble (2 * i) (by omega)
    have hodd := hnibble (2 * i + 1) (by omega)
    have hzero (byte : UInt8) : nibbleOf byte (2 * i) = nibbleOf byte 0 :=
      nibbleOf_congr byte (by omega)
    have hone (byte : UInt8) : nibbleOf byte (2 * i + 1) = nibbleOf byte 1 :=
      nibbleOf_congr byte (by omega)
    rw [Nat.mul_div_cancel_left i Nat.two_pos, hzero, hzero] at heven
    rw [show (2 * i + 1) / 2 = i by omega, hone, hone] at hodd
    exact ext_nibbleOf heven hodd
  · have hpart := hparts (i / c.bytesPerPixel) (Nat.div_lt_of_lt_mul (by rwa [Nat.mul_comm, ← hsize]))
    rw [Codec.part, Codec.part, h4] at hpart
    have hbyte := of_window_eq hpart (Nat.mod_lt i hpos)
    rwa [Nat.add_assoc, Nat.div_add_mod', Nat.add_assoc, Nat.div_add_mod'] at hbyte

end Codec

/-! ## Copies of a tile -/

/-- The tiled image and the linear one. -/
structure Images where
  tiled : Buffer
  linear : Buffer

namespace MemoryArea

/-- `std::span::subspan`. -/
def subspan (area : MemoryArea) (offset size : Nat) : Except MemoryFault MemoryArea :=
  if offset + size ≤ area.size then .ok ⟨area.start + offset, size⟩ else .error .outside

/-- `std::span::data`. -/
def data (area : MemoryArea) : MemoryRef := ⟨area, 0⟩

variable {area : MemoryArea} {offset size : Nat} {buffer : Buffer} {bytes : List UInt8}

theorem subspan_of_le (h : offset + size ≤ area.size) :
    area.subspan offset size = .ok ⟨area.start + offset, size⟩ := if_pos h

theorem read_data (h : offset + size ≤ area.size) :
    area.data.read offset size buffer = .ok (window buffer (area.start + offset) size) :=
  MemoryRef.read_of_inside (.inr (by rw [data, Nat.zero_add]; exact h))

theorem write_data (h : offset + bytes.length ≤ area.size) :
    area.data.write offset bytes buffer = .ok (splice buffer (area.start + offset) bytes) :=
  MemoryRef.write_of_inside (.inr (by rw [data, Nat.zero_add]; exact h))

/-- A buffer of its own. -/
theorem read_whole {total : Nat} (h : offset + size ≤ total) :
    (MemoryArea.mk 0 total).data.read offset size buffer = .ok (window buffer offset size) := by
  rw [read_data h, Nat.zero_add]

theorem write_whole {total : Nat} (h : offset + bytes.length ≤ total) :
    (MemoryArea.mk 0 total).data.write offset bytes buffer = .ok (splice buffer offset bytes) := by
  rw [write_data h, Nat.zero_add]

end MemoryArea

open MemoryArea (read_data write_data)

namespace Codec

variable (c : Codec)

/-- `DecodePixelETC1`. -/
def decodePixelETC1 (x y : Nat) (tile : MemoryArea) (buffer : Buffer) :
    Except MemoryFault (List UInt8) := do
  let subtileSize := if c.format = .etc1a4 then 16 else 8
  let subtile := (x / 4 + 2 * (y / 4)) * subtileSize
  if c.format = .etc1a4 then
    let packedAlpha := makeInt64 (← tile.data.read subtile 8 buffer)
    let alpha := convert4To8
      (packedAlpha >>> UInt64.ofNat (4 * (x % 4 * 4 + y % 4)) &&& 0xF).toUInt8
    let (r, g, b) := Etc1.getRGB (makeInt64 (← tile.data.read (subtile + 8) 8 buffer)) (x % 4) (y % 4)
    return [r, g, b, alpha]
  else
    let (r, g, b) := Etc1.getRGB (makeInt64 (← tile.data.read subtile 8 buffer)) (x % 4) (y % 4)
    return [r, g, b, 255]

/-- A pixel of `MortonCopyTile`. -/
def copyPixel (mortonToLinear : Bool) (stride : Nat) (tile linear : MemoryArea) (y x : Nat)
    (images : Images) : Except MemoryFault Images := do
  let mortonOffset := mortonInterleave x y
  let tiledPixel ← tile.subspan (mortonOffset * c.bytesPerPixel) c.bytesPerPixel
  let linearPixel ← linear.subspan (word (((7 - y) * stride + x) * c.linearBytesPerPixel))
    c.linearBytesPerPixel
  if mortonToLinear then
    let pixel ←
      if c.isCompressed then c.decodePixelETC1 x y tile images.tiled
      else if c.is4bit then do
        let value ← tile.data.read (mortonOffset / 2) 1 images.tiled
        pure (c.decodeNibble (nibbleOf (byteOf value 0) mortonOffset))
      else do
        let source ← tiledPixel.data.read 0 c.bytesPerPixel images.tiled
        pure (c.decodePixel source)
    return { images with linear := ← linearPixel.data.write 0 pixel images.linear }
  else
    let source ← linearPixel.data.read 0 c.hostBytes images.linear
    if c.is4bit then
      let current ← tile.data.read (mortonOffset / 2) 1 images.tiled
      let value := putNibble (c.encodeNibble source) (byteOf current 0) mortonOffset
      return { images with tiled := ← tile.data.write (mortonOffset / 2) [value] images.tiled }
    else
      return { images with tiled := ← tiledPixel.data.write 0 (c.encodePixel source) images.tiled }

/-- `MortonCopyTile`. -/
def mortonCopyTile (mortonToLinear : Bool) (stride : Nat) (tile linear : MemoryArea)
    (images : Images) : Except MemoryFault Images :=
  strideLoop 8 1 (fun y => strideLoop 8 1 (c.copyPixel mortonToLinear stride tile linear y) 0) 0
    images

/-- Where a pixel of a tile lies in its lines of the linear image. -/
def hostOffset (stride x y : Nat) : Nat := ((7 - y) * stride + x) * c.linearBytesPerPixel

/-- A pixel of the linear image, whose lines of the tile begin at an offset. -/
def hostPixel (buffer : Buffer) (start stride x y : Nat) : List UInt8 :=
  window buffer (start + c.hostOffset stride x y) c.hostBytes

/-- The codec loses nothing, and a tile and its lines of the linear image have their sizes. -/
structure OnTile (stride : Nat) (tile linear : MemoryArea) : Prop where
  exact : c.IsExact
  wide : 8 ≤ stride
  tileSize : tile.size = c.tileSize
  linearSize : linear.size = (7 * stride + 8) * c.linearBytesPerPixel
  fits : linear.size < 2 ^ 32

variable {c} {stride x y x' y' : Nat} {tile linear : MemoryArea} {images : Images}

theorem hostOffset_le (hx : x < 8) :
    c.hostOffset stride x y + c.linearBytesPerPixel ≤ (7 * stride + 8) * c.linearBytesPerPixel := by
  have hrow : (7 - y) * stride ≤ 7 * stride := Nat.mul_le_mul_right stride (Nat.sub_le 7 y)
  have hcount : (7 - y) * stride + x + 1 ≤ 7 * stride + 8 := by omega
  have hbytes := Nat.mul_le_mul_right c.linearBytesPerPixel hcount
  rwa [Nat.succ_mul] at hbytes

/-- A row and a column are known from the index. -/
theorem of_mul_add_eq {width row column row' column' : Nat} (h : column < width)
    (h' : column' < width) (heq : row * width + column = row' * width + column') :
    row = row' ∧ column = column' := by
  have hcolumn : column = column' := by
    have hmod := congrArg (· % width) heq
    simpa only [Nat.mul_add_mod_self_right, Nat.mod_eq_of_lt h, Nat.mod_eq_of_lt h'] using hmod
  have hrow : row * width = row' * width := by omega
  exact ⟨Nat.eq_of_mul_eq_mul_right (Nat.zero_lt_of_lt h) hrow, hcolumn⟩

/-- Two pixels of the linear image do not overlap. -/
theorem hostOffset_disjoint (hwide : 8 ≤ stride) (hx : x < 8) (hy : y < 8) (hx' : x' < 8)
    (hy' : y' < 8) (hne : (x, y) ≠ (x', y')) :
    c.hostOffset stride x y + c.linearBytesPerPixel ≤ c.hostOffset stride x' y' ∨
      c.hostOffset stride x' y' + c.linearBytesPerPixel ≤ c.hostOffset stride x y := by
  have hindex : (7 - y) * stride + x ≠ (7 - y') * stride + x' := by
    intro heq
    obtain ⟨hrow, hcolumn⟩ := of_mul_add_eq (Nat.lt_of_lt_of_le hx hwide)
      (Nat.lt_of_lt_of_le hx' hwide) heq
    exact hne (Prod.ext hcolumn (by dsimp only; omega))
  unfold hostOffset
  rcases Nat.lt_or_gt_of_ne hindex with hlt | hgt
  · exact .inl (by rw [← Nat.succ_mul]; exact Nat.mul_le_mul_right _ hlt)
  · exact .inr (by rw [← Nat.succ_mul]; exact Nat.mul_le_mul_right _ hgt)

namespace OnTile

variable (h : c.OnTile stride tile linear)
include h

/-- The pixel of the linear image is in its lines. -/
theorem subspan_linear (hx : x < 8) :
    linear.subspan (word (((7 - y) * stride + x) * c.linearBytesPerPixel)) c.linearBytesPerPixel =
      .ok ⟨linear.start + c.hostOffset stride x y, c.linearBytesPerPixel⟩ := by
  have hle := (@hostOffset_le c stride _ y) hx
  rw [← h.linearSize] at hle
  have hword : word (((7 - y) * stride + x) * c.linearBytesPerPixel) = c.hostOffset stride x y :=
    word_of_lt (Nat.lt_of_le_of_lt (Nat.le_of_add_right_le hle) h.fits)
  rw [hword]
  exact MemoryArea.subspan_of_le hle

/-- The pixel of the tiled image is in its tile. -/
theorem subspan_tile : tile.subspan (mortonInterleave x y * c.bytesPerPixel) c.bytesPerPixel =
    .ok ⟨tile.start + mortonInterleave x y * c.bytesPerPixel, c.bytesPerPixel⟩ := by
  have hlt := mortonInterleave_lt x y
  refine MemoryArea.subspan_of_le ?_
  rw [h.tileSize]
  obtain ⟨⟨-, hzero, -⟩ | ⟨-, -, hsize⟩, -⟩ := of_isExact h.exact
  · rw [hzero, Nat.mul_zero]
    exact Nat.zero_le _
  · have hmul := Nat.mul_le_mul_right c.bytesPerPixel hlt
    rw [Nat.succ_mul] at hmul
    omega

theorem nibble_inside (h4 : c.is4bit = true) : mortonInterleave x y / 2 + 1 ≤ tile.size := by
  have hlt := mortonInterleave_lt x y
  rw [h.tileSize]
  obtain ⟨⟨-, -, hsize⟩ | ⟨hbytes, -⟩, -⟩ := of_isExact h.exact
  · omega
  · rw [h4] at hbytes
    cases hbytes

theorem copyPixel_encode (hx : x < 8) : c.copyPixel false stride tile linear y x images =
    .ok { images with
      tiled := c.putPart images.tiled tile.start (mortonInterleave x y)
        (c.encodePart (c.hostPixel images.linear linear.start stride x y)) } := by
  obtain ⟨-, -, -, -, hhost, -⟩ := of_isExact h.exact
  have hread : (MemoryArea.mk (linear.start + c.hostOffset stride x y)
      c.linearBytesPerPixel).data.read 0 c.hostBytes images.linear =
        .ok (c.hostPixel images.linear linear.start stride x y) :=
    read_data (by rw [Nat.zero_add]; exact hhost)
  rw [copyPixel, h.subspan_linear hx, h.subspan_tile]
  simp only [bind, Except.bind, hread, Bool.false_eq_true, if_false, pure, Except.pure]
  unfold putPart encodePart
  cases h4 : c.is4bit with
  | true =>
    have hin := h.nibble_inside (x := x) (y := y) h4
    simp only [if_true, read_data hin, (@write_data _ _ _ [_]) hin]
    rfl
  | false =>
    have hlength : (c.encodePixel (c.hostPixel images.linear linear.start stride x y)).length =
        c.bytesPerPixel := length_encodePixel h.exact h4 length_window
    have hwrite : (MemoryArea.mk (tile.start + mortonInterleave x y * c.bytesPerPixel)
        c.bytesPerPixel).data.write 0
          (c.encodePixel (c.hostPixel images.linear linear.start stride x y)) images.tiled = _ :=
      write_data (by rw [Nat.zero_add, hlength])
    simp only [Bool.false_eq_true, if_false, hwrite, Nat.add_zero]

theorem copyPixel_decode (hx : x < 8) : c.copyPixel true stride tile linear y x images =
    .ok { images with
      linear := splice images.linear (linear.start + c.hostOffset stride x y)
        (c.decodePart (c.part images.tiled tile.start (mortonInterleave x y))) } := by
  obtain ⟨-, -, -, -, hhost, -⟩ := of_isExact h.exact
  have hlength := length_decodePart h.exact
    ((@isPart_part c images.tiled tile.start (mortonInterleave x y)))
  have hwrite : (MemoryArea.mk (linear.start + c.hostOffset stride x y)
      c.linearBytesPerPixel).data.write 0
        (c.decodePart (c.part images.tiled tile.start (mortonInterleave x y))) images.linear = _ :=
    write_data (by rw [Nat.zero_add, hlength]; exact hhost)
  rw [copyPixel, h.subspan_linear hx, h.subspan_tile]
  simp only [bind, Except.bind, if_true, h.exact.1.1, Bool.false_eq_true, if_false, pure,
    Except.pure]
  unfold decodePart Codec.part at hwrite ⊢
  cases h4 : c.is4bit with
  | true =>
    have hin := h.nibble_inside (x := x) (y := y) h4
    simp only [h4, if_true] at hwrite
    simp only [if_true, read_data hin]
    exact congrArg (Except.map fun linear => { images with linear }) hwrite
  | false =>
    have hread : (MemoryArea.mk (tile.start + mortonInterleave x y * c.bytesPerPixel)
        c.bytesPerPixel).data.read 0 c.bytesPerPixel images.tiled = _ :=
      read_data (by rw [Nat.zero_add])
    simp only [h4, Bool.false_eq_true, if_false] at hwrite
    simp only [Bool.false_eq_true, if_false, hread, Nat.add_zero, hwrite]

/-- A tile that was encoded: each of its pixels is what the linear image has there. -/
theorem mortonCopyTile_encode : ∃ tiled,
    c.mortonCopyTile false stride tile linear images = .ok { images with tiled } ∧
      (∀ m < 64, c.part tiled tile.start m = c.encodePart
        (c.hostPixel images.linear linear.start stride (mortonX m) (mortonY m))) ∧
      ∀ a, a < tile.start ∨ tile.start + c.tileSize ≤ a → tiled a = images.tiled a := by
  -- the pixels up to the one where the loops are have been written
  let I (y x : Nat) (s : Images) : Prop := s.linear = images.linear ∧
    (∀ x' < 8, ∀ y' < 8, y' < y ∨ y' = y ∧ x' < x →
      c.part s.tiled tile.start (mortonInterleave x' y') =
        c.encodePart (c.hostPixel images.linear linear.start stride x' y')) ∧
    ∀ a, a < tile.start ∨ tile.start + c.tileSize ≤ a → s.tiled a = images.tiled a
  have hbody (y x : Nat) (s : Images) (hy : y < 8) (hx : x < 8) (hinv : I y x s) :
      ∃ s', c.copyPixel false stride tile linear y x s = .ok s' ∧ I y (x + 1) s' := by
    obtain ⟨hlinear, hdone, hframe⟩ := hinv
    have hpart := (@isPart_encodePart _ (c.hostPixel s.linear linear.start stride x y)) h.exact
      length_window
    refine ⟨_, h.copyPixel_encode hx, hlinear, fun x' hx' y' hy' hbefore => ?_, fun a ha => ?_⟩
    · by_cases hsame : x' = x ∧ y' = y
      · obtain ⟨rfl, rfl⟩ := hsame
        exact (part_putPart_same hpart).trans (by rw [hlinear])
      · have hne : mortonInterleave x y ≠ mortonInterleave x' y' := by
          intro heq
          obtain ⟨hfirst, hsecond⟩ := mortonX_mortonInterleave hx hy
          rw [heq] at hfirst hsecond
          obtain ⟨hfirst', hsecond'⟩ := mortonX_mortonInterleave hx' hy'
          exact hsame ⟨hfirst'.symm.trans hfirst, hsecond'.symm.trans hsecond⟩
        exact (part_putPart_other hpart hne).trans (hdone x' hx' y' hy' (by omega))
    · exact (putPart_of_outside h.exact hpart (mortonInterleave_lt x y) ha).trans (hframe a ha)
  obtain ⟨s, hloop, hlinear, hdone, hframe⟩ := strideLoop_nested_ok hbody
    (fun y s hy hinv => ⟨hinv.1, fun x' hx' y' hy' hbefore =>
      hinv.2.1 x' hx' y' hy' (by omega), hinv.2.2⟩)
    (show I 0 0 images from ⟨rfl, fun _ _ _ _ hbefore => by omega, fun _ _ => rfl⟩)
  refine ⟨s.tiled, hloop.trans (by rw [← hlinear]), fun m hm => ?_, hframe⟩
  have hpixel := hdone _ (mortonX_lt m) _ (mortonY_lt m) (.inl (mortonY_lt m))
  rwa [mortonInterleave_mortonX hm] at hpixel

/-- A tile that was decoded. -/
theorem mortonCopyTile_decode : ∃ host,
    c.mortonCopyTile true stride tile linear images = .ok { images with linear := host } ∧
      (∀ x < 8, ∀ y < 8, c.hostPixel host linear.start stride x y =
        c.decodePart (c.part images.tiled tile.start (mortonInterleave x y))) ∧
      ∀ a, (∀ x < 8, ∀ y < 8, a < linear.start + c.hostOffset stride x y ∨
        linear.start + c.hostOffset stride x y + c.linearBytesPerPixel ≤ a) →
          host a = images.linear a := by
  obtain ⟨-, -, -, -, hhost, -⟩ := of_isExact h.exact
  let I (y x : Nat) (s : Images) : Prop := s.tiled = images.tiled ∧
    (∀ x' < 8, ∀ y' < 8, y' < y ∨ y' = y ∧ x' < x →
      c.hostPixel s.linear linear.start stride x' y' =
        c.decodePart (c.part images.tiled tile.start (mortonInterleave x' y'))) ∧
    ∀ a, (∀ x < 8, ∀ y < 8, a < linear.start + c.hostOffset stride x y ∨
      linear.start + c.hostOffset stride x y + c.linearBytesPerPixel ≤ a) →
        s.linear a = images.linear a
  have hbody (y x : Nat) (s : Images) (hy : y < 8) (hx : x < 8) (hinv : I y x s) :
      ∃ s', c.copyPixel true stride tile linear y x s = .ok s' ∧ I y (x + 1) s' := by
    obtain ⟨htiled, hdone, hframe⟩ := hinv
    have hlength := length_decodePart h.exact
      ((@isPart_part c s.tiled tile.start (mortonInterleave x y)))
    refine ⟨_, h.copyPixel_decode hx, htiled, fun x' hx' y' hy' hbefore => ?_, fun a ha => ?_⟩
    · by_cases hsame : x' = x ∧ y' = y
      · obtain ⟨rfl, rfl⟩ := hsame
        rw [hostPixel, ← hlength, window_splice, htiled]
      · have hapart := hostOffset_disjoint (c := c) h.wide hx hy hx' hy' fun heq =>
          hsame ⟨(congrArg Prod.fst heq).symm, (congrArg Prod.snd heq).symm⟩
        rw [← hdone x' hx' y' hy' (by omega)]
        exact window_congr fun i hi => splice_of_outside (by omega)
    · have hout := ha x hx y hy
      exact (splice_of_outside (by omega)).trans (hframe a ha)
  obtain ⟨s, hloop, htiled, hdone, hframe⟩ := strideLoop_nested_ok hbody
    (fun y s hy hinv => ⟨hinv.1, fun x' hx' y' hy' hbefore =>
      hinv.2.1 x' hx' y' hy' (by omega), hinv.2.2⟩)
    (show I 0 0 images from ⟨rfl, fun _ _ _ _ hbefore => by omega, fun _ _ => rfl⟩)
  exact ⟨s.linear, hloop.trans (by rw [← htiled]),
    fun x hx y hy => hdone x hx y hy (.inl hy), hframe⟩

end OnTile

end Codec

end GbaStation.Rasterizer
