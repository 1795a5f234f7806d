import GbaStation.Rasterizer.Geometry
import GbaStation.Rasterizer.Surface
import GbaStation.Rasterizer.TextureDecode

/-!
# Fills as clears (`rasterizer_cache/surface_base.cpp`)

A surface of a fill validates another surface by a clear with one value, if its bytes repeat as
pixels of the format.

- `standsFor_iff`: the pixels in memory have the value that `makeClearValue` computes, unless the
  format is one whose texels come in blocks, which are larger than the buffer that is read.
-/

namespace GbaStation.Rasterizer

/-- `ClearValue`. A quotient of two integers stands for its numerator and denominator. -/
inductive ClearValue where
  | color (value : Vec4)
  | depth (value scale : UInt32)
  | depthStencil (value scale : UInt32) (stencil : UInt8)
deriving DecidableEq, Repr

namespace Surface

/-- `MakeFillBuffer`. -/
def makeFillBuffer (s : Surface) (copyAddr : UInt32) : List UInt8 :=
  let fillOffset := (copyAddr - s.addr).toNat % s.fillSize
  (List.range 4).map fun i => s.fillData.getD ((fillOffset + i) % s.fillSize) 0

/-- `MakeClearValue`. -/
def makeClearValue (s : Surface) (copyAddr : UInt32) (dstFormat : PixelFormat) :
    Except MemoryFault ClearValue :=
  let fillBuffer := Source.ofBuffer (s.makeFillBuffer copyAddr)
  match getFormatType dstFormat with
  | .ok .color | .ok .texture | .ok .fill => return .color (← lookupTexture fillBuffer 0 0 dstFormat 0)
  | .ok .depth =>
    if dstFormat = .d16 then return .depth (makeInt (← fillBuffer 0 2)) 65535
    else if dstFormat = .d24 then return .depth (makeInt (← fillBuffer 0 3)) 16777215
    else return .depth 0 1
  | .ok .depthStencil => do
    let clearValue := makeInt (← fillBuffer 0 4)
    return .depthStencil (clearValue &&& 0xFFFFFF) 16777215 (clearValue >>> 24).toUInt8
  | .ok .invalid | .error _ => .error .assertion

/-- A fill with a value of two, three or four bytes. -/
structure IsPattern (s : Surface) : Prop where
  length : s.fillData.length = 4
  two_le : 2 ≤ s.fillSize
  le_four : s.fillSize ≤ 4

/-- The byte of the pattern at so many bytes from the start. -/
def fillByte (s : Surface) (offset : Nat) : UInt8 := s.fillData.getD (offset % s.fillSize) 0

/-- Memory has the pattern in the range of the fill. -/
def FilledIn (s : Surface) (mem : GuestMemory) : Prop :=
  ∀ a, s.addr.toNat ≤ a → a < s.endAddr.toNat → mem a = s.fillByte (a - s.addr.toNat)

end Surface

/-! ## Texels in memory -/

open Color

/-- The bytes of one texel, or those that it shares. -/
def texelBytes (format : PixelFormat) : Nat := max ((getFormatBpp format).toNat / 8) 1

/-- The value of a texel of the tile at an address. -/
def texelValue (mem : GuestMemory) (tile x y : Nat) (format : PixelFormat) :
    Except MemoryFault ClearValue :=
  let source := Source.ofMemory mem tile
  match format with
  | .d16 => return .depth (decodeD16 (← source (mortonInterleave x y * 2) 2)) 65535
  | .d24 => return .depth (decodeD24 (← source (mortonInterleave x y * 3) 3)) 16777215
  | .d24s8 => do
    let (depth, stencil) := decodeD24S8 (← source (mortonInterleave x y * 4) 4)
    return .depthStencil depth 16777215 stencil
  | _ => return .color (← lookupTexelInTile source x y format)

/-- The texels of a rectangle, where `DecodeTexture` finds them: those of the tiles from the start
of the rectangle on, or pixel after pixel where it is linear. -/
def SurfaceParams.IsTexel (rect : SurfaceParams) (tile x y : Nat) : Prop :=
  let bpp := (getFormatBpp rect.pixelFormat).toNat
  if rect.isTiled then
    x < 8 ∧ y < 8 ∧ ∃ k, tile = rect.addr.toNat + k * (8 * bpp) ∧
      tile + 8 * bpp ≤ rect.endAddr.toNat
  else
    -- two texels of four bits lie in one byte
    x * bpp < 8 * texelBytes rect.pixelFormat ∧ y = 0 ∧
      ∃ k, tile = rect.addr.toNat + k * texelBytes rect.pixelFormat ∧
        tile + texelBytes rect.pixelFormat ≤ rect.endAddr.toNat

namespace Surface

/-- A clear of the interval with the value of the fill leaves what memory has: all texels of the
interval have that value. -/
def StandsFor (s : Surface) (dest : SurfaceParams) (interval : Interval) : Prop :=
  ∃ value, s.makeClearValue (first interval) dest.pixelFormat = .ok value ∧
    ∀ rect, dest.fromInterval interval = .ok rect → ∀ mem, s.FilledIn mem →
      ∀ tile x y, rect.IsTexel tile x y → texelValue mem tile x y dest.pixelFormat = .ok value

end Surface

/-! ## Repetitions -/

section Repetitions

variable {s : Surface} {format : PixelFormat}

/-- The bytes of the fill repeat after so many bytes. -/
def Surface.Repeats (s : Surface) (bytes : Nat) : Prop :=
  ∀ offset, s.fillByte (offset + bytes) = s.fillByte offset

theorem getElem?_flatten_replicate (bytes : List UInt8) :
    ∀ {n k : Nat}, k < n * bytes.length →
      (List.replicate n bytes).flatten[k]? = bytes[k % bytes.length]? := by
  intro n
  induction n with
  | zero => omega
  | succ n ih =>
    intro k hk
    rw [List.replicate_succ, List.flatten_cons, List.getElem?_append]
    rw [Nat.succ_mul] at hk
    split_ifs with hlt
    · rw [Nat.mod_eq_of_lt hlt]
    · rw [ih (by omega), ← Nat.mod_eq_sub_mod (by omega)]

theorem Surface.Repeats.mul {bytes : Nat} (h : s.Repeats bytes) (offset k : Nat) :
    s.fillByte (offset + k * bytes) = s.fillByte offset := by
  induction k with
  | zero => rw [Nat.zero_mul, Nat.add_zero]
  | succ k ih => rw [Nat.succ_mul, ← Nat.add_assoc, h, ih]

/-- Chunks that all are the first one repeat. -/
theorem repeats_of_chunks {bytes : Nat} (hbytes : 0 < bytes) (hsize : 0 < s.fillSize)
    (h : ∀ i, i < s.fillSize → ∀ r, r < bytes →
      s.fillByte (bytes * i + r) = s.fillByte r) : s.Repeats bytes := by
  have hfirst : ∀ offset, s.fillByte offset = s.fillByte (offset % bytes) := by
    intro offset
    -- the index of a chunk counts up to the size of the pattern only
    have hperiod : s.fillByte offset =
        s.fillByte (bytes * (offset / bytes % s.fillSize) + offset % bytes) := by
      unfold Surface.fillByte
      have hmod : offset % s.fillSize =
          (bytes * (offset / bytes % s.fillSize) + offset % bytes) % s.fillSize := by
        conv_lhs => rw [← Nat.div_add_mod offset bytes]
        rw [Nat.add_mod, Nat.mul_mod, Nat.add_mod (bytes * _), Nat.mul_mod bytes, Nat.mod_mod]
      rw [hmod]
    rw [hperiod, h _ (Nat.mod_lt _ hsize) _ (Nat.mod_lt _ hbytes)]
  intro offset
  rw [hfirst (offset + bytes), Nat.add_mod_right, ← hfirst]

/-- What the test of the bytes says. -/
theorem repeats_of_fillRepeats (hpattern : s.IsPattern)
    (h : s.fillRepeats format = true) : s.Repeats (texelBytes format) ∧
      ((getFormatBpp format).toNat = 4 → s.fillByte 0 % 16 = s.fillByte 0 / 16) := by
  have htwo := hpattern.two_le
  rw [Surface.fillRepeats] at h
  rw [← texelBytes] at h
  split_ifs at h with hsize
  · obtain ⟨hsame, hnibbles⟩ := (Bool.and_eq_true _ _).mp h
    have hlength : (s.fillData.take s.fillSize).length = s.fillSize :=
      List.length_take_of_le (hpattern.length ▸ hpattern.le_four)
    have htest : ∀ k, k < texelBytes format * s.fillSize →
        (List.replicate (texelBytes format) (s.fillData.take s.fillSize)).flatten[k]? =
          some (s.fillByte k) := by
      intro k hk
      have hmod := Nat.mod_lt k (show 0 < s.fillSize by omega)
      have hfour := hpattern.le_four
      rw [getElem?_flatten_replicate _ (by rwa [hlength]), hlength, List.getElem?_take_of_lt hmod,
        Surface.fillByte, List.getD_eq_getElem?_getD,
        List.getElem?_eq_getElem (by rw [hpattern.length]; omega), Option.getD_some]
    have hbytes : 0 < texelBytes format := Nat.lt_of_lt_of_le Nat.one_pos (Nat.le_max_right _ _)
    have hone : texelBytes format ≤ texelBytes format * s.fillSize :=
      Nat.le_mul_of_pos_right _ (by omega)
    refine ⟨repeats_of_chunks hbytes (by omega) fun i hi r hr => ?_, fun hfour => ?_⟩
    · have hchunk := of_decide_eq_true (List.all_eq_true.mp hsame i (List.mem_range.mpr hi))
      have hle := Nat.mul_le_mul_left (texelBytes format) (Nat.succ_le_of_lt hi)
      rw [Nat.mul_succ] at hle
      have hbyte := congrArg (fun bytes : List UInt8 => bytes[r]?) hchunk
      simp only [List.getElem?_take_of_lt hr, List.getElem?_drop] at hbyte
      rw [htest _ (by omega), htest _ (by omega)] at hbyte
      exact Option.some.inj hbyte
    · have hhead : (List.replicate (texelBytes format)
          (s.fillData.take s.fillSize)).flatten.headD 0 = s.fillByte 0 := by
        rw [List.headD_eq_head?_getD, List.head?_eq_getElem?, htest 0 (by omega), Option.getD_some]
      rw [hfour, hhead] at hnibbles
      simpa using hnibbles
  · have hwhole : texelBytes format = s.fillSize := by
      rw [not_not] at hsize
      unfold texelBytes
      omega
    refine ⟨fun offset => ?_, fun hfour => ?_⟩
    · rw [hwhole, Surface.fillByte, Nat.add_mod_right, ← Surface.fillByte]
    · omega

end Repetitions

/-! ## Values -/

section Values

variable {s : Surface} {dest rect : SurfaceParams} {interval : Interval} {format : PixelFormat}
  {mem : GuestMemory} {tile x y : Nat}

/-- The offset of a texel in its tile. -/
def texelOffset (format : PixelFormat) (mortonOffset : Nat) : Nat :=
  if getFormatBpp format = 4 then mortonOffset / 2 else mortonOffset * texelBytes format

/-- The value of a texel whose bytes are these. -/
def pixelValue (format : PixelFormat) (mortonOffset : Nat) (bytes : List UInt8) : ClearValue :=
  match format with
  | .rgba8 => .color (decodeRGBA8 bytes)
  | .rgb8 => .color (decodeRGB8 bytes)
  | .rgb5a1 => .color (decodeRGB5A1 bytes)
  | .rgb565 => .color (decodeRGB565 bytes)
  | .rgba4 => .color (decodeRGBA4 bytes)
  | .ia8 => .color (decodeIA8 bytes)
  | .rg8 => .color (decodeRG8 bytes)
  | .i8 => .color (decodeI8 bytes)
  | .a8 => .color (decodeA8 bytes)
  | .ia4 => .color (decodeIA4 bytes)
  | .i4 => .color (decodeI8 [convert4To8 (nibbleOf (byteOf bytes 0) mortonOffset)])
  | .a4 => .color (decodeA8 [convert4To8 (nibbleOf (byteOf bytes 0) mortonOffset)])
  | .d16 => .depth (decodeD16 bytes) 65535
  | .d24 => .depth (decodeD24 bytes) 16777215
  | .d24s8 => .depthStencil (decodeD24S8 bytes).1 16777215 (decodeD24S8 bytes).2
  | .etc1 | .etc1a4 | .invalid => .color ⟨0, 0, 0, 0⟩

/-- The format is one of a surface, and its texels do not come in blocks. -/
def IsPixelFormat (format : PixelFormat) : Prop :=
  format ≠ .etc1 ∧ format ≠ .etc1a4 ∧ format ≠ .invalid

theorem texelValue_eq (hformat : IsPixelFormat format) (mem : GuestMemory) (tile x y : Nat) :
    texelValue mem tile x y format = .ok (pixelValue format (mortonInterleave x y)
      ((List.range (texelBytes format)).map fun i =>
        mem (tile + texelOffset format (mortonInterleave x y) + i))) := by
  obtain ⟨hetc1, hetc1a4, hinvalid⟩ := hformat
  cases format with
  | etc1 => exact absurd rfl hetc1
  | etc1a4 => exact absurd rfl hetc1a4
  | invalid => exact absurd rfl hinvalid
  | i8 =>
    have hoffset : texelOffset .i8 (mortonInterleave x y) = mortonInterleave x y := Nat.mul_one _
    rw [hoffset]
    rfl
  | a8 =>
    have hoffset : texelOffset .a8 (mortonInterleave x y) = mortonInterleave x y := Nat.mul_one _
    rw [hoffset]
    rfl
  | ia4 =>
    have hoffset : texelOffset .ia4 (mortonInterleave x y) = mortonInterleave x y := Nat.mul_one _
    rw [hoffset]
    rfl
  | _ => rfl

/-- The bytes that are copied to an integer are a depth. -/
theorem makeInt_eq_decodeD16 (a b : UInt8) : makeInt [a, b] = decodeD16 [a, b] := by
  have ha := a.toNat_lt
  have hb := b.toNat_lt
  have hvalue := toNat_makeInt [a, b] (Nat.le_of_ble_eq_true rfl)
  refine UInt32.toNat_inj.mp ?_
  show _ = ((makeInt [a, b]).toUInt16).toUInt32.toNat
  rw [UInt16.toNat_toUInt32, UInt32.toNat_toUInt16, Nat.mod_eq_of_lt]
  rw [hvalue]
  simp only [littleEndianNat, List.foldr_cons, List.foldr_nil]
  omega

theorem makeInt_eq_decodeD24 (a b c : UInt8) : makeInt [a, b, c] = decodeD24 [a, b, c] := by
  refine UInt32.toNat_inj.mp ?_
  rw [toNat_makeInt [a, b, c] (Nat.le_of_ble_eq_true rfl), toNat_decodeD24]
  rfl

theorem makeInt_eq_decodeD24S8 (a b c d : UInt8) :
    makeInt [a, b, c, d] &&& 0xFFFFFF = (decodeD24S8 [a, b, c, d]).1 ∧
      (makeInt [a, b, c, d] >>> 24).toUInt8 = (decodeD24S8 [a, b, c, d]).2 := by
  have ha := a.toNat_lt
  have hb := b.toNat_lt
  have hc := c.toNat_lt
  have hd := d.toNat_lt
  have hvalue : (makeInt [a, b, c, d]).toNat =
      a.toNat + 0x100 * (b.toNat + 0x100 * (c.toNat + 0x100 * d.toNat)) :=
    toNat_makeInt [a, b, c, d] (Nat.le_of_ble_eq_true rfl)
  have hlow := Nat.and_two_pow_sub_one_eq_mod (makeInt [a, b, c, d]).toNat 24
  constructor
  · refine UInt32.toNat_inj.mp ?_
    have hmask : (0xFFFFFF : UInt32).toNat = 2 ^ 24 - 1 := rfl
    rw [UInt32.toNat_and, hmask, hlow, hvalue, decodeD24S8, toNat_decodeD24]
    show _ = a.toNat + 0x100 * (b.toNat + 0x100 * c.toNat)
    omega
  · refine UInt8.toNat_inj.mp ?_
    rw [UInt32.toNat_toUInt8, UInt32.toNat_shiftRight, hvalue]
    show _ >>> 24 % 2 ^ 8 = d.toNat
    rw [Nat.shiftRight_eq_div_pow]
    omega

theorem makeClearValue_eq (hformat : IsPixelFormat format) (copyAddr : UInt32) :
    s.makeClearValue copyAddr format =
      .ok (pixelValue format 0 ((s.makeFillBuffer copyAddr).take (texelBytes format))) := by
  obtain ⟨hetc1, hetc1a4, hinvalid⟩ := hformat
  cases format with
  | etc1 => exact absurd rfl hetc1
  | etc1a4 => exact absurd rfl hetc1a4
  | invalid => exact absurd rfl hinvalid
  | d16 =>
    refine congrArg (fun value => Except.ok (ClearValue.depth value 65535)) ?_
    exact makeInt_eq_decodeD16 _ _
  | d24 =>
    refine congrArg (fun value => Except.ok (ClearValue.depth value 16777215)) ?_
    exact makeInt_eq_decodeD24 _ _ _
  | d24s8 =>
    obtain ⟨hdepth, hstencil⟩ := makeInt_eq_decodeD24S8
      (s.fillData.getD (((copyAddr - s.addr).toNat % s.fillSize + 0) % s.fillSize) 0)
      (s.fillData.getD (((copyAddr - s.addr).toNat % s.fillSize + 1) % s.fillSize) 0)
      (s.fillData.getD (((copyAddr - s.addr).toNat % s.fillSize + 2) % s.fillSize) 0)
      (s.fillData.getD (((copyAddr - s.addr).toNat % s.fillSize + 3) % s.fillSize) 0)
    exact congrArg Except.ok (congrArg₂ (ClearValue.depthStencil · 16777215 ·) hdepth hstencil)
  | _ => rfl

/-- A block is larger than the buffer. -/
theorem makeClearValue_block (hformat : format = .etc1 ∨ format = .etc1a4) (copyAddr : UInt32) :
    s.makeClearValue copyAddr format = .error .outside := by
  rcases hformat with rfl | rfl
  · rfl
  · rfl

/-- Both nibbles of a byte are the same. -/
theorem nibbleOf_eq {byte : UInt8} (h : byte % 16 = byte / 16) (k : Nat) :
    nibbleOf byte k = nibbleOf byte 0 := by
  have hbytes : ∀ b : Fin 256, UInt8.ofFin b % 16 = UInt8.ofFin b / 16 →
      (UInt8.ofFin b &&& 0xF0) >>> 4 = UInt8.ofFin b &&& 0xF := by decide +kernel
  have hsame : (byte &&& 0xF0) >>> 4 = byte &&& 0xF := hbytes byte.toFin h
  unfold nibbleOf
  rw [hsame, ite_self, ite_self]

/-- Where both nibbles of a byte are the same, it does not matter which one a texel is. -/
theorem pixelValue_eq {bytes : List UInt8}
    (h : (getFormatBpp format).toNat = 4 → byteOf bytes 0 % 16 = byteOf bytes 0 / 16) (k : Nat) :
    pixelValue format k bytes = pixelValue format 0 bytes := by
  cases format with
  | i4 => rw [pixelValue, pixelValue, nibbleOf_eq (h rfl) k]
  | a4 => rw [pixelValue, pixelValue, nibbleOf_eq (h rfl) k]
  | _ => rfl

end Values

/-! ## Clears -/

section Clears

variable {s : Surface} {dest rect : SurfaceParams} {interval : Interval} {format : PixelFormat}
  {mem : GuestMemory} {tile x y : Nat}

/-- What a surface that can fill an interval is known to be. -/
theorem of_canFill (h : s.canFill dest interval = .ok true) :
    s.addr ≤ first interval ∧ lastNext interval ≤ s.endAddr ∧
      s.fillRepeats dest.pixelFormat = true ∧ ∃ rect, dest.fromInterval interval = .ok rect ∧
        sameInterval rect.getInterval interval = true := by
  unfold Surface.canFill at h
  split_ifs at h with hrange
  · cases hrect : dest.fromInterval interval with
    | error e =>
      rw [hrect] at h
      cases h
    | ok rect =>
      rw [hrect] at h
      change (if sameInterval rect.getInterval interval = true then _ else _) = _ at h
      split_ifs at h with hsame
      · exact ⟨hrange.2.2.1, hrange.2.2.2, Except.ok.inj h, rect, rfl, hsame⟩
      · cases h
  · cases h

/-- A texel has whole bytes, or half of one. -/
theorem IsPixelFormat.bpp (hformat : IsPixelFormat format) :
    getFormatBpp format = 4 ∧ (getFormatBpp format).toNat = 4 ∧ texelBytes format = 1 ∨
      getFormatBpp format ≠ 4 ∧ (getFormatBpp format).toNat = 8 * texelBytes format ∧
        texelBytes format ≤ 4 := by
  obtain ⟨hetc1, hetc1a4, hinvalid⟩ := hformat
  cases format with
  | etc1 => exact absurd rfl hetc1
  | etc1a4 => exact absurd rfl hetc1a4
  | invalid => exact absurd rfl hinvalid
  | _ => decide

/-- A texel begins at a whole number of texels from the start of its rectangle, and ends in it. -/
theorem SurfaceParams.IsTexel.offset (htexel : rect.IsTexel tile x y)
    (hformat : IsPixelFormat rect.pixelFormat) :
    ∃ j, tile + texelOffset rect.pixelFormat (mortonInterleave x y) =
        rect.addr.toNat + j * texelBytes rect.pixelFormat ∧
      tile + texelOffset rect.pixelFormat (mortonInterleave x y) +
        texelBytes rect.pixelFormat ≤ rect.endAddr.toNat := by
  have hmorton := mortonInterleave_lt x y
  unfold IsTexel at htexel
  unfold texelOffset
  rcases hformat.bpp with ⟨hfour, hbpp, hbytes⟩ | ⟨hfour, hbpp, -⟩
  · rw [if_pos hfour, hbytes]
    rw [hbpp, hbytes] at htexel
    split_ifs at htexel
    · obtain ⟨-, -, k, rfl, hend⟩ := htexel
      exact ⟨k * 32 + mortonInterleave x y / 2, by omega, by omega⟩
    · obtain ⟨hx, rfl, k, rfl, hend⟩ := htexel
      have hzero : mortonInterleave x 0 / 2 = 0 := by
        obtain rfl | rfl : x = 0 ∨ x = 1 := by omega
        · rfl
        · rfl
      exact ⟨k, by omega, by omega⟩
  · rw [if_neg hfour]
    rw [hbpp] at htexel
    split_ifs at htexel
    · obtain ⟨-, -, k, rfl, hend⟩ := htexel
      have hlast := Nat.mul_le_mul_right (texelBytes rect.pixelFormat) (Nat.succ_le_of_lt hmorton)
      rw [Nat.succ_mul] at hlast
      refine ⟨k * 64 + mortonInterleave x y, ?_, by omega⟩
      rw [Nat.add_mul, Nat.mul_assoc k, ← Nat.mul_assoc 8 8, Nat.add_assoc]
    · obtain ⟨hx, rfl, k, rfl, hend⟩ := htexel
      obtain rfl : x = 0 := by
        by_contra hne
        have hle := Nat.le_mul_of_pos_left (8 * texelBytes rect.pixelFormat)
          (Nat.pos_of_ne_zero hne)
        omega
      have hzero : mortonInterleave 0 0 = 0 := rfl
      rw [hzero, Nat.zero_mul]
      exact ⟨k, rfl, hend⟩

/-- The bytes of a texel in memory are the first ones of the buffer. -/
theorem texelBytes_eq (hrepeats : s.Repeats (texelBytes format)) (hfilled : s.FilledIn mem)
    {address j : Nat} {copyAddr : UInt32} (hcopy : s.addr.toNat ≤ copyAddr.toNat)
    (haddress : address = copyAddr.toNat + j * texelBytes format)
    (hend : address + texelBytes format ≤ s.endAddr.toNat) (hbytes : texelBytes format ≤ 4) :
    (List.range (texelBytes format)).map (fun i => mem (address + i)) =
      (s.makeFillBuffer copyAddr).take (texelBytes format) := by
  have hphase : (copyAddr - s.addr).toNat = copyAddr.toNat - s.addr.toNat :=
    UInt32.toNat_sub_of_le _ _ (UInt32.le_iff_toNat_le.mpr hcopy)
  rw [Surface.makeFillBuffer, ← List.map_take, List.take_range, Nat.min_eq_left hbytes]
  refine List.map_congr_left fun i hi => ?_
  have hlt := List.mem_range.mp hi
  have hoffset : address + i - s.addr.toNat =
      copyAddr.toNat - s.addr.toNat + i + j * texelBytes format := by omega
  rw [hfilled _ (by omega) (by omega), hoffset, hrepeats.mul, Surface.fillByte, hphase,
    Nat.mod_add_mod]

/-- A surface that can fill an interval stands for its pixels, unless they come in blocks. -/
theorem standsFor_iff (s : Surface) (dest : SurfaceParams) (interval : Interval)
    (hpattern : s.IsPattern) (h : s.canFill dest interval = .ok true) :
    s.StandsFor dest interval ↔ dest.pixelFormat ≠ .etc1 ∧ dest.pixelFormat ≠ .etc1a4 := by
  obtain ⟨hlower, hupper, hfills, rect, hrect, hsame⟩ := of_canFill h
  obtain ⟨hinvalid, hpixel, -⟩ := SurfaceParams.of_fromInterval hrect
  constructor
  · rintro ⟨value, hvalue, -⟩
    refine ⟨fun hetc1 => ?_, fun hetc1a4 => ?_⟩
    · rw [makeClearValue_block (.inl hetc1)] at hvalue
      cases hvalue
    · rw [makeClearValue_block (.inr hetc1a4)] at hvalue
      cases hvalue
  · rintro ⟨hetc1, hetc1a4⟩
    have hformat : IsPixelFormat dest.pixelFormat := ⟨hetc1, hetc1a4, hinvalid⟩
    obtain ⟨hrepeats, hnibbles⟩ := repeats_of_fillRepeats hpattern hfills
    refine ⟨_, makeClearValue_eq hformat _, fun rect' hrect' mem hfilled tile x y htexel => ?_⟩
    obtain rfl := Except.ok.inj (hrect.symm.trans hrect')
    obtain ⟨j, hoffset, hend⟩ := htexel.offset (hpixel ▸ hformat)
    rw [hpixel] at hoffset hend
    have hbytes : 0 < texelBytes dest.pixelFormat ∧ texelBytes dest.pixelFormat ≤ 4 := by
      rcases hformat.bpp with ⟨-, -, hone⟩ | ⟨-, -, hle⟩
      · omega
      · exact ⟨Nat.lt_of_lt_of_le Nat.one_pos (Nat.le_max_right _ _), hle⟩
    have hinterval : interval = rect.getInterval := by
      rcases of_decide_eq_true hsame with ⟨hempty, -⟩ | heq
      · rw [SurfaceParams.getInterval, lower_span, upper_span] at hempty
        omega
      · exact heq.symm
    have hfirst : first interval = rect.addr := by
      rw [hinterval]
      exact UInt32.ofNat_toNat
    have hlast : lastNext interval = rect.endAddr := by
      rw [hinterval]
      exact UInt32.ofNat_toNat
    rw [hfirst, UInt32.le_iff_toNat_le] at hlower
    rw [hlast, UInt32.le_iff_toNat_le] at hupper
    have hpixels := texelBytes_eq hrepeats hfilled hlower hoffset (by omega) hbytes.2
    rw [texelValue_eq hformat, hpixels, hfirst]
    refine congrArg Except.ok (pixelValue_eq (fun hfour => ?_) _)
    have hone : texelBytes dest.pixelFormat = 1 := by
      rw [texelBytes, hfour]
      rfl
    have hbyte : byteOf ((s.makeFillBuffer rect.addr).take (texelBytes dest.pixelFormat)) 0 =
        s.fillByte (0 + (rect.addr - s.addr).toNat * texelBytes dest.pixelFormat) := by
      rw [hone, Nat.mul_one, Nat.zero_add, Surface.fillByte, ← Nat.mod_mod]
      rfl
    rw [hbyte, hrepeats.mul]
    exact hnibbles hfour

/-- A fill of VRAM with a value of two bytes. -/
def vramFill (fillData : List UInt8) : Surface where
  addr := 0x18000000
  endAddr := 0x18000100
  size := 0x100
  type := .fill
  fillSize := 2
  fillData := fillData

/-- A texture of 8x8 texels in VRAM. -/
def vramTexture (format : PixelFormat) (size : UInt32) : SurfaceParams where
  addr := 0x18000000
  endAddr := 0x18000000 + size
  size := size
  width := 8
  height := 8
  stride := 8
  isTiled := true
  pixelFormat := format
  mipmapOffsets := 0x18000000 :: List.replicate 7 0

theorem standsFor_iff_vram : (vramFill [0xAB, 0xCD, 0, 0]).StandsFor (vramTexture .rgb565 0x80)
    ⟨0x18000000, 0x18000080⟩ :=
  (standsFor_iff (vramFill [0xAB, 0xCD, 0, 0]) (vramTexture .rgb565 0x80) ⟨0x18000000, 0x18000080⟩
    ⟨rfl, by decide, by decide⟩ (by decide)).mpr ⟨nofun, nofun⟩

/-- A fill with zeros can fill a texture of blocks, but four bytes are no block. -/
theorem not_standsFor :
    (vramFill [0, 0, 0, 0]).canFill (vramTexture .etc1 0x20) ⟨0x18000000, 0x18000020⟩ = .ok true ∧
      ¬(vramFill [0, 0, 0, 0]).StandsFor (vramTexture .etc1 0x20) ⟨0x18000000, 0x18000020⟩ := by
  refine ⟨by decide, ?_⟩
  rintro ⟨value, hvalue, -⟩
  have hblock := makeClearValue_block (s := vramFill [0, 0, 0, 0]) (.inl rfl) 0x18000000
  cases hvalue.symm.trans hblock

end Clears

end GbaStation.Rasterizer
