import GbaStation.Rasterizer.TextureDecode

/-!
# Codecs of pixels (`rasterizer_cache/texture_codec.h`)

How the pixels of a format are converted to those of the host and back: `DecodePixel` and
`EncodePixel`, and `DecodePixel4` and `EncodePixel4` for pixels of four bits.

- A `Codec` is the format with the flag `converted`, the parameters of the templates. The conversion
  of a depth of 24 bits to floating point is not modelled.
-/

namespace GbaStation.Rasterizer

open Color
open UInt8 (ofFin)

/-! ## Colors that lose nothing -/

theorem averageRgbComponents_same (value a : UInt8) :
    averageRgbComponents ⟨value, value, value, a⟩ = value := by
  have hvalue := value.toNat_lt
  refine UInt8.toNat_inj.mp ?_
  rw [averageRgbComponents, UInt32.toNat_toUInt8, UInt32.toNat_div, UInt32.toNat_add,
    UInt32.toNat_add, UInt8.toNat_toUInt32]
  show ((value.toNat + value.toNat) % 2 ^ 32 + value.toNat) % 2 ^ 32 / 3 % 2 ^ 8 = value.toNat
  have hfirst : (value.toNat + value.toNat) % 2 ^ 32 = 2 * value.toNat := by omega
  have hsum : (2 * value.toNat + value.toNat) % 2 ^ 32 = 3 * value.toNat := by omega
  rw [hfirst, hsum]
  omega

/-- What a conversion to eight bits and back keeps. -/
theorem convert_same (value : UInt8) :
    (value.toNat < 16 → convert8To4 (convert4To8 value) = value) ∧
      (value.toNat < 32 → convert8To5 (convert5To8 value) = value) ∧
      (value.toNat < 64 → convert8To6 (convert6To8 value) = value) ∧
      (value.toNat < 2 → convert8To1 (convert1To8 value) = value) := by
  have hall : ∀ v : Fin 256, ((ofFin v).toNat < 16 →
        convert8To4 (convert4To8 (ofFin v)) = ofFin v) ∧
      ((ofFin v).toNat < 32 →
        convert8To5 (convert5To8 (ofFin v)) = ofFin v) ∧
      ((ofFin v).toNat < 64 →
        convert8To6 (convert6To8 (ofFin v)) = ofFin v) ∧
      ((ofFin v).toNat < 2 →
        convert8To1 (convert1To8 (ofFin v)) = ofFin v) := by
    decide +kernel
  exact hall value.toFin

/-- Both halves of a byte. -/
theorem convert_halves (value : UInt8) :
    convert8To4 (convert4To8 ((value &&& 0xF0) >>> 4)) <<< 4 |||
      convert8To4 (convert4To8 (value &&& 0x0F)) = value := by
  have hall : ∀ v : Fin 256,
      convert8To4 (convert4To8 ((ofFin v &&& 0xF0) >>> 4)) <<< 4 |||
        convert8To4 (convert4To8 (ofFin v &&& 0x0F)) = ofFin v := by
    decide +kernel
  exact hall value.toFin

/-- A field of a pixel. -/
theorem toNat_field {pixel shift mask : UInt16} (bits : Nat) (hmask : mask.toNat = 2 ^ bits - 1)
    (hshift : shift.toNat < 16) (hbits : bits ≤ 8) :
    (pixel >>> shift &&& mask).toUInt8.toNat = pixel.toNat / 2 ^ shift.toNat % 2 ^ bits := by
  have hpow : 2 ^ bits ≤ 2 ^ 8 := Nat.pow_le_pow_right (by decide) hbits
  have hlt := Nat.mod_lt (pixel.toNat / 2 ^ shift.toNat) (Nat.two_pow_pos bits)
  rw [UInt16.toNat_toUInt8, UInt16.toNat_and, UInt16.toNat_shiftRight, Nat.mod_eq_of_lt hshift,
    Nat.shiftRight_eq_div_pow, hmask, Nat.and_two_pow_sub_one_eq_mod]
  exact Nat.mod_eq_of_lt (Nat.lt_of_lt_of_le hlt hpow)

theorem toNat_makeInt16 {bytes : List UInt8} (h : bytes.length = 2) :
    (makeInt16 bytes).toNat = littleEndianNat bytes := by
  have hlt := littleEndianNat_lt bytes
  rw [h] at hlt
  rw [makeInt16, List.take_of_length_le (Nat.le_of_eq h), UInt32.toNat_toUInt16,
    toNat_makeInt bytes (by rw [h]; decide)]
  exact Nat.mod_eq_of_lt hlt

/-- A field that is put behind those in front of it. -/
theorem toNat_join {pixel shift mask : UInt16} {high place : UInt32} (bits : Nat)
    (hmask : mask.toNat = 2 ^ bits - 1) (hbits : bits ≤ 8) (hshift : shift.toNat < 16)
    (hplace : place.toNat = shift.toNat)
    (hhigh : high.toNat = pixel.toNat / 2 ^ (shift.toNat + bits) * 2 ^ (shift.toNat + bits)) :
    (high ||| (pixel >>> shift &&& mask).toUInt8.toUInt32 <<< place).toNat =
      pixel.toNat / 2 ^ shift.toNat * 2 ^ shift.toNat := by
  have hfield := @toNat_field pixel _ _ bits hmask hshift hbits
  have hword := @toNat_toUInt32_shiftLeft (pixel >>> shift &&& mask).toUInt8 place (by omega)
  rw [hplace, hfield] at hword
  have hlow : 2 ^ shift.toNat * (pixel.toNat / 2 ^ shift.toNat % 2 ^ bits) <
      2 ^ (shift.toNat + bits) := by
    rw [Nat.pow_add]
    exact Nat.mul_lt_mul_of_pos_left (Nat.mod_lt _ (Nat.two_pow_pos bits)) (Nat.two_pow_pos _)
  rw [toNat_or_of_dvd (shift.toNat + bits) (hhigh ▸ Nat.dvd_mul_left _ _) (hword ▸ hlow), hhigh,
    hword, Nat.pow_add, ← Nat.div_div_eq_div_mul, Nat.mul_comm (2 ^ shift.toNat) (2 ^ bits),
    ← Nat.mul_assoc, Nat.mul_comm (2 ^ shift.toNat), ← Nat.add_mul, Nat.div_add_mod']

/-- The fields in front of the lowest one, and it, are the pixel. -/
theorem intBytes_join {bytes : List UInt8} {high : UInt32} {mask : UInt16} (h : bytes.length = 2)
    (bits : Nat) (hmask : mask.toNat = 2 ^ bits - 1) (hbits : bits ≤ 8)
    (hhigh : high.toNat = (makeInt16 bytes).toNat / 2 ^ bits * 2 ^ bits) :
    intBytes (high ||| (makeInt16 bytes &&& mask).toUInt8.toUInt32) 2 = bytes := by
  have hjoin := @toNat_join (makeInt16 bytes) 0 mask high 0 bits hmask hbits (by decide) rfl
    (by simpa using hhigh)
  rw [UInt16.shiftRight_zero, UInt32.shiftLeft_zero] at hjoin
  have hbytes := intBytes_eq (by rw [h]; decide) (hjoin.trans (by simpa using toNat_makeInt16 h))
  rwa [h] at hbytes

/-- The highest field of a pixel. -/
theorem toNat_highest {pixel shift mask : UInt16} {place : UInt32} (bits : Nat)
    (hmask : mask.toNat = 2 ^ bits - 1) (hbits : bits ≤ 8) (hplace : place.toNat = shift.toNat)
    (hshift : shift.toNat + bits = 16) (hlt : shift.toNat < 16) :
    ((pixel >>> shift &&& mask).toUInt8.toUInt32 <<< place).toNat =
      pixel.toNat / 2 ^ shift.toNat * 2 ^ shift.toNat := by
  have hjoin := @toNat_join pixel _ _ 0 _ bits hmask hbits hlt hplace (by
    rw [hshift, Nat.div_eq_of_lt pixel.toNat_lt]
    rfl)
  rwa [UInt32.zero_or] at hjoin

theorem toNat_masked_lt {value mask : UInt16} {bound : Nat} (h : mask.toNat < bound) :
    (value &&& mask).toUInt8.toNat < bound := by
  rw [UInt16.toNat_toUInt8, UInt16.toNat_and]
  exact Nat.lt_of_le_of_lt ((Nat.mod_le _ _).trans Nat.and_le_right) h

theorem convert4_masked (value : UInt16) :
    convert8To4 (convert4To8 (value &&& 0xF).toUInt8) = (value &&& 0xF).toUInt8 :=
  (convert_same _).1 (toNat_masked_lt (by decide))

theorem convert5_masked (value : UInt16) :
    convert8To5 (convert5To8 (value &&& 0x1F).toUInt8) = (value &&& 0x1F).toUInt8 :=
  (convert_same _).2.1 (toNat_masked_lt (by decide))

theorem encodeRGB565_decodeRGB565 {bytes : List UInt8} (h : bytes.length = 2) :
    encodeRGB565 (decodeRGB565 bytes) = bytes := by
  simp only [encodeRGB565, decodeRGB565, convert5_masked]
  rw [(convert_same _).2.2.1 (toNat_masked_lt (by decide))]
  refine intBytes_join h 5 rfl (by decide) ?_
  exact toNat_join 6 rfl (by decide) (by decide) rfl
    (toNat_highest 5 rfl (by decide) rfl rfl (by decide))

theorem encodeRGB5A1_decodeRGB5A1 {bytes : List UInt8} (h : bytes.length = 2) :
    encodeRGB5A1 (decodeRGB5A1 bytes) = bytes := by
  simp only [encodeRGB5A1, decodeRGB5A1, convert5_masked]
  rw [(convert_same _).2.2.2 (toNat_masked_lt (by decide))]
  refine intBytes_join h 1 rfl (by decide) ?_
  refine toNat_join 5 rfl (by decide) (by decide) rfl ?_
  exact toNat_join 5 rfl (by decide) (by decide) rfl
    (toNat_highest 5 rfl (by decide) rfl rfl (by decide))

theorem encodeRGBA4_decodeRGBA4 {bytes : List UInt8} (h : bytes.length = 2) :
    encodeRGBA4 (decodeRGBA4 bytes) = bytes := by
  simp only [encodeRGBA4, decodeRGBA4, convert4_masked]
  refine intBytes_join h 4 rfl (by decide) ?_
  refine toNat_join 4 rfl (by decide) (by decide) rfl ?_
  exact toNat_join 4 rfl (by decide) (by decide) rfl
    (toNat_highest 4 rfl (by decide) rfl rfl (by decide))

/-- `std::rotl` by eight bits. -/
def rotl8 (value : UInt32) : UInt32 := value <<< 8 ||| value >>> 24

/-- `std::rotr` by eight bits. -/
def rotr8 (value : UInt32) : UInt32 := value >>> 8 ||| value <<< 24

theorem rotr8_rotl8 (value : UInt32) : rotr8 (rotl8 value) = value := by
  have hvalue := value.toNat_lt
  have hleft : (rotl8 value).toNat = value.toNat * 2 ^ 8 % 2 ^ 32 + value.toNat / 2 ^ 24 := by
    have hhigh : (value <<< 8).toNat = value.toNat * 2 ^ 8 % 2 ^ 32 := by
      rw [UInt32.toNat_shiftLeft, Nat.shiftLeft_eq]
      rfl
    have hlow : (value >>> 24).toNat = value.toNat / 2 ^ 24 := by
      rw [UInt32.toNat_shiftRight, Nat.shiftRight_eq_div_pow]
      rfl
    rw [rotl8, toNat_or_of_dvd 8 (by omega) (by omega), hhigh, hlow]
  have hhigh : (rotl8 value <<< 24).toNat = (rotl8 value).toNat * 2 ^ 24 % 2 ^ 32 := by
    rw [UInt32.toNat_shiftLeft, Nat.shiftLeft_eq]
    rfl
  have hlow : (rotl8 value >>> 8).toNat = (rotl8 value).toNat / 2 ^ 8 := by
    rw [UInt32.toNat_shiftRight, Nat.shiftRight_eq_div_pow]
    rfl
  refine UInt32.toNat_inj.mp ?_
  rw [rotr8, UInt32.or_comm, toNat_or_of_dvd 24 (by omega) (by omega), hhigh, hlow, hleft]
  have hrest : value.toNat * 2 ^ 8 % 2 ^ 32 = 2 ^ 8 * (value.toNat % 2 ^ 24) := by omega
  have hparts := Nat.div_add_mod value.toNat (2 ^ 24)
  have hdiv : value.toNat / 2 ^ 24 < 2 ^ 8 := by omega
  rw [hrest]
  generalize value.toNat % 2 ^ 24 = low at *
  generalize value.toNat / 2 ^ 24 = high at *
  have hback : (2 ^ 8 * low + high) * 2 ^ 24 % 2 ^ 32 = 2 ^ 24 * high := by
    have hshape : (2 ^ 8 * low + high) * 2 ^ 24 = 2 ^ 24 * high + 2 ^ 32 * low := by omega
    rw [hshape, Nat.add_mul_mod_self_left]
    exact Nat.mod_eq_of_lt (by omega)
  have hdown : (2 ^ 8 * low + high) / 2 ^ 8 = low := by omega
  rw [hback, hdown, hparts]

/-! ## Codecs -/

/-- `GetFormatBytesPerPixel`: the bytes of a pixel on the host. -/
def getFormatBytesPerPixel : PixelFormat → Nat
  | .rgba8 | .ia8 | .rg8 | .i8 | .a8 | .ia4 | .i4 | .a4 | .etc1 | .etc1a4 | .d24 | .d24s8 => 4
  | .rgb8 => 3
  | .rgb5a1 | .rgb565 | .rgba4 | .d16 => 2
  | .invalid => 0

namespace Vec4

/-- `AsArray`. -/
def bytes (color : Vec4) : List UInt8 := [color.r, color.g, color.b, color.a]

/-- `memcpy` to `AsArray`. -/
def ofBytes (bytes : List UInt8) : Vec4 :=
  ⟨byteOf bytes 0, byteOf bytes 1, byteOf bytes 2, byteOf bytes 3⟩

end Vec4

/-- A format, and whether its pixels are converted to those of the host. A depth that is converted
to floating point is none. -/
structure Codec where
  format : PixelFormat
  converted : Bool := false
  integral : ¬(format = .d24 ∧ converted = true) := by decide
deriving DecidableEq, Repr

/-- The bytes of an array of the host. -/
abbrev Buffer := Nat → UInt8

namespace Codec

variable (c : Codec)

def bpp : Nat := (getFormatBpp c.format).toNat

/-- `bytes_per_pixel`, which is zero for four bits. -/
def bytesPerPixel : Nat := c.bpp / 8

/-- `linear_bytes_per_pixel`, and `aligned_bytes_per_pixel`. -/
def linearBytesPerPixel : Nat := if c.converted then 4 else getFormatBytesPerPixel c.format

def tileSize : Nat := c.bpp * 64 / 8

def isCompressed : Bool := c.format == .etc1 || c.format == .etc1a4

def is4bit : Bool := c.format == .i4 || c.format == .a4

/-- `DecodePixel`: the bytes that are written. -/
def decodePixel (source : List UInt8) : List UInt8 :=
  match c.format, c.converted with
  | .rgba8, true => (decodeRGBA8 source).bytes
  | .rgb8, true => (decodeRGB8 source).bytes
  | .rgb565, true => (decodeRGB565 source).bytes
  | .rgb5a1, true => (decodeRGB5A1 source).bytes
  | .rgba4, true => (decodeRGBA4 source).bytes
  | .ia8, _ => (decodeIA8 source).bytes
  | .rg8, _ => (decodeRG8 source).bytes
  | .i8, _ => (decodeI8 source).bytes
  | .a8, _ => (decodeA8 source).bytes
  | .ia4, _ => (decodeIA4 source).bytes
  | .d24s8, _ => intBytes (rotl8 (makeInt (source.take 4))) 4
  | _, _ => source.take c.bytesPerPixel

/-- `EncodePixel`: the bytes that are written. -/
def encodePixel (source : List UInt8) : List UInt8 :=
  match c.format, c.converted with
  | .rgba8, true => encodeRGBA8 (Vec4.ofBytes source)
  | .rgb8, true => encodeRGB8 (Vec4.ofBytes source)
  | .rgb565, true => encodeRGB565 (Vec4.ofBytes source)
  | .rgb5a1, true => encodeRGB5A1 (Vec4.ofBytes source)
  | .rgba4, true => encodeRGBA4 (Vec4.ofBytes source)
  | .ia8, _ => encodeIA8 (Vec4.ofBytes source)
  | .rg8, _ => encodeRG8 (Vec4.ofBytes source)
  | .i8, _ => encodeI8 (Vec4.ofBytes source)
  | .a8, _ => encodeA8 (Vec4.ofBytes source)
  | .ia4, _ => encodeIA4 (Vec4.ofBytes source)
  | .d24s8, _ => intBytes (rotr8 (makeInt (source.take 4))) 4
  | _, _ => source.take c.bytesPerPixel

/-- The bytes of a pixel on the host that are read and written: four for a color, and those of the
format where they are copied. -/
def hostBytes : Nat :=
  match c.format, c.converted with
  | .rgba8, true | .rgb8, true | .rgb565, true | .rgb5a1, true | .rgba4, true | .d24s8, _
  | .ia8, _ | .rg8, _ | .i8, _ | .a8, _ | .ia4, _ | .i4, _ | .a4, _ | .etc1, _ | .etc1a4, _ => 4
  | _, _ => c.bytesPerPixel

/-- `DecodePixel4` of the half of a byte. -/
def decodeNibble (nibble : UInt8) : List UInt8 :=
  let pixel := convert4To8 nibble
  if c.format = .i4 then [pixel, pixel, pixel, 255] else [0, 0, 0, pixel]

/-- What `EncodePixel4` puts into the half of a byte. -/
def encodeNibble (source : List UInt8) : UInt8 :=
  let rgba := Vec4.ofBytes source
  convert8To4 (if c.format = .i4 then averageRgbComponents rgba else rgba.a)

/-- The byte that `EncodePixel4` writes. -/
def putNibble (value current : UInt8) (mortonOffset : Nat) : UInt8 :=
  if mortonOffset % 2 = 1 then value <<< 4 ||| (current &&& 0x0F) else (current &&& 0xF0) ||| value

/-- The format has routines for both directions, and nothing is lost: no blocks, and no depth that is
converted. -/
def IsExact : Prop :=
  (c.isCompressed = false ∧ c.format ≠ .invalid) ∧
    (c.converted = true → c.format ∈ [.rgba8, .rgb8, .rgb5a1, .rgb565, .rgba4])

instance : Decidable c.IsExact := inferInstanceAs (Decidable (_ ∧ _))

variable {c} {bytes : List UInt8}

theorem bytesPerPixel_eq : c.bytesPerPixel = match c.format with
    | .rgba8 | .d24s8 => 4
    | .rgb8 | .d24 => 3
    | .rgb5a1 | .rgb565 | .rgba4 | .ia8 | .rg8 | .d16 => 2
    | .i8 | .a8 | .ia4 | .etc1a4 => 1
    | .i4 | .a4 | .etc1 | .invalid => 0 := by
  obtain ⟨format, converted, hintegral⟩ := c
  cases format <;> decide +revert

/-- Pixels are whole bytes, or halves of them; a pixel of the host is not shorter. -/
theorem of_isExact (h : c.IsExact) :
    (c.is4bit = true ∧ c.bytesPerPixel = 0 ∧ c.tileSize = 32 ∨
        c.is4bit = false ∧ 0 < c.bytesPerPixel ∧ c.tileSize = 64 * c.bytesPerPixel) ∧
      c.tileSize = 8 * c.bpp ∧ 0 < c.bpp ∧ c.bpp ≤ 8 * c.linearBytesPerPixel ∧
      c.hostBytes ≤ c.linearBytesPerPixel ∧ c.linearBytesPerPixel ≤ 4 := by
  obtain ⟨format, converted, hintegral⟩ := c
  cases format <;> cases converted <;> first
    | (simp [IsExact, isCompressed] at h; done)
    | decide +revert

theorem length_intBytes (value : UInt32) (size : Nat) : (intBytes value size).length = size := by
  rw [intBytes, List.length_map, List.length_range]

theorem length_decodePixel (h : c.IsExact) (h4 : c.is4bit = false)
    (hlength : bytes.length = c.bytesPerPixel) : (c.decodePixel bytes).length = c.hostBytes := by
  obtain ⟨format, converted, hintegral⟩ := c
  cases format <;> cases converted <;> first
    | (simp [IsExact, isCompressed] at h; done)
    | (simp [is4bit] at h4; done)
    | rfl
    | exact length_intBytes _ 4
    | exact List.length_take_of_le (Nat.le_of_eq hlength.symm)

theorem length_encodePixel (h : c.IsExact) (h4 : c.is4bit = false)
    (hlength : bytes.length = c.hostBytes) : (c.encodePixel bytes).length = c.bytesPerPixel := by
  obtain ⟨format, converted, hintegral⟩ := c
  cases format <;> cases converted <;> first
    | (simp [IsExact, isCompressed] at h; done)
    | (simp [is4bit] at h4; done)
    | (rw [bytesPerPixel_eq]; rfl)
    | exact List.length_take_of_le (Nat.le_of_eq hlength.symm)

/-- The bytes of a pixel that are copied as they are. -/
theorem encode_copied (hlength : bytes.length = c.bytesPerPixel) :
    (bytes.take c.bytesPerPixel).take c.bytesPerPixel = bytes := by
  rw [← hlength, List.take_length, List.take_length]

theorem encodePixel_decodePixel (h : c.IsExact) (h4 : c.is4bit = false)
    (hlength : bytes.length = c.bytesPerPixel) : c.encodePixel (c.decodePixel bytes) = bytes := by
  have hwhole := hlength
  rw [bytesPerPixel_eq] at hwhole
  obtain ⟨format, converted, hintegral⟩ := c
  cases format <;> cases converted <;> try first
    | (simp [IsExact, isCompressed] at h; done)
    | (simp [is4bit] at h4; done)
    | exact encode_copied hlength
  case rgba8.true => match bytes, hwhole with | [_, _, _, _], _ => rfl
  case rgb8.true => match bytes, hwhole with | [_, _, _], _ => rfl
  case rgb5a1.true => exact encodeRGB5A1_decodeRGB5A1 hwhole
  case rgb565.true => exact encodeRGB565_decodeRGB565 hwhole
  case rgba4.true => exact encodeRGBA4_decodeRGBA4 hwhole
  case ia8.false =>
    match bytes, hwhole with
    | [a, i], _ => exact congrArg (fun byte => [a, byte]) (averageRgbComponents_same i a)
  case rg8.false => match bytes, hwhole with | [_, _], _ => rfl
  case i8.false =>
    match bytes, hwhole with
    | [i], _ => exact congrArg (fun byte => [byte]) (averageRgbComponents_same i 255)
  case a8.false => match bytes, hwhole with | [_], _ => rfl
  case ia4.false =>
    match bytes, hwhole with
    | [byte], _ =>
      show encodeIA4 (decodeIA4 [byte]) = [byte]
      rw [encodeIA4, decodeIA4, averageRgbComponents_same]
      exact congrArg (fun byte => [byte]) (convert_halves byte)
  case d24s8.false =>
    have hfour : bytes.length ≤ 4 := Nat.le_of_eq hwhole
    have hrotated (value : UInt32) : makeInt ((intBytes value 4).take 4) = value := by
      rw [List.take_of_length_le (Nat.le_of_eq (length_intBytes value 4))]
      exact makeInt_intBytes value
    show intBytes (rotr8 (makeInt ((intBytes (rotl8 (makeInt (bytes.take 4))) 4).take 4))) 4 = bytes
    rw [hrotated, rotr8_rotl8, List.take_of_length_le hfour]
    have hback := intBytes_makeInt hfour
    rwa [show bytes.length = 4 from hwhole] at hback

end Codec

end GbaStation.Rasterizer
