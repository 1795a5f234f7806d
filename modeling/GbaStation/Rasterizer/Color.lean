import Mathlib.Algebra.Group.Nat.Defs
import Mathlib.Data.List.Basic

/-!
# Pixels (`common/color.h`)

What the bytes of a pixel mean, and the bytes of a color. A decoder reads as many bytes as a pixel of
its format has; an encoder gives the bytes that it writes, the first of them at the pointer.
-/

namespace GbaStation.Rasterizer

/-- `Common::Vec4<u8>`. -/
structure Vec4 where
  r : UInt8
  g : UInt8
  b : UInt8
  a : UInt8
deriving DecidableEq, Repr

/-- A byte behind a pointer. -/
def byteOf (bytes : List UInt8) (i : Nat) : UInt8 := bytes.getD i 0

/-- `memcpy` to an integer that is zero before, from the first bytes. -/
def makeInt (bytes : List UInt8) : UInt32 :=
  bytes.foldr (fun byte word => word <<< 8 ||| byte.toUInt32) 0

/-- `memcpy` to a `u16`. -/
def makeInt16 (bytes : List UInt8) : UInt16 := (makeInt (bytes.take 2)).toUInt16

/-- `memcpy` from an integer. -/
def intBytes (value : UInt32) (size : Nat) : List UInt8 :=
  (List.range size).map fun i => (value >>> (8 * UInt32.ofNat i)).toUInt8

/-! ## Integers -/

/-- The value of bytes, the lowest first. -/
def littleEndianNat (bytes : List UInt8) : Nat :=
  bytes.foldr (fun byte value => byte.toNat + 0x100 * value) 0

theorem littleEndianNat_lt (bytes : List UInt8) : littleEndianNat bytes < 0x100 ^ bytes.length := by
  induction bytes with
  | nil => exact Nat.one_pos
  | cons byte bytes ih =>
    have hbyte := byte.toNat_lt
    rw [littleEndianNat, List.foldr_cons, ← littleEndianNat, List.length_cons, Nat.pow_succ]
    omega

/-- A byte behind a word that has room for it. -/
theorem toNat_shiftLeft_or {word : UInt32} {byte : UInt8} (h : word.toNat < 2 ^ 24) :
    (word <<< 8 ||| byte.toUInt32).toNat = byte.toNat + 0x100 * word.toNat := by
  have hshift : (word <<< 8).toNat = word.toNat <<< 8 := by
    rw [UInt32.toNat_shiftLeft]
    show word.toNat <<< 8 % 2 ^ 32 = _
    exact Nat.mod_eq_of_lt (by rw [Nat.shiftLeft_eq]; omega)
  rw [UInt32.toNat_or, hshift, UInt8.toNat_toUInt32,
    ← Nat.shiftLeft_add_eq_or_of_lt (i := 8) byte.toNat_lt, Nat.shiftLeft_eq, Nat.add_comm,
    Nat.mul_comm]

/-- No byte is lost that fits into the integer. -/
theorem toNat_makeInt (bytes : List UInt8) (h : bytes.length ≤ 4) :
    (makeInt bytes).toNat = littleEndianNat bytes := by
  induction bytes with
  | nil => rfl
  | cons byte bytes ih =>
    rw [List.length_cons] at h
    have hrest := littleEndianNat_lt bytes
    have hfit := Nat.lt_of_lt_of_le hrest (Nat.pow_le_pow_right (by decide) (Nat.le_of_succ_le_succ h))
    have hword := ih (Nat.le_of_succ_le h)
    show (makeInt bytes <<< 8 ||| byte.toUInt32).toNat = byte.toNat + 0x100 * littleEndianNat bytes
    rw [toNat_shiftLeft_or (hword.symm ▸ hfit), hword]

/-- The byte at an index. -/
theorem littleEndianNat_div (bytes : List UInt8) (i : Nat) :
    littleEndianNat bytes / 0x100 ^ i % 0x100 = (byteOf bytes i).toNat := by
  induction bytes generalizing i with
  | nil => simp [littleEndianNat, byteOf]
  | cons byte bytes ih =>
    have hbyte := byte.toNat_lt
    have hcons : littleEndianNat (byte :: bytes) = byte.toNat + 0x100 * littleEndianNat bytes := rfl
    cases i with
    | zero =>
      rw [hcons, Nat.pow_zero, Nat.div_one]
      show _ = byte.toNat
      omega
    | succ i =>
      have hdiv : (byte.toNat + 0x100 * littleEndianNat bytes) / 0x100 = littleEndianNat bytes := by
        omega
      rw [hcons, Nat.pow_succ', ← Nat.div_div_eq_div_mul, hdiv, ih]
      rfl

/-- The bytes of an integer. -/
theorem intBytes_eq {value : UInt32} {bytes : List UInt8} (hlength : bytes.length ≤ 4)
    (h : value.toNat = littleEndianNat bytes) : intBytes value bytes.length = bytes := by
  refine List.ext_getElem (by rw [intBytes, List.length_map, List.length_range]) fun i hi hi' => ?_
  have hshift : (8 * UInt32.ofNat i).toNat = 8 * i := by
    rw [UInt32.toNat_mul, UInt32.toNat_ofNat']
    show 8 * (i % 2 ^ 32) % 2 ^ 32 = 8 * i
    omega
  have hbyte : bytes[i] = byteOf bytes i := by
    rw [byteOf, List.getD_eq_getElem?_getD, List.getElem?_eq_getElem hi', Option.getD_some]
  simp only [intBytes, List.getElem_map, List.getElem_range]
  refine UInt8.toNat_inj.mp ?_
  have hi4 : 8 * i % 32 = 8 * i := Nat.mod_eq_of_lt (by omega)
  rw [UInt32.toNat_toUInt8, UInt32.toNat_shiftRight, hshift, hi4, Nat.shiftRight_eq_div_pow, h, hbyte,
    Nat.pow_mul]
  exact littleEndianNat_div bytes i

theorem intBytes_makeInt {bytes : List UInt8} (hlength : bytes.length ≤ 4) :
    intBytes (makeInt bytes) bytes.length = bytes :=
  intBytes_eq hlength (toNat_makeInt bytes hlength)

theorem makeInt_intBytes (value : UInt32) : makeInt (intBytes value 4) = value := by
  have hvalue := value.toNat_lt
  have hbyte (shift : UInt32) (h : shift.toNat < 32) :
      (value >>> shift).toUInt8.toNat = value.toNat / 2 ^ shift.toNat % 0x100 := by
    rw [UInt32.toNat_toUInt8, UInt32.toNat_shiftRight, Nat.mod_eq_of_lt h,
      Nat.shiftRight_eq_div_pow]
  have hlist : intBytes value 4 = [(value >>> 0).toUInt8, (value >>> 8).toUInt8,
      (value >>> 16).toUInt8, (value >>> 24).toUInt8] := rfl
  have h0 : (value >>> 0).toUInt8.toNat = value.toNat % 0x100 := by
    rw [hbyte 0 (by decide)]
    exact congrArg (· % 0x100) (Nat.div_one _)
  have h8 : (value >>> 8).toUInt8.toNat = value.toNat / 2 ^ 8 % 0x100 := hbyte 8 (by decide)
  have h16 : (value >>> 16).toUInt8.toNat = value.toNat / 2 ^ 16 % 0x100 := hbyte 16 (by decide)
  have h24 : (value >>> 24).toUInt8.toNat = value.toNat / 2 ^ 24 % 0x100 := hbyte 24 (by decide)
  refine UInt32.toNat_inj.mp ?_
  rw [toNat_makeInt _ (Nat.le_of_eq (by rw [hlist]; rfl)), hlist]
  simp only [littleEndianNat, List.foldr_cons, List.foldr_nil, h0, h8, h16, h24]
  omega

/-- A byte that is moved to the left, and nothing is lost. -/
theorem toNat_toUInt32_shiftLeft {value : UInt8} {shift : UInt32} (hshift : shift.toNat ≤ 24) :
    (value.toUInt32 <<< shift).toNat = 2 ^ shift.toNat * value.toNat := by
  have hvalue := value.toNat_lt
  have hpow : 2 ^ shift.toNat ≤ 2 ^ 24 := Nat.pow_le_pow_right (by decide) hshift
  have hfit : 2 ^ shift.toNat * value.toNat < 2 ^ 32 :=
    Nat.lt_of_lt_of_le (Nat.mul_lt_mul_of_le_of_lt hpow hvalue (by decide)) (by decide)
  rw [UInt32.toNat_shiftLeft, UInt8.toNat_toUInt32, Nat.mod_eq_of_lt (Nat.lt_of_le_of_lt hshift (by decide)),
    Nat.shiftLeft_eq, Nat.mul_comm, Nat.mod_eq_of_lt hfit]

/-- Fields that do not overlap. -/
theorem toNat_or_of_dvd {high low : UInt32} (bits : Nat) (hhigh : 2 ^ bits ∣ high.toNat)
    (hlow : low.toNat < 2 ^ bits) : (high ||| low).toNat = high.toNat + low.toNat := by
  obtain ⟨field, hfield⟩ := hhigh
  have hshift : high.toNat = field <<< bits := by rw [hfield, Nat.shiftLeft_eq, Nat.mul_comm]
  rw [UInt32.toNat_or, hshift, Nat.shiftLeft_add_eq_or_of_lt hlow]

namespace Color

def convert1To8 (value : UInt8) : UInt8 := value * 255

def convert4To8 (value : UInt8) : UInt8 := value <<< 4 ||| value

def convert5To8 (value : UInt8) : UInt8 := value <<< 3 ||| value >>> 2

def convert6To8 (value : UInt8) : UInt8 := value <<< 2 ||| value >>> 4

def convert8To1 (value : UInt8) : UInt8 := value >>> 7

def convert8To4 (value : UInt8) : UInt8 := value >>> 4

def convert8To5 (value : UInt8) : UInt8 := value >>> 3

def convert8To6 (value : UInt8) : UInt8 := value >>> 2

def averageRgbComponents (color : Vec4) : UInt8 :=
  ((color.r.toUInt32 + color.g.toUInt32 + color.b.toUInt32) / 3).toUInt8

/-! ## Decoders -/

def decodeRGBA8 (bytes : List UInt8) : Vec4 :=
  ⟨byteOf bytes 3, byteOf bytes 2, byteOf bytes 1, byteOf bytes 0⟩

def decodeRGB8 (bytes : List UInt8) : Vec4 := ⟨byteOf bytes 2, byteOf bytes 1, byteOf bytes 0, 255⟩

def decodeRG8 (bytes : List UInt8) : Vec4 := ⟨byteOf bytes 1, byteOf bytes 0, 0, 255⟩

def decodeRGB565 (bytes : List UInt8) : Vec4 :=
  let pixel := makeInt16 bytes
  ⟨convert5To8 (pixel >>> 11 &&& 0x1F).toUInt8, convert6To8 (pixel >>> 5 &&& 0x3F).toUInt8,
    convert5To8 (pixel &&& 0x1F).toUInt8, 255⟩

def decodeRGB5A1 (bytes : List UInt8) : Vec4 :=
  let pixel := makeInt16 bytes
  ⟨convert5To8 (pixel >>> 11 &&& 0x1F).toUInt8, convert5To8 (pixel >>> 6 &&& 0x1F).toUInt8,
    convert5To8 (pixel >>> 1 &&& 0x1F).toUInt8, convert1To8 (pixel &&& 0x1).toUInt8⟩

def decodeRGBA4 (bytes : List UInt8) : Vec4 :=
  let pixel := makeInt16 bytes
  ⟨convert4To8 (pixel >>> 12 &&& 0xF).toUInt8, convert4To8 (pixel >>> 8 &&& 0xF).toUInt8,
    convert4To8 (pixel >>> 4 &&& 0xF).toUInt8, convert4To8 (pixel &&& 0xF).toUInt8⟩

def decodeIA8 (bytes : List UInt8) : Vec4 :=
  ⟨byteOf bytes 1, byteOf bytes 1, byteOf bytes 1, byteOf bytes 0⟩

def decodeI8 (bytes : List UInt8) : Vec4 := ⟨byteOf bytes 0, byteOf bytes 0, byteOf bytes 0, 255⟩

def decodeA8 (bytes : List UInt8) : Vec4 := ⟨0, 0, 0, byteOf bytes 0⟩

def decodeIA4 (bytes : List UInt8) : Vec4 :=
  let i := convert4To8 ((byteOf bytes 0 &&& 0xF0) >>> 4)
  let a := convert4To8 (byteOf bytes 0 &&& 0x0F)
  ⟨i, i, i, a⟩

def decodeD16 (bytes : List UInt8) : UInt32 := (makeInt16 bytes).toUInt32

def decodeD24 (bytes : List UInt8) : UInt32 :=
  (byteOf bytes 2).toUInt32 <<< 16 ||| (byteOf bytes 1).toUInt32 <<< 8 ||| (byteOf bytes 0).toUInt32

theorem toNat_decodeD24 (bytes : List UInt8) : (decodeD24 bytes).toNat =
    (byteOf bytes 0).toNat + 0x100 * ((byteOf bytes 1).toNat + 0x100 * (byteOf bytes 2).toNat) := by
  have hmiddle := (byteOf bytes 1).toNat_lt
  have hhigh := (byteOf bytes 2).toNat_lt
  have hshift : (byteOf bytes 2).toUInt32 <<< 16 ||| (byteOf bytes 1).toUInt32 <<< 8 =
      ((byteOf bytes 2).toUInt32 <<< 8 ||| (byteOf bytes 1).toUInt32) <<< 8 := by
    have hadd : (8 : UInt32) + 8 = 16 := rfl
    rw [UInt32.shiftLeft_or, ← hadd, UInt32.shiftLeft_add (by decide) (by decide) (by decide)]
  have hword : ((byteOf bytes 2).toUInt32 <<< 8 ||| (byteOf bytes 1).toUInt32).toNat =
      (byteOf bytes 1).toNat + 0x100 * (byteOf bytes 2).toNat :=
    toNat_shiftLeft_or (by rw [UInt8.toNat_toUInt32]; omega)
  rw [decodeD24, hshift, toNat_shiftLeft_or (by rw [hword]; omega), hword]

/-- The depth and the stencil. -/
def decodeD24S8 (bytes : List UInt8) : UInt32 × UInt8 := (decodeD24 bytes, byteOf bytes 3)

/-! ## Encoders -/

def encodeRGBA8 (color : Vec4) : List UInt8 := [color.a, color.b, color.g, color.r]

def encodeRGB8 (color : Vec4) : List UInt8 := [color.b, color.g, color.r]

def encodeRG8 (color : Vec4) : List UInt8 := [color.g, color.r]

def encodeRGB565 (color : Vec4) : List UInt8 :=
  intBytes ((convert8To5 color.r).toUInt32 <<< 11 ||| (convert8To6 color.g).toUInt32 <<< 5 |||
    (convert8To5 color.b).toUInt32) 2

def encodeRGB5A1 (color : Vec4) : List UInt8 :=
  intBytes ((convert8To5 color.r).toUInt32 <<< 11 ||| (convert8To5 color.g).toUInt32 <<< 6 |||
    (convert8To5 color.b).toUInt32 <<< 1 ||| (convert8To1 color.a).toUInt32) 2

def encodeRGBA4 (color : Vec4) : List UInt8 :=
  intBytes ((convert8To4 color.r).toUInt32 <<< 12 ||| (convert8To4 color.g).toUInt32 <<< 8 |||
    (convert8To4 color.b).toUInt32 <<< 4 ||| (convert8To4 color.a).toUInt32) 2

def encodeIA8 (color : Vec4) : List UInt8 := [color.a, averageRgbComponents color]

def encodeI8 (color : Vec4) : List UInt8 := [averageRgbComponents color]

def encodeA8 (color : Vec4) : List UInt8 := [color.a]

def encodeIA4 (color : Vec4) : List UInt8 :=
  [convert8To4 (averageRgbComponents color) <<< 4 ||| convert8To4 color.a]

end Color

end GbaStation.Rasterizer
