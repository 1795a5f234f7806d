import GbaStation.Rasterizer.PixelLayout
import GbaStation.Rasterizer.TextureCopy
import GbaStation.Rasterizer.TextureDecode

/-!
# Display transfers (`renderer_software/sw_blitter.cpp`)

A display transfer converts an image of one layout and format to another one, pixel by pixel of the
output; it may be scaled down by two in one or both directions, and flipped.
-/

namespace GbaStation.Rasterizer

open Color
open AccessLog (addresses store_of_inside)

/-! ## Pixels -/

/-- `DecodePixel`. -/
def decodePixel (inputFormat : TransferFormat) (bytes : List UInt8) : Vec4 :=
  match inputFormat with
  | .rgba8 => decodeRGBA8 bytes
  | .rgb8 => decodeRGB8 bytes
  | .rgb565 => decodeRGB565 bytes
  | .rgb5a1 => decodeRGB5A1 bytes
  | .rgba4 => decodeRGBA4 bytes

/-- The bytes of a pixel of the output. -/
def encodePixel (outputFormat : TransferFormat) (color : Vec4) : List UInt8 :=
  match outputFormat with
  | .rgba8 => encodeRGBA8 color
  | .rgb8 => encodeRGB8 color
  | .rgb565 => encodeRGB565 color
  | .rgb5a1 => encodeRGB5A1 color
  | .rgba4 => encodeRGBA4 color

@[simp] theorem length_encodePixel (format : TransferFormat) (color : Vec4) :
    (encodePixel format color).length = bytesPerPixel format := by
  cases format with
  | _ => rfl

/-- The mean of colors, channel by channel. -/
def averageColor (colors : List Vec4) : Vec4 :=
  let mean (channel : Vec4 → UInt8) : UInt8 :=
    .ofNat ((colors.map fun color => (channel color).toNat).sum / colors.length)
  ⟨mean Vec4.r, mean Vec4.g, mean Vec4.b, mean Vec4.a⟩

/-- `GetMortonOffset`. -/
def getMortonOffset (x y bytesPerPixel : Nat) : Nat :=
  (mortonInterleave x y + x / 8 * 8 * 8) * bytesPerPixel

namespace DisplayTransferConfig

variable (config : DisplayTransferConfig)

def horizontalScale : Nat := if config.scaling ≠ .noScale then 1 else 0

def verticalScale : Nat := if config.scaling = .scaleXY then 1 else 0

/-- `output_width`, scaled. -/
def width : Nat := config.outputWidth.toNat / 2 ^ config.horizontalScale

/-- `output_height`, scaled. -/
def height : Nat := config.outputHeight.toNat / 2 ^ config.verticalScale

/-- The pixels of the input that make one of the output. -/
def samples : Nat :=
  match config.scaling with
  | .noScale | .unknown => 1
  | .scaleX => 2
  | .scaleXY => 4

def srcBytesPerPixel : Nat := bytesPerPixel config.inputFormat

def dstBytesPerPixel : Nat := bytesPerPixel config.outputFormat

/-- `input_size`. -/
def inputSize : Nat :=
  word (config.inputWidth.toNat * config.inputHeight.toNat * config.srcBytesPerPixel)

/-- `output_size`. -/
def outputSize : Nat := word (config.width * config.height * config.dstBytesPerPixel)

/-- `dst_addr`, which is moved for a flip that crops the input: the output is skewed on hardware. -/
def dstAddr : Nat :=
  if config.flipVertically ∧ config.cropInputLines then
    word (config.getPhysicalOutputAddress +
      (config.inputWidth.toNat + 2 ^ 32 - config.outputWidth.toNat) *
        (config.outputHeight.toNat - 1) * config.dstBytesPerPixel)
  else config.getPhysicalOutputAddress

/-- `output_y`. -/
def outputY (y : Nat) : Nat := if config.flipVertically then config.height - y - 1 else y

/-- `src_offset`. -/
def srcOffset (x y : Nat) : Nat :=
  let inputX := x * 2 ^ config.horizontalScale
  let inputY := y * 2 ^ config.verticalScale
  if config.inputLinear then
    word ((inputX + inputY * config.inputWidth.toNat) * config.srcBytesPerPixel)
  else
    let coarseY := inputY / 8 * 8
    let stride := config.inputWidth.toNat * config.srcBytesPerPixel
    word (getMortonOffset inputX inputY config.srcBytesPerPixel + coarseY * stride)

/-- `dst_offset`. -/
def dstOffset (x y : Nat) : Nat :=
  if config.inputLinear ≠ config.dontSwizzle then
    -- the output is tiled
    let coarseY := config.outputY y / 8 * 8
    let stride := config.width * config.dstBytesPerPixel
    word (getMortonOffset x (config.outputY y) config.dstBytesPerPixel + coarseY * stride)
  else word ((x + config.outputY y * config.width) * config.dstBytesPerPixel)

/-- The colors of so many pixels of the input that follow each other. -/
def loadPixels (src : MemoryRef) (offset : Nat) :
    Nat → AccessLog → Except MemoryFault (List Vec4 × AccessLog)
  | 0, log => .ok ([], log)
  | count + 1, log => do
    let (colors, log) ← loadPixels src offset count log
    let (bytes, log) ← log.load src (offset + count * config.srcBytesPerPixel) config.srcBytesPerPixel
    return (colors ++ [decodePixel config.inputFormat bytes], log)

/-- The body of the loops. -/
def transferPixel (src : MemoryRef) (dst : Option MemoryRef) (log : AccessLog) (pixel : Nat × Nat) :
    Except MemoryFault AccessLog := do
  let (colors, log) ← config.loadPixels src (config.srcOffset pixel.1 pixel.2) config.samples log
  match dst with
  | none => .error .outside
  | some dst =>
    log.store dst (config.dstOffset pixel.1 pixel.2)
      (encodePixel config.outputFormat (averageColor colors))

/-- The pixels of the output, line by line. -/
def pixels : List (Nat × Nat) :=
  (List.range config.height).flatMap fun y => (List.range config.width).map fun x => (x, y)

/-- What the rasterizer is told. -/
def displayTransferCalls : List RasterizerCall :=
  [.flushRegion config.getPhysicalInputAddress config.inputSize,
    .invalidateRegion config.getPhysicalOutputAddress config.outputSize]

/-- `SwBlitter::DisplayTransfer`, where nothing is done if a check fails. The memory is that behind
the calls of the rasterizer. -/
def runDisplayTransfer (mem : GuestMemory) : Except MemoryFault (Option Transfer) :=
  match getPhysicalRef config.getPhysicalInputAddress,
      getPhysicalRef config.getPhysicalOutputAddress with
  | some src, some _ =>
    if config.inputWidth = 0 ∨ config.inputHeight = 0 ∨ config.outputWidth = 0 ∨
        config.outputHeight = 0 then .ok none
    -- not implemented
    else if config.scaling = .unknown ∨ config.inputLinear ∧ config.scaling ≠ .noScale then .ok none
    else do
      let log ← config.pixels.foldlM (config.transferPixel src (getPhysicalRef config.dstAddr))
        { mem := mem }
      return some ⟨config.displayTransferCalls, log⟩
  | _, _ => .ok none

end DisplayTransferConfig

/-! ## Layouts -/

theorem mortonInterleave_add (x y : Nat) :
    mortonInterleave x y = mortonInterleave x 0 + mortonInterleave 0 y := by
  simp [mortonInterleave]

theorem mortonInterleave_mod (x y : Nat) :
    mortonInterleave x y = mortonInterleave (x % 8) (y % 8) := by
  unfold mortonInterleave
  rw [Nat.mod_mod, Nat.mod_mod]

theorem mortonInterleave_mono {i j : Nat} (h : i ≤ j) (hj : j < 8) :
    mortonInterleave 0 i ≤ mortonInterleave 0 j ∧
      mortonInterleave i 0 ≤ mortonInterleave j 0 := by
  have hlut : ∀ j : Fin 8, ∀ i : Fin 8, i ≤ j → mortonInterleave 0 i ≤ mortonInterleave 0 j ∧
      mortonInterleave i 0 ≤ mortonInterleave j 0 := by decide
  exact hlut ⟨j, hj⟩ ⟨i, Nat.lt_of_le_of_lt h hj⟩ h

/-- The pixels in front of a column of tiles. -/
def tiledColumn (x : Nat) : Nat := mortonInterleave x 0 + x / 8 * 64

/-- No line of a tile is longer than a tile. -/
theorem mortonInterleave_le (x : Nat) : mortonInterleave x 0 ≤ 21 ∧ mortonInterleave 0 x ≤ 42 := by
  have hlut : ∀ i : Fin 8, mortonInterleave i 0 ≤ 21 ∧ mortonInterleave 0 i ≤ 42 := by decide
  rw [mortonInterleave_mod x 0, mortonInterleave_mod 0 x]
  exact hlut ⟨x % 8, Nat.mod_lt x (by decide)⟩

theorem tiledColumn_mono {i j : Nat} (h : i ≤ j) : tiledColumn i ≤ tiledColumn j := by
  have hi := (mortonInterleave_le i).1
  unfold tiledColumn
  rcases Nat.eq_or_lt_of_le (Nat.div_le_div_right (c := 8) h) with hsame | hbefore
  · have hline := (mortonInterleave_mono (i := i % 8) (j := j % 8) (by omega)
      (Nat.mod_lt j (by decide))).2
    rw [mortonInterleave_mod i 0, mortonInterleave_mod j 0, hsame]
    exact Nat.add_le_add_right hline _
  · omega

theorem tiledColumn_le (x : Nat) : tiledColumn x ≤ 8 * x + 21 := by
  have hx := (mortonInterleave_le x).1
  unfold tiledColumn
  omega

/-- The layout of a linear image. -/
def PixelLayout.linear (width bytes scaleX scaleY : Nat) : PixelLayout where
  lines := 1
  line _ := 0
  column x := x * 2 ^ scaleX
  step := 2 ^ scaleY * width
  bytes := bytes
  lines_pos := Nat.one_pos
  line_mono _ _ _ _ := Nat.le_refl 0
  column_mono _ _ h := Nat.mul_le_mul_right _ h

/-- The layout of a tiled image; with a scale of one only every second line is looked at. -/
def PixelLayout.tiled (width bytes scaleX : Nat) (scaleY : Bool) : PixelLayout where
  lines := if scaleY then 4 else 8
  line y := mortonInterleave 0 (if scaleY then y * 2 else y)
  column x := tiledColumn (x * 2 ^ scaleX)
  step := 8 * width
  bytes := bytes
  lines_pos := by split <;> decide
  line_mono i j h hj := by
    cases scaleY with
    | true => exact (mortonInterleave_mono (Nat.mul_le_mul_right 2 h) (by simp at hj ⊢; omega)).1
    | false => exact (mortonInterleave_mono h hj).1
  column_mono _ _ h := tiledColumn_mono (Nat.mul_le_mul_right _ h)

namespace DisplayTransferConfig

variable (config : DisplayTransferConfig)

/-- The layout of the pixels that are read. -/
def srcLayout : PixelLayout :=
  if config.inputLinear then
    .linear config.inputWidth.toNat config.srcBytesPerPixel config.horizontalScale
      config.verticalScale
  else
    .tiled config.inputWidth.toNat config.srcBytesPerPixel config.horizontalScale
      (config.scaling = .scaleXY)

/-- The layout of the pixels that are written. -/
def dstLayout : PixelLayout :=
  if config.inputLinear ≠ config.dontSwizzle then
    .tiled config.width config.dstBytesPerPixel 0 false
  else .linear config.width config.dstBytesPerPixel 0 0

/-- An offset in a tiled image, where every second line is looked at or every line. -/
theorem tiled_offset (width bytes scaleX x y : Nat) (scaleY : Bool) :
    (PixelLayout.tiled width bytes scaleX scaleY).offset x y =
      getMortonOffset (x * 2 ^ scaleX) (y * if scaleY then 2 else 1) bytes +
        (y * if scaleY then 2 else 1) / 8 * 8 * (width * bytes) := by
  have hline : ∀ lines scale, lines * scale = 8 → mortonInterleave 0 (y % lines * scale) =
      mortonInterleave 0 (y * scale) ∧ y / lines = y * scale / 8 := by
    intro lines scale height
    have hscale : 0 < scale := Nat.pos_of_ne_zero fun hzero => by
      rw [hzero, Nat.mul_zero] at height
      cases height
    rw [mortonInterleave_mod 0 (y * scale), ← height, Nat.mul_mod_mul_right,
      Nat.mul_div_mul_right _ _ hscale]
    exact ⟨rfl, rfl⟩
  unfold PixelLayout.offset PixelLayout.tiled getMortonOffset tiledColumn
  rw [mortonInterleave_add (x * 2 ^ scaleX) (y * if scaleY then 2 else 1)]
  have hgroup : ∀ row, row * 8 * (width * bytes) = row * (8 * width) * bytes := fun row => by
    rw [Nat.mul_assoc row 8, ← Nat.mul_assoc 8 width, ← Nat.mul_assoc row]
  rw [hgroup, ← Nat.add_mul]
  cases scaleY with
  | true =>
    obtain ⟨hmorton, hrow⟩ := hline 4 2 rfl
    simp only [if_true]
    rw [hmorton, hrow]
    refine congrArg (· * bytes) ?_
    omega
  | false =>
    obtain ⟨hmorton, -⟩ := hline 8 1 rfl
    simp only [Bool.false_eq_true, if_false, Nat.mul_one] at hmorton ⊢
    rw [hmorton]
    refine congrArg (· * bytes) ?_
    omega

theorem linear_offset (width bytes scaleX scaleY x y : Nat) :
    (PixelLayout.linear width bytes scaleX scaleY).offset x y =
      (x * 2 ^ scaleX + y * 2 ^ scaleY * width) * bytes := by
  unfold PixelLayout.offset PixelLayout.linear
  rw [Nat.div_one, Nat.add_zero, Nat.mul_assoc y]

theorem srcOffset_eq (x y : Nat) :
    config.srcOffset x y = word (config.srcLayout.offset x y) := by
  unfold srcOffset srcLayout
  split_ifs with hlinear
  · rw [linear_offset]
  · rw [tiled_offset]
    have hscale : (2 : Nat) ^ config.verticalScale =
        if decide (config.scaling = .scaleXY) then 2 else 1 := by
      unfold verticalScale
      cases config.scaling with
      | _ => rfl
    rw [hscale]

theorem dstOffset_eq (x y : Nat) :
    config.dstOffset x y = word (config.dstLayout.offset x (config.outputY y)) := by
  unfold dstOffset dstLayout
  split_ifs with hlinear
  · rw [tiled_offset, Nat.pow_zero, Nat.mul_one]
    simp only [Bool.false_eq_true, if_false, Nat.mul_one]
  · rw [linear_offset, Nat.pow_zero, Nat.mul_one, Nat.mul_one]

end DisplayTransferConfig

/-! ## Accesses -/

section Accesses

variable {config : DisplayTransferConfig} {src : MemoryRef} {dst : Option MemoryRef}
  {log log' : AccessLog} {offset count : Nat} {pixel : Nat × Nat}

theorem bytesPerPixel_pos (format : TransferFormat) : 0 < bytesPerPixel format := by
  cases format with
  | _ => decide

/-- Accesses that follow each other. -/
theorem addresses_append (ref : MemoryRef) (offset m n : Nat) :
    addresses ref offset m ++ addresses ref (offset + m) n =
      addresses ref offset (m + n) := by
  unfold addresses
  rw [List.range_add, List.map_append, List.map_map]
  refine congrArg _ (List.map_congr_left fun i _ => ?_)
  rw [Function.comp_apply]
  omega

/-- The samples of a pixel are read if and only if all of them are in the array. -/
theorem loadPixels_of_inside (h : src.Inside offset (count * config.srcBytesPerPixel))
    (log : AccessLog) : ∃ colors, config.loadPixels src offset count log =
      .ok (colors, { log with
        readBytes := log.readBytes ++
          addresses src offset (count * config.srcBytesPerPixel) }) := by
  have hpos : 0 < config.srcBytesPerPixel := bytesPerPixel_pos _
  induction count with
  | zero =>
    rw [Nat.zero_mul]
    exact ⟨[], by rw [DisplayTransferConfig.loadPixels]; simp [addresses]⟩
  | succ count ih =>
    unfold MemoryRef.Inside at h
    rw [Nat.succ_mul] at h ⊢
    obtain ⟨colors, hcolors⟩ := ih (Or.inr (by omega))
    have hlast : src.Inside (offset + count * config.srcBytesPerPixel) config.srcBytesPerPixel :=
      Or.inr (by omega)
    rw [DisplayTransferConfig.loadPixels, hcolors]
    show ∃ _, (AccessLog.load _ _ _ _ >>= _) = _
    rw [AccessLog.load_of_inside hlast, ← addresses_append, ← List.append_assoc]
    exact ⟨_, rfl⟩

theorem loadPixels_of_not_inside (h : ¬src.Inside offset (count * config.srcBytesPerPixel))
    (log : AccessLog) : config.loadPixels src offset count log = .error .outside := by
  have hpos : 0 < config.srcBytesPerPixel := bytesPerPixel_pos _
  induction count with
  | zero => exact absurd (Or.inl (Nat.zero_mul _)) h
  | succ count ih =>
    unfold MemoryRef.Inside at h
    rw [Nat.succ_mul] at h
    rw [DisplayTransferConfig.loadPixels]
    by_cases hbefore : src.Inside offset (count * config.srcBytesPerPixel)
    · obtain ⟨colors, hcolors⟩ := loadPixels_of_inside hbefore log
      have hlast : ¬src.Inside (offset + count * config.srcBytesPerPixel)
          config.srcBytesPerPixel := fun hinside => by
        unfold MemoryRef.Inside at hinside
        omega
      rw [hcolors]
      show (AccessLog.load _ _ _ _ >>= _) = _
      rw [AccessLog.load_of_not_inside hlast]
      rfl
    · rw [ih hbefore]
      rfl

/-- What is read and written for a pixel is in the arrays. -/
def DisplayTransferConfig.PixelFits (config : DisplayTransferConfig) (src : MemoryRef)
    (dst : Option MemoryRef) (pixel : Nat × Nat) : Prop :=
  src.Inside (config.srcOffset pixel.1 pixel.2) (config.samples * config.srcBytesPerPixel) ∧
    ∃ ref, dst = some ref ∧
      ref.Inside (config.dstOffset pixel.1 pixel.2) config.dstBytesPerPixel

/-- The addresses that are written for a pixel. -/
def DisplayTransferConfig.written (config : DisplayTransferConfig) (dst : Option MemoryRef)
    (pixel : Nat × Nat) : List Nat :=
  match dst with
  | none => []
  | some ref => addresses ref (config.dstOffset pixel.1 pixel.2) config.dstBytesPerPixel

/-- What a pixel that is transferred has done. -/
theorem of_transferPixel (h : config.transferPixel src dst log pixel = .ok log') :
    config.PixelFits src dst pixel ∧
      log'.readBytes = log.readBytes ++ addresses src
        (config.srcOffset pixel.1 pixel.2) (config.samples * config.srcBytesPerPixel) ∧
      log'.writtenBytes = log.writtenBytes ++ config.written dst pixel := by
  rw [DisplayTransferConfig.transferPixel] at h
  by_cases hread : src.Inside (config.srcOffset pixel.1 pixel.2)
      (config.samples * config.srcBytesPerPixel)
  · obtain ⟨colors, hcolors⟩ := loadPixels_of_inside hread log
    rw [hcolors] at h
    cases dst with
    | none => cases h
    | some ref =>
      change AccessLog.store _ _ _ _ = _ at h
      by_cases hwrite : ref.Inside (config.dstOffset pixel.1 pixel.2)
          (encodePixel config.outputFormat (averageColor colors)).length
      · obtain ⟨mem, hstore⟩ := (@store_of_inside { log with
          readBytes := log.readBytes ++ addresses src
            (config.srcOffset pixel.1 pixel.2) (config.samples * config.srcBytesPerPixel) }) hwrite
        obtain rfl := Except.ok.inj (hstore.symm.trans h)
        rw [length_encodePixel] at hwrite ⊢
        exact ⟨⟨hread, ref, rfl, hwrite⟩, rfl, rfl⟩
      · rw [AccessLog.store_of_not_inside hwrite] at h
        cases h
  · rw [loadPixels_of_not_inside hread] at h
    cases h

theorem transferPixel_iff : (∃ log', config.transferPixel src dst log pixel = .ok log') ↔
    config.PixelFits src dst pixel := by
  constructor
  · rintro ⟨log', h⟩
    exact (of_transferPixel h).1
  · rintro ⟨hread, ref, rfl, hwrite⟩
    obtain ⟨colors, hcolors⟩ := loadPixels_of_inside hread log
    rw [DisplayTransferConfig.transferPixel, hcolors]
    obtain ⟨mem, hstore⟩ := (@store_of_inside { log with
      readBytes := log.readBytes ++ addresses src
        (config.srcOffset pixel.1 pixel.2) (config.samples * config.srcBytesPerPixel) } _ _ (encodePixel config.outputFormat (averageColor colors)))
      (by rw [length_encodePixel]; exact hwrite)
    exact ⟨_, hstore⟩

/-- The transfer of pixels ends if and only if all of them fit. -/
theorem foldlM_transferPixel_iff (pixels : List (Nat × Nat)) (log : AccessLog) :
    (∃ log', pixels.foldlM (config.transferPixel src dst) log = .ok log') ↔
      ∀ pixel ∈ pixels, config.PixelFits src dst pixel := by
  induction pixels generalizing log with
  | nil => exact ⟨fun _ _ h => absurd h List.not_mem_nil, fun _ => ⟨log, rfl⟩⟩
  | cons pixel pixels ih =>
    rw [List.forall_mem_cons, ← (@transferPixel_iff _ _ _ log), List.foldlM_cons]
    cases hpixel : config.transferPixel src dst log pixel with
    | error e =>
      refine ⟨fun ⟨log', h⟩ => ?_, fun ⟨⟨log', h⟩, _⟩ => ?_⟩
      · cases h
      · cases h
    | ok log₁ =>
      constructor
      · intro h
        exact ⟨⟨log₁, rfl⟩, (ih log₁).mp h⟩
      · rintro ⟨-, h⟩
        exact (ih log₁).mpr h

/-- The accesses of a transfer are those of its pixels. -/
theorem of_foldlM_transferPixel (pixels : List (Nat × Nat)) (log : AccessLog)
    (h : pixels.foldlM (config.transferPixel src dst) log = .ok log') :
    log'.readBytes = log.readBytes ++ pixels.flatMap (fun pixel =>
        addresses src (config.srcOffset pixel.1 pixel.2)
          (config.samples * config.srcBytesPerPixel)) ∧
      log'.writtenBytes = log.writtenBytes ++ pixels.flatMap (config.written dst) := by
  induction pixels generalizing log with
  | nil =>
    cases h
    exact ⟨(List.append_nil _).symm, (List.append_nil _).symm⟩
  | cons pixel pixels ih =>
    rw [List.foldlM_cons] at h
    cases hpixel : config.transferPixel src dst log pixel with
    | error e =>
      rw [hpixel] at h
      cases h
    | ok log₁ =>
      rw [hpixel] at h
      obtain ⟨hread, hwritten⟩ := ih log₁ h
      obtain ⟨-, hread₁, hwritten₁⟩ := of_transferPixel hpixel
      rw [hread, hwritten, hread₁, hwritten₁, List.flatMap_cons, List.flatMap_cons,
        List.append_assoc, List.append_assoc]
      exact ⟨rfl, rfl⟩

end Accesses

/-! ## Transfers that stay in their regions -/

namespace DisplayTransferConfig

variable (config : DisplayTransferConfig)

/-- The checks of `DisplayTransfer`. -/
structure PassesDisplayTransfer (src dst : MemoryRef) : Prop where
  source : getPhysicalRef config.getPhysicalInputAddress = some src
  destination : getPhysicalRef config.getPhysicalOutputAddress = some dst
  dimensions : ¬(config.inputWidth = 0 ∨ config.inputHeight = 0 ∨ config.outputWidth = 0 ∨
    config.outputHeight = 0)
  mode : ¬(config.scaling = .unknown ∨ config.inputLinear ∧ config.scaling ≠ .noScale)

/-- The transfer ends, and it is coherent. -/
def CoherentDisplayTransfer (src dst : MemoryRef) : Prop :=
  ∀ mem, ∃ t, config.runDisplayTransfer mem = .ok (some t) ∧ t.Coherent src dst

/-- What the two images need: the pixels that may lie last end in the flushed or invalidated region
and in the area of its start, and the output is not moved in front of its region. -/
structure PixelsFit (src dst : MemoryRef) : Prop where
  source : config.srcLayout.Within config.width config.height
    (config.samples * config.srcBytesPerPixel) (min src.getSize config.inputSize)
  moved : config.getPhysicalOutputAddress ≤ config.dstAddr
  destination : config.dstLayout.Within config.width config.height
    (config.dstAddr - config.getPhysicalOutputAddress + config.dstBytesPerPixel)
    (min dst.getSize config.outputSize)

/-- There are no pixels, or what the images need is there. -/
def FitsDisplayTransfer (src dst : MemoryRef) : Prop :=
  config.width = 0 ∨ config.height = 0 ∨ config.PixelsFit src dst

end DisplayTransferConfig

open DisplayTransferConfig (pixels outputY srcLayout dstLayout samples dstBytesPerPixel)

section Coherence

variable {config : DisplayTransferConfig} {src dst : MemoryRef} {x y : Nat}

theorem mem_pixels {pixel : Nat × Nat} :
    pixel ∈ config.pixels ↔ pixel.1 < config.width ∧ pixel.2 < config.height := by
  unfold pixels
  simp only [List.mem_flatMap, List.mem_map, List.mem_range]
  constructor
  · rintro ⟨y, hy, x, hx, rfl⟩
    exact ⟨hx, hy⟩
  · rintro ⟨hx, hy⟩
    exact ⟨pixel.2, hy, pixel.1, hx, rfl⟩

/-- The lines of the output are those of the input, from the top or from the bottom. -/
theorem outputY_lt (hy : y < config.height) : config.outputY y < config.height ∧
    config.outputY (config.outputY y) = y := by
  unfold outputY
  split_ifs
  · omega
  · exact ⟨hy, rfl⟩

theorem bytesPerPixel_le (format : TransferFormat) : bytesPerPixel format ≤ 4 := by
  cases format with
  | _ => decide

/-- Offsets in images whose dimensions are `u16` grow slowly. -/
theorem PixelLayout.small_tiled {width bytes scaleX x : Nat} {scaleY : Bool}
    (hwidth : width < 2 ^ 16) (hbytes : bytes ≤ 4) (hx : x * 2 ^ scaleX < 2 ^ 16) :
    ((tiled width bytes scaleX scaleY).column x +
        (tiled width bytes scaleX scaleY).line ((tiled width bytes scaleX scaleY).lines - 1) +
        (tiled width bytes scaleX scaleY).step) * (tiled width bytes scaleX scaleY).bytes <
      2 ^ 31 := by
  have hcolumn := tiledColumn_le (x * 2 ^ scaleX)
  have hline := fun line => (mortonInterleave_le line).2
  have hpixels : (tiled width bytes scaleX scaleY).column x +
      (tiled width bytes scaleX scaleY).line ((tiled width bytes scaleX scaleY).lines - 1) +
      (tiled width bytes scaleX scaleY).step ≤ 2 ^ 22 := by
    have hlast := hline (if scaleY then ((tiled width bytes scaleX scaleY).lines - 1) * 2
      else (tiled width bytes scaleX scaleY).lines - 1)
    show tiledColumn _ + mortonInterleave 0 _ + 8 * width ≤ 2 ^ 22
    omega
  have hproduct := Nat.mul_le_mul hpixels hbytes
  exact Nat.lt_of_le_of_lt hproduct (by decide)

theorem PixelLayout.small_linear {width bytes scaleX scaleY x : Nat} (hscale : scaleY ≤ 1)
    (hwidth : width < 2 ^ 16) (hbytes : bytes ≤ 4) (hx : x * 2 ^ scaleX < 2 ^ 16) :
    ((linear width bytes scaleX scaleY).column x +
        (linear width bytes scaleX scaleY).line ((linear width bytes scaleX scaleY).lines - 1) +
        (linear width bytes scaleX scaleY).step) * (linear width bytes scaleX scaleY).bytes <
      2 ^ 31 := by
  have hstep : 2 ^ scaleY * width ≤ 2 * width :=
    Nat.mul_le_mul_right width (Nat.pow_le_pow_right (by decide) hscale)
  have hpixels : (linear width bytes scaleX scaleY).column x +
      (linear width bytes scaleX scaleY).line ((linear width bytes scaleX scaleY).lines - 1) +
      (linear width bytes scaleX scaleY).step ≤ 2 ^ 22 := by
    show x * 2 ^ scaleX + 0 + 2 ^ scaleY * width ≤ 2 ^ 22
    omega
  have hproduct := Nat.mul_le_mul hpixels hbytes
  exact Nat.lt_of_le_of_lt hproduct (by decide)

/-- The last column of the input is one of the output. -/
theorem lastColumn_lt : (config.width - 1) * 2 ^ config.horizontalScale < 2 ^ 16 := by
  have hwidth := config.outputWidth.toNat_lt
  have hle : config.width * 2 ^ config.horizontalScale ≤ config.outputWidth.toNat :=
    Nat.div_mul_le_self _ _
  have hbefore := Nat.mul_le_mul_right (2 ^ config.horizontalScale) (Nat.sub_le config.width 1)
  omega

theorem width_lt : config.width < 2 ^ 16 :=
  Nat.lt_of_le_of_lt (Nat.div_le_self _ _) config.outputWidth.toNat_lt

theorem small_srcLayout : (config.srcLayout.column (config.width - 1) +
      config.srcLayout.line (config.srcLayout.lines - 1) + config.srcLayout.step) *
    config.srcLayout.bytes < 2 ^ 31 := by
  have hscale : config.verticalScale ≤ 1 := by
    unfold DisplayTransferConfig.verticalScale
    split_ifs <;> decide
  unfold srcLayout
  split_ifs
  · exact PixelLayout.small_linear hscale config.inputWidth.toNat_lt (bytesPerPixel_le _)
      lastColumn_lt
  · exact PixelLayout.small_tiled config.inputWidth.toNat_lt (bytesPerPixel_le _) lastColumn_lt

theorem small_dstLayout : (config.dstLayout.column (config.width - 1) +
      config.dstLayout.line (config.dstLayout.lines - 1) + config.dstLayout.step) *
    config.dstLayout.bytes < 2 ^ 31 := by
  have hwidth := (@width_lt config)
  have hlast : (config.width - 1) * 2 ^ 0 < 2 ^ 16 := by
    rw [Nat.pow_zero, Nat.mul_one]
    omega
  unfold dstLayout
  split_ifs
  · exact PixelLayout.small_tiled hwidth (bytesPerPixel_le _) hlast
  · exact PixelLayout.small_linear (Nat.zero_le 1) hwidth (bytesPerPixel_le _) hlast

theorem runDisplayTransfer_eq (h : config.PassesDisplayTransfer src dst) (mem : GuestMemory) :
    config.runDisplayTransfer mem = (config.pixels.foldlM
        (config.transferPixel src (getPhysicalRef config.dstAddr)) { mem := mem }).map fun log =>
      some ⟨config.displayTransferCalls, log⟩ := by
  unfold DisplayTransferConfig.runDisplayTransfer
  rw [h.source, h.destination]
  dsimp only
  rw [if_neg h.dimensions, if_neg h.mode]
  rfl

/-- Where a block of addresses lies. -/
theorem forall_addresses {ref : MemoryRef} {offset size lower upper : Nat} (hsize : 0 < size) :
    (∀ a ∈ addresses ref offset size, lower ≤ a ∧ a < upper) ↔
      lower ≤ ref.address + offset ∧ ref.address + offset + size ≤ upper := by
  constructor
  · intro hall
    have hfirst := hall _ (List.mem_map_of_mem (List.mem_range.mpr hsize))
    have hlast := hall _ (List.mem_map_of_mem (List.mem_range.mpr (Nat.sub_lt hsize Nat.one_pos)))
    exact ⟨hfirst.1, by omega⟩
  · rintro ⟨hlower, hupper⟩ a ha
    obtain ⟨i, hi, rfl⟩ := List.mem_map.mp ha
    have hlt := List.mem_range.mp hi
    exact ⟨by omega, by omega⟩

/-- What is read and written for a pixel is in the arrays, in the regions of the rasterizer, and in
the areas of the addresses. -/
structure PixelCoherent (config : DisplayTransferConfig) (src dst : MemoryRef)
    (pixel : Nat × Nat) : Prop where
  fits : config.PixelFits src (getPhysicalRef config.dstAddr) pixel
  flushed : ∀ a ∈ addresses src (config.srcOffset pixel.1 pixel.2)
      (config.samples * config.srcBytesPerPixel), config.getPhysicalInputAddress ≤ a ∧
    a < config.getPhysicalInputAddress + config.inputSize
  invalidated : ∀ a ∈ config.written (getPhysicalRef config.dstAddr) pixel,
    config.getPhysicalOutputAddress ≤ a ∧ a < config.getPhysicalOutputAddress + config.outputSize
  source : ∀ a ∈ addresses src (config.srcOffset pixel.1 pixel.2)
    (config.samples * config.srcBytesPerPixel), src.area.Contains a
  destination : ∀ a ∈ config.written (getPhysicalRef config.dstAddr) pixel, dst.area.Contains a

/-- A transfer is coherent if and only if all of its pixels are. -/
theorem coherent_iff_pixels (h : config.PassesDisplayTransfer src dst) :
    config.CoherentDisplayTransfer src dst ↔
      ∀ pixel ∈ config.pixels, PixelCoherent config src dst pixel := by
  have hcalls : ∀ a, ((∃ call ∈ config.displayTransferCalls, call.Flushes a) ↔
      config.getPhysicalInputAddress ≤ a ∧ a < config.getPhysicalInputAddress + config.inputSize) ∧
      ((∃ call ∈ config.displayTransferCalls, call.Invalidates a) ↔
        config.getPhysicalOutputAddress ≤ a ∧
          a < config.getPhysicalOutputAddress + config.outputSize) := fun a => by
    simp [DisplayTransferConfig.displayTransferCalls, RasterizerCall.Flushes,
      RasterizerCall.Invalidates]
  constructor
  · intro hcoherent
    obtain ⟨t, hrun, hregions⟩ := hcoherent fun _ => 0
    rw [runDisplayTransfer_eq h] at hrun
    cases hfold : config.pixels.foldlM
        (config.transferPixel src (getPhysicalRef config.dstAddr)) { mem := fun _ => 0 } with
    | error e =>
      rw [hfold] at hrun
      cases hrun
    | ok log =>
      rw [hfold] at hrun
      obtain rfl := Option.some.inj (Except.ok.inj hrun)
      have hfits := (foldlM_transferPixel_iff _ _).mp ⟨log, hfold⟩
      obtain ⟨hread, hwritten⟩ := of_foldlM_transferPixel _ _ hfold
      intro pixel hpixel
      have hreads : ∀ a ∈ addresses src (config.srcOffset pixel.1 pixel.2)
          (config.samples * config.srcBytesPerPixel), a ∈ log.readBytes := fun a ha =>
        hread ▸ List.mem_flatMap_of_mem hpixel ha
      have hwrites : ∀ a ∈ config.written (getPhysicalRef config.dstAddr) pixel,
          a ∈ log.writtenBytes := fun a ha => hwritten ▸ List.mem_flatMap_of_mem hpixel ha
      exact ⟨hfits pixel hpixel, fun a ha => (hcalls a).1.mp (hregions.flushed a (hreads a ha)),
        fun a ha => (hcalls a).2.mp (hregions.invalidated a (hwrites a ha)),
        fun a ha => hregions.source a (hreads a ha),
        fun a ha => hregions.destination a (hwrites a ha)⟩
  · intro hpixels mem
    obtain ⟨log, hfold⟩ := (foldlM_transferPixel_iff config.pixels { mem := mem }).mpr
      fun pixel hpixel => (hpixels pixel hpixel).fits
    obtain ⟨hread, hwritten⟩ := of_foldlM_transferPixel _ _ hfold
    refine ⟨⟨config.displayTransferCalls, log⟩, by rw [runDisplayTransfer_eq h, hfold]; rfl,
      ⟨fun a ha => ?_, fun a ha => ?_, fun a ha => ?_, fun a ha => ?_⟩⟩
    · obtain ⟨pixel, hpixel, ha⟩ := List.mem_flatMap.mp (hread ▸ ha)
      exact (hcalls a).1.mpr ((hpixels pixel hpixel).flushed a ha)
    · obtain ⟨pixel, hpixel, ha⟩ := List.mem_flatMap.mp (hwritten ▸ ha)
      exact (hcalls a).2.mpr ((hpixels pixel hpixel).invalidated a ha)
    · obtain ⟨pixel, hpixel, ha⟩ := List.mem_flatMap.mp (hread ▸ ha)
      exact (hpixels pixel hpixel).source a ha
    · obtain ⟨pixel, hpixel, ha⟩ := List.mem_flatMap.mp (hwritten ▸ ha)
      exact (hpixels pixel hpixel).destination a ha

theorem samples_pos : 0 < config.samples * config.srcBytesPerPixel := by
  refine Nat.mul_pos ?_ (bytesPerPixel_pos _)
  unfold samples
  split <;> decide

/-- A coherent pixel has its accesses below the limits. -/
theorem PixelCoherent.bounds (h : config.PassesDisplayTransfer src dst)
    (hpixel : PixelCoherent config src dst (x, y)) :
    word (config.srcLayout.offset x y) + config.samples * config.srcBytesPerPixel ≤
        min src.getSize config.inputSize ∧
      config.getPhysicalOutputAddress ≤
        config.dstAddr + word (config.dstLayout.offset x (config.outputY y)) ∧
      config.dstAddr + word (config.dstLayout.offset x (config.outputY y)) +
        config.dstBytesPerPixel ≤
          config.getPhysicalOutputAddress + min dst.getSize config.outputSize := by
  have hsource := address_getPhysicalRef h.source
  have hsrcEnd := (getSize_getPhysicalRef h.source).2
  have hdstEnd := (getSize_getPhysicalRef h.destination).2
  obtain ⟨-, ref, href, -⟩ := hpixel.fits
  have hinvalidated := hpixel.invalidated
  have hdestination := hpixel.destination
  rw [href] at hinvalidated hdestination
  have haddress := address_getPhysicalRef href
  have hflush := (forall_addresses samples_pos).mp hpixel.flushed
  have hread := (forall_addresses samples_pos).mp hpixel.source
  have hinvalidate := (forall_addresses (bytesPerPixel_pos config.outputFormat)).mp hinvalidated
  have hwrite := (forall_addresses (bytesPerPixel_pos config.outputFormat)).mp hdestination
  dsimp only at hflush hread hinvalidate hwrite
  rw [config.srcOffset_eq] at hflush hread
  rw [config.dstOffset_eq, haddress] at hinvalidate hwrite
  refine ⟨Nat.le_min.mpr ⟨by omega, by omega⟩, hinvalidate.1, ?_⟩
  rw [← Nat.add_min_add_left]
  exact Nat.le_min.mpr ⟨hdstEnd ▸ hwrite.2, hinvalidate.2⟩

/-- A pixel whose accesses are below the limits is coherent, if the output is not moved in front of
its region. -/
theorem pixelCoherent_of_bounds (h : config.PassesDisplayTransfer src dst)
    (hmoved : config.getPhysicalOutputAddress ≤ config.dstAddr)
    (hread : word (config.srcLayout.offset x y) + config.samples * config.srcBytesPerPixel ≤
      min src.getSize config.inputSize)
    (hwrite : word (config.dstLayout.offset x (config.outputY y)) +
      (config.dstAddr - config.getPhysicalOutputAddress + config.dstBytesPerPixel) ≤
        min dst.getSize config.outputSize) : PixelCoherent config src dst (x, y) := by
  have hsource := address_getPhysicalRef h.source
  obtain ⟨hsrcSize, hsrcEnd⟩ := getSize_getPhysicalRef h.source
  obtain ⟨hdstSize, hdstEnd⟩ := getSize_getPhysicalRef h.destination
  obtain ⟨hreadArea, hreadRegion⟩ := Nat.le_min.mp hread
  obtain ⟨hwriteArea, hwriteRegion⟩ := Nat.le_min.mp hwrite
  have href :=
    (@getPhysicalRef_add _ _ (config.dstAddr - config.getPhysicalOutputAddress)) h.destination
    (by omega)
  rw [Nat.add_sub_cancel' hmoved] at href
  have haddress := address_getPhysicalRef href
  have hsrcAddress := hsource
  unfold MemoryRef.getSize at hreadArea hwriteArea hsrcEnd hdstEnd
  have hwritten : config.written (getPhysicalRef config.dstAddr) (x, y) =
      addresses ⟨dst.area, dst.offset + (config.dstAddr -
        config.getPhysicalOutputAddress)⟩ (config.dstOffset x y) config.dstBytesPerPixel := by
    rw [href]
    rfl
  constructor
  · refine ⟨Or.inr ?_, _, href, Or.inr ?_⟩
    · rw [config.srcOffset_eq]
      dsimp only
      omega
    · rw [config.dstOffset_eq]
      dsimp only
      omega
  · refine (forall_addresses samples_pos).mpr ?_
    rw [config.srcOffset_eq]
    dsimp only
    omega
  · rw [hwritten]
    refine (forall_addresses (bytesPerPixel_pos _)).mpr ?_
    rw [config.dstOffset_eq, haddress]
    unfold dstBytesPerPixel at hwriteRegion
    omega
  · refine (forall_addresses samples_pos).mpr ?_
    rw [config.srcOffset_eq]
    dsimp only
    omega
  · rw [hwritten]
    refine (forall_addresses (bytesPerPixel_pos _)).mpr ?_
    rw [config.dstOffset_eq, haddress]
    unfold dstBytesPerPixel at hwriteArea
    omega

/-- The first pixel of the output lies at its start. -/
theorem dstLayout_zero : config.dstLayout.offset 0 0 = 0 := by
  unfold dstLayout
  split_ifs
  · rw [DisplayTransferConfig.tiled_offset]
    simp [getMortonOffset, mortonInterleave]
  · rw [DisplayTransferConfig.linear_offset]
    simp

/-- A transfer stays in the regions that the rasterizer was told if and only if its images fit. -/
theorem displayTransfer_iff (h : config.PassesDisplayTransfer src dst) :
    config.CoherentDisplayTransfer src dst ↔ config.FitsDisplayTransfer src dst := by
  have hsrcSize : min src.getSize config.inputSize ≤ 2 ^ 28 :=
    Nat.le_trans (Nat.min_le_left _ _)
      (Nat.le_trans (Nat.sub_le _ _) (size_getPhysicalRef h.source))
  have hdstSize : min dst.getSize config.outputSize ≤ 2 ^ 28 :=
    Nat.le_trans (Nat.min_le_left _ _)
      (Nat.le_trans (Nat.sub_le _ _) (size_getPhysicalRef h.destination))
  rw [coherent_iff_pixels h]
  rcases Nat.eq_zero_or_pos config.width with hwidth | hwidth
  · refine ⟨fun _ => .inl hwidth, fun _ pixel hpixel => ?_⟩
    have hx := (mem_pixels.mp hpixel).1
    omega
  rcases Nat.eq_zero_or_pos config.height with hheight | hheight
  · refine ⟨fun _ => .inr (.inl hheight), fun _ pixel hpixel => ?_⟩
    have hy := (mem_pixels.mp hpixel).2
    omega
  have hsrc := (@PixelLayout.within_iff _ _ _ (config.samples * config.srcBytesPerPixel)) hwidth
    hheight hsrcSize small_srcLayout
  have hdst := (@PixelLayout.within_iff _ _ _ (config.dstAddr - config.getPhysicalOutputAddress +
    config.dstBytesPerPixel)) hwidth hheight hdstSize small_dstLayout
  constructor
  · intro hpixels
    have hbounds := fun x (hx : x < config.width) y (hy : y < config.height) =>
      (hpixels (x, y) (mem_pixels.mpr ⟨hx, hy⟩)).bounds h
    have hmoved : config.getPhysicalOutputAddress ≤ config.dstAddr := by
      obtain ⟨hline, htwice⟩ := outputY_lt hheight
      have hfirst := (hbounds 0 hwidth _ hline).2.1
      rwa [htwice, dstLayout_zero] at hfirst
    refine .inr (.inr ⟨hsrc.mp fun x hx y hy => (hbounds x hx y hy).1, hmoved,
      hdst.mp fun x hx y hy => ?_⟩)
    obtain ⟨hline, htwice⟩ := outputY_lt hy
    have hlast := (hbounds x hx _ hline).2.2
    rw [htwice] at hlast
    omega
  · rintro (hzero | hzero | hfits) ⟨x, y⟩ hpixel
    · omega
    · omega
    · obtain ⟨hx, hy⟩ := mem_pixels.mp hpixel
      exact pixelCoherent_of_bounds h hfits.moved (hsrc.mpr hfits.source x hx y hy)
        (hdst.mpr hfits.destination x hx _ (outputY_lt hy).1)

end Coherence

end GbaStation.Rasterizer
