import GbaStation.Rasterizer.Color
import GbaStation.Rasterizer.PhysicalMemory

/-!
# Texture copies (`renderer_software/sw_blitter.cpp`, `pica/regs_external.h`)

A texture copy moves a number of bytes from lines of one width to lines of another, with gaps between
the lines on both sides. The rasterizer is told which regions are read and written before.
-/

namespace GbaStation.Rasterizer

open List (range map_congr_left mem_range mem_map)
open AccessLog (addresses store)

/-! ## Configurations -/

/-- `Pica::PixelFormat`. Other values stop the program in `BytesPerPixel`. -/
inductive TransferFormat where
  | rgba8 | rgb8 | rgb565 | rgb5a1 | rgba4
deriving DecidableEq, Repr

/-- `BytesPerPixel`. -/
def bytesPerPixel : TransferFormat → Nat
  | .rgba8 => 4
  | .rgb8 => 3
  | .rgb565 | .rgb5a1 | .rgba4 => 2

inductive ScalingMode where
  | noScale | scaleX | scaleXY | unknown
deriving DecidableEq, Repr

/-- The fields of a texture copy. -/
structure TextureCopyConfig where
  size : UInt32
  inputWidth : UInt16
  inputGap : UInt16
  outputWidth : UInt16
  outputGap : UInt16

structure DisplayTransferConfig where
  inputAddress : UInt32
  outputAddress : UInt32
  outputWidth : UInt16
  outputHeight : UInt16
  inputWidth : UInt16
  inputHeight : UInt16
  flipVertically : Bool
  inputLinear : Bool
  cropInputLines : Bool
  isTextureCopy : Bool
  dontSwizzle : Bool
  inputFormat : TransferFormat
  outputFormat : TransferFormat
  scaling : ScalingMode
  textureCopy : TextureCopyConfig

namespace DisplayTransferConfig

def getPhysicalInputAddress (config : DisplayTransferConfig) : Nat :=
  (config.inputAddress * 8).toNat

def getPhysicalOutputAddress (config : DisplayTransferConfig) : Nat :=
  (config.outputAddress * 8).toNat

end DisplayTransferConfig

/-! ## What the rasterizer is told -/

inductive RasterizerCall where
  | flushRegion (addr size : Nat)
  | invalidateRegion (addr size : Nat)
  | flushAndInvalidateRegion (addr size : Nat)

/-- The address is in a region that is flushed. -/
def RasterizerCall.Flushes (a : Nat) : RasterizerCall → Prop
  | flushRegion addr size => addr ≤ a ∧ a < addr + size
  | _ => False

/-- The address is in a region that is invalidated. -/
def RasterizerCall.Invalidates (a : Nat) : RasterizerCall → Prop
  | invalidateRegion addr size | flushAndInvalidateRegion addr size => addr ≤ a ∧ a < addr + size
  | flushRegion _ _ => False

/-- What a transfer does: the calls before it, and its accesses. -/
structure Transfer where
  calls : List RasterizerCall
  log : AccessLog

/-- The address is in the area. -/
def MemoryArea.Contains (area : MemoryArea) (a : Nat) : Prop :=
  area.start ≤ a ∧ a < area.start + area.size

/-- All that is read was flushed, all that is written was invalidated, and both lies in the areas of
the two addresses. -/
structure Transfer.Coherent (t : Transfer) (src dst : MemoryRef) : Prop where
  flushed : ∀ a ∈ t.log.readBytes, ∃ call ∈ t.calls, call.Flushes a
  invalidated : ∀ a ∈ t.log.writtenBytes, ∃ call ∈ t.calls, call.Invalidates a
  source : ∀ a ∈ t.log.readBytes, src.area.Contains a
  destination : ∀ a ∈ t.log.writtenBytes, dst.area.Contains a

/-! ## The loop -/

/-- The widths and gaps of a copy. -/
structure CopyLines where
  inputWidth : Nat
  inputGap : Nat
  outputWidth : Nat
  outputGap : Nat
  input_pos : 0 < inputWidth
  output_pos : 0 < outputWidth

/-- What changes in the loop: the two pointers, and the rests of the two lines and of the copy. -/
structure CopyState where
  srcOffset : Nat
  dstOffset : Nat
  remainingInput : Nat
  remainingOutput : Nat
  remainingSize : Nat
  input_pos : 0 < remainingInput
  output_pos : 0 < remainingOutput

namespace CopyState

def copySize (s : CopyState) : Nat := min (min s.remainingInput s.remainingOutput) s.remainingSize

/-- The rest of a line behind a copy, which is that of the next line if there is none. -/
def nextRest (width rest copied : Nat) : Nat := if rest - copied = 0 then width else rest - copied

theorem nextRest_pos {width rest copied : Nat} (h : 0 < width) : 0 < nextRest width rest copied := by
  unfold nextRest
  split_ifs
  · exact h
  · omega

/-- The pointers and the rests behind a copy. -/
def advance (lines : CopyLines) (s : CopyState) : CopyState where
  srcOffset := s.srcOffset + s.copySize +
    if s.remainingInput - s.copySize = 0 then lines.inputGap else 0
  dstOffset := s.dstOffset + s.copySize +
    if s.remainingOutput - s.copySize = 0 then lines.outputGap else 0
  remainingInput := nextRest lines.inputWidth s.remainingInput s.copySize
  remainingOutput := nextRest lines.outputWidth s.remainingOutput s.copySize
  remainingSize := s.remainingSize - s.copySize
  input_pos := nextRest_pos lines.input_pos
  output_pos := nextRest_pos lines.output_pos

theorem copySize_pos {s : CopyState} (h : 0 < s.remainingSize) : 0 < s.copySize := by
  have hinput := s.input_pos
  have houtput := s.output_pos
  unfold copySize
  omega

theorem copySize_le (s : CopyState) : s.copySize ≤ s.remainingInput ∧
    s.copySize ≤ s.remainingOutput ∧ s.copySize ≤ s.remainingSize := by
  unfold copySize
  omega

end CopyState

/-- `memcpy`. -/
def copyBytes (src dst : MemoryRef) (srcOffset dstOffset size : Nat) (log : AccessLog) :
    Except MemoryFault AccessLog := do
  let (bytes, log) ← log.load src srcOffset size
  log.store dst dstOffset bytes

/-- The loop of `TextureCopy`. -/
def copyLoop (src dst : MemoryRef) (lines : CopyLines) (s : CopyState) (log : AccessLog) :
    Except MemoryFault AccessLog :=
  if 0 < s.remainingSize then
    match copyBytes src dst s.srcOffset s.dstOffset s.copySize log with
    | .ok log => copyLoop src dst lines (s.advance lines) log
    | .error e => .error e
  else .ok log
termination_by s.remainingSize
decreasing_by
  have hpos := CopyState.copySize_pos ‹_›
  show s.remainingSize - s.copySize < s.remainingSize
  omega

namespace TextureCopyConfig

/-- `remaining_size` before the loop. -/
def alignedSize (config : TextureCopyConfig) : Nat := config.size.toNat / 16 * 16

def inputGapBytes (config : TextureCopyConfig) : Nat := config.inputGap.toNat * 16

def outputGapBytes (config : TextureCopyConfig) : Nat := config.outputGap.toNat * 16

/-- Zero gap means contiguous input even if the width is zero. -/
def inputWidthBytes (config : TextureCopyConfig) : Nat :=
  if config.inputGapBytes = 0 then config.alignedSize else config.inputWidth.toNat * 16

/-- Zero gap means contiguous output even if the width is zero. -/
def outputWidthBytes (config : TextureCopyConfig) : Nat :=
  if config.outputGapBytes = 0 then config.alignedSize else config.outputWidth.toNat * 16

def contiguousInputSize (config : TextureCopyConfig) : Nat :=
  word (config.size.toNat / config.inputWidthBytes *
    (config.inputWidthBytes + config.inputGapBytes))

def contiguousOutputSize (config : TextureCopyConfig) : Nat :=
  word (config.size.toNat / config.outputWidthBytes *
    (config.outputWidthBytes + config.outputGapBytes))

end TextureCopyConfig

/-- What the rasterizer is told. Only output with a gap needs to be flushed. -/
def DisplayTransferConfig.textureCopyCalls (config : DisplayTransferConfig) : List RasterizerCall :=
  [.flushRegion config.getPhysicalInputAddress config.textureCopy.contiguousInputSize,
    if config.textureCopy.outputGapBytes ≠ 0 then
      .flushAndInvalidateRegion config.getPhysicalOutputAddress
        config.textureCopy.contiguousOutputSize
    else .invalidateRegion config.getPhysicalOutputAddress config.textureCopy.contiguousOutputSize]

/-- `SwBlitter::TextureCopy`, where nothing is done if a check fails. The memory is that behind the
calls of the rasterizer. -/
def DisplayTransferConfig.runTextureCopy (config : DisplayTransferConfig) (mem : GuestMemory) :
    Except MemoryFault (Option Transfer) :=
  let copy := config.textureCopy
  match getPhysicalRef config.getPhysicalInputAddress,
      getPhysicalRef config.getPhysicalOutputAddress with
  | some src, some dst =>
    if copy.alignedSize = 0 then .ok none
    else if h : 0 < copy.inputWidthBytes ∧ 0 < copy.outputWidthBytes then do
      let lines : CopyLines := ⟨copy.inputWidthBytes, copy.inputGapBytes, copy.outputWidthBytes,
        copy.outputGapBytes, h.1, h.2⟩
      let log ← copyLoop src dst lines
        ⟨0, 0, copy.inputWidthBytes, copy.outputWidthBytes, copy.alignedSize, h.1, h.2⟩ { mem := mem }
      return some ⟨config.textureCopyCalls, log⟩
    else .ok none
  | _, _ => .ok none

/-! ## Lines -/

/-- Where a byte lies, from the start: each line before it has a gap. -/
def linePosition (width gap j : Nat) : Nat := j + j / width * gap

section Lines

variable {width gap j k copied : Nat}

theorem linePosition_add (h : k < width - j % width) :
    linePosition width gap (j + k) = linePosition width gap j + k := by
  have hwidth : 0 < width := by omega
  have hrest : (j % width + k) / width = 0 := Nat.div_eq_of_lt (by omega)
  have hdiv : (j + k) / width = j / width := by
    conv_lhs => rw [← Nat.div_add_mod j width]
    rw [Nat.add_assoc, Nat.mul_add_div hwidth, hrest, Nat.add_zero]
  unfold linePosition
  rw [hdiv]
  omega

theorem linePosition_mono {i : Nat} (h : i ≤ j) :
    linePosition width gap i ≤ linePosition width gap j :=
  Nat.add_le_add h (Nat.mul_le_mul_right gap (Nat.div_le_div_right h))

/-- The rest of the line of a byte. -/
theorem add_mod_line (hwidth : 0 < width) (h : copied ≤ width - j % width) :
    (j + copied) / width = j / width + (if width - j % width - copied = 0 then 1 else 0) ∧
      (j + copied) % width = if width - j % width - copied = 0 then 0 else j % width + copied := by
  have hmod := Nat.mod_lt j hwidth
  have hsplit := Nat.div_add_mod j width
  split_ifs with hend
  · have hline : j + copied = width * (j / width + 1) := by
      rw [Nat.mul_succ]
      omega
    rw [hline, Nat.mul_div_cancel_left _ hwidth, Nat.mul_mod_right]
    exact ⟨rfl, rfl⟩
  · have hline : j + copied = width * (j / width) + (j % width + copied) := by omega
    have hlt : j % width + copied < width := by omega
    rw [hline, Nat.mul_add_div hwidth, Nat.mul_add_mod, Nat.div_eq_of_lt hlt, Nat.mod_eq_of_lt hlt]
    exact ⟨rfl, rfl⟩

/-- A pointer and the rest of its line behind a copy. -/
theorem advance_line (hwidth : 0 < width) (h : copied ≤ width - j % width) :
    linePosition width gap j + copied + (if width - j % width - copied = 0 then gap else 0) =
        linePosition width gap (j + copied) ∧
      CopyState.nextRest width (width - j % width) copied = width - (j + copied) % width := by
  obtain ⟨hdiv, hmod⟩ := add_mod_line hwidth h
  unfold linePosition CopyState.nextRest
  rw [hdiv, hmod]
  split_ifs with hend
  · rw [Nat.succ_mul]
    exact ⟨by omega, rfl⟩
  · simp only [Nat.add_zero]
    exact ⟨by omega, by omega⟩

end Lines

/-! ## Runs of the loop -/

section Runs

variable {mem : GuestMemory} {src dst : MemoryRef} {lines : CopyLines} {size j : Nat}
  {s : CopyState} {log log' : AccessLog}

/-- Where byte `j` is read. -/
def CopyLines.source (lines : CopyLines) (j : Nat) : Nat :=
  linePosition lines.inputWidth lines.inputGap j

/-- Where byte `j` is written. -/
def CopyLines.target (lines : CopyLines) (j : Nat) : Nat :=
  linePosition lines.outputWidth lines.outputGap j

/-- The bytes that are written are those that are read, if none of them is overwritten, and the others
remain. -/
structure Moves (mem : GuestMemory) (log : AccessLog) : Prop where
  kept : ∀ a ∉ log.writtenBytes, log.mem a = mem a
  moved : (∀ a ∈ log.readBytes, a ∉ log.writtenBytes) →
    log.writtenBytes.map log.mem = log.readBytes.map mem

/-- The first `j` bytes are copied. -/
structure Copied (mem : GuestMemory) (src dst : MemoryRef) (lines : CopyLines) (size j : Nat)
    (s : CopyState) (log : AccessLog) : Prop where
  srcOffset : s.srcOffset = lines.source j
  dstOffset : s.dstOffset = lines.target j
  remainingInput : s.remainingInput = lines.inputWidth - j % lines.inputWidth
  remainingOutput : s.remainingOutput = lines.outputWidth - j % lines.outputWidth
  remainingSize : s.remainingSize = size - j
  readBytes : log.readBytes = (range j).map fun i => src.address + lines.source i
  writtenBytes : log.writtenBytes = (range j).map fun i => dst.address + lines.target i
  moves : Moves mem log

/-- Byte `j` is read and written inside of the two arrays. -/
def CopyLines.Fits (lines : CopyLines) (src dst : MemoryRef) (j : Nat) : Prop :=
  src.offset + lines.source j < src.area.size ∧ dst.offset + lines.target j < dst.area.size

/-- The bytes of one copy follow those before it. -/
theorem append_addresses {width gap count : Nat} {ref : MemoryRef}
    (h : count ≤ width - j % width) :
    ((range j).map fun i => ref.address + linePosition width gap i) ++
        addresses ref (linePosition width gap j) count =
      (range (j + count)).map fun i => ref.address + linePosition width gap i := by
  rw [List.range_add, List.map_append, List.map_map]
  refine congrArg _ (map_congr_left fun k hk => ?_)
  have hlt := mem_range.mp hk
  rw [Function.comp_apply, linePosition_add (by omega), Nat.add_assoc]

theorem inside_iff {width gap count : Nat} {ref : MemoryRef} (hpos : 0 < count)
    (h : count ≤ width - j % width) : ref.Inside (linePosition width gap j) count ↔
      ref.offset + linePosition width gap (j + count - 1) < ref.area.size := by
  have hlast : linePosition width gap (j + count - 1) = linePosition width gap j + (count - 1) := by
    rw [Nat.add_sub_assoc hpos]
    exact linePosition_add (by omega)
  rw [hlast]
  unfold MemoryRef.Inside
  omega

theorem copyBytes_ok {srcOffset dstOffset count : Nat} (hsource : src.Inside srcOffset count)
    (htarget : dst.Inside dstOffset count) (log : AccessLog) :
    ∃ log', copyBytes src dst srcOffset dstOffset count log = .ok log' := by
  rw [copyBytes, AccessLog.load_of_inside hsource]
  obtain ⟨mem, hstore⟩ := (@AccessLog.store_of_inside { log with
    readBytes := log.readBytes ++ addresses src srcOffset count } dst dstOffset ((range count).map fun i => log.mem (src.address + srcOffset + i)))
    (by simpa using htarget)
  exact ⟨_, hstore⟩

theorem of_copyBytes {srcOffset dstOffset count : Nat}
    (h : copyBytes src dst srcOffset dstOffset count log = .ok log') :
    src.Inside srcOffset count ∧ dst.Inside dstOffset count ∧
      log'.readBytes = log.readBytes ++ addresses src srcOffset count ∧
      log'.writtenBytes = log.writtenBytes ++ addresses dst dstOffset count ∧
      (∀ a ∉ addresses dst dstOffset count, log'.mem a = log.mem a) ∧
      (addresses dst dstOffset count).map log'.mem =
        (addresses src srcOffset count).map log.mem := by
  rw [copyBytes] at h
  by_cases hsource : src.Inside srcOffset count
  · rw [AccessLog.load_of_inside hsource] at h
    change store _ _ _ _ = _ at h
    by_cases htarget : dst.Inside dstOffset
        ((range count).map fun i => log.mem (src.address + srcOffset + i)).length
    · rw [store, MemoryRef.write_of_inside htarget] at h
      obtain rfl := Except.ok.inj h
      rw [List.length_map, List.length_range] at htarget
      simp only [addresses, List.length_map, List.length_range, List.map_map, mem_map,
        mem_range, not_exists, not_and]
      refine ⟨hsource, htarget, trivial, trivial, fun a ha => if_neg fun hin => ?_,
        map_congr_left fun i hi => ?_⟩
      · exact ha (a - (dst.address + dstOffset)) (by omega) (by omega)
      · have hlt := mem_range.mp hi
        simp [hlt]
    · rw [AccessLog.store_of_not_inside htarget] at h
      cases h
  · rw [AccessLog.load_of_not_inside hsource] at h
    cases h

/-- One more copy, where nothing was written yet. -/
theorem Moves.copyBytes {srcOffset dstOffset count : Nat} (h : Moves mem log)
    (hcopy : copyBytes src dst srcOffset dstOffset count log = .ok log')
    (hnew : ∀ a ∈ log.writtenBytes, a ∉ addresses dst dstOffset count) :
    Moves mem log' := by
  obtain ⟨-, -, hread, hwritten, hkept, hmoved⟩ := of_copyBytes hcopy
  constructor
  · intro a ha
    rw [hwritten, List.mem_append, not_or] at ha
    rw [hkept a ha.2, h.kept a ha.1]
  · intro hdisjoint
    rw [hread, hwritten] at hdisjoint
    have hbefore := h.moved fun a ha hwritten => hdisjoint a (List.mem_append_left _ ha)
      (List.mem_append_left _ hwritten)
    rw [hread, hwritten, List.map_append, List.map_append, hmoved, ← hbefore]
    congr 1
    · exact map_congr_left fun a ha => hkept a (hnew a ha)
    · exact map_congr_left fun a ha => h.kept a fun hwritten =>
        hdisjoint a (List.mem_append_right _ ha) (List.mem_append_left _ hwritten)

/-- One copy is done if and only if its last byte fits. -/
theorem Copied.copyBytes_iff (h : Copied mem src dst lines size j s log) (hrest : 0 < s.remainingSize) :
    (∃ log', copyBytes src dst s.srcOffset s.dstOffset s.copySize log = .ok log') ↔
      lines.Fits src dst (j + s.copySize - 1) := by
  have hpos := CopyState.copySize_pos hrest
  obtain ⟨hinput, houtput, -⟩ := s.copySize_le
  have hsource := (@inside_iff _ _ lines.inputGap _ src) hpos (h.remainingInput ▸ hinput)
  have htarget := (@inside_iff _ _ lines.outputGap _ dst) hpos (h.remainingOutput ▸ houtput)
  rw [h.srcOffset, h.dstOffset]
  constructor
  · rintro ⟨log', hcopy⟩
    obtain ⟨hsrc, hdst, -⟩ := of_copyBytes hcopy
    exact ⟨hsource.mp hsrc, htarget.mp hdst⟩
  · rintro ⟨hsrc, hdst⟩
    exact copyBytes_ok (hsource.mpr hsrc) (htarget.mpr hdst) log

/-- Behind one copy its bytes are copied, too. -/
theorem Copied.step (h : Copied mem src dst lines size j s log)
    (hcopy : copyBytes src dst s.srcOffset s.dstOffset s.copySize log = .ok log') :
    Copied mem src dst lines size (j + s.copySize) (s.advance lines) log' := by
  obtain ⟨-, -, hread, hwritten, -⟩ := of_copyBytes hcopy
  obtain ⟨hinput, houtput, -⟩ := s.copySize_le
  rw [h.remainingInput] at hinput
  rw [h.remainingOutput] at houtput
  obtain ⟨hsrcOffset, hsrcRest⟩ := (@advance_line _ lines.inputGap) lines.input_pos hinput
  obtain ⟨hdstOffset, hdstRest⟩ := (@advance_line _ lines.outputGap) lines.output_pos houtput
  constructor
  · show s.srcOffset + s.copySize + (if s.remainingInput - s.copySize = 0 then _ else 0) = _
    rw [h.srcOffset, h.remainingInput]
    exact hsrcOffset
  · show s.dstOffset + s.copySize + (if s.remainingOutput - s.copySize = 0 then _ else 0) = _
    rw [h.dstOffset, h.remainingOutput]
    exact hdstOffset
  · show CopyState.nextRest _ s.remainingInput _ = _
    rw [h.remainingInput]
    exact hsrcRest
  · show CopyState.nextRest _ s.remainingOutput _ = _
    rw [h.remainingOutput]
    exact hdstRest
  · show s.remainingSize - s.copySize = size - (j + s.copySize)
    rw [h.remainingSize, Nat.sub_sub]
  · rw [hread, h.readBytes, h.srcOffset]
    exact append_addresses hinput
  · rw [hwritten, h.writtenBytes, h.dstOffset]
    exact append_addresses houtput
  · refine h.moves.copyBytes hcopy fun a ha hnew => ?_
    rw [h.writtenBytes] at ha
    obtain ⟨i, hi, rfl⟩ := mem_map.mp ha
    obtain ⟨k, -, hk⟩ := mem_map.mp hnew
    have hlt : lines.target i < lines.target j := Nat.add_lt_add_of_lt_of_le (mem_range.mp hi)
      (Nat.mul_le_mul_right _ (Nat.div_le_div_right (Nat.le_of_lt (mem_range.mp hi))))
    rw [h.dstOffset] at hk
    omega

/-- A byte that fits lies behind all that come before it. -/
theorem CopyLines.Fits.of_le {i : Nat} (h : lines.Fits src dst j) (hle : i ≤ j) :
    lines.Fits src dst i :=
  ⟨Nat.lt_of_le_of_lt (Nat.add_le_add_left (linePosition_mono hle) _) h.1,
    Nat.lt_of_le_of_lt (Nat.add_le_add_left (linePosition_mono hle) _) h.2⟩

/-- The loop ends with all bytes copied if the last one fits. -/
theorem Copied.copyLoop (h : Copied mem src dst lines size j s log) (hle : j ≤ size)
    (hfits : lines.Fits src dst (size - 1)) : ∃ s' log',
      copyLoop src dst lines s log = .ok log' ∧ Copied mem src dst lines size size s' log' := by
  induction hn : s.remainingSize using Nat.strongRecOn generalizing j s log with
  | _ n ih =>
    obtain ⟨-, -, hsize⟩ := s.copySize_le
    rw [GbaStation.Rasterizer.copyLoop]
    split_ifs with hrest
    · have hpos := CopyState.copySize_pos hrest
      have hremaining := h.remainingSize
      obtain ⟨log', hcopy⟩ := (h.copyBytes_iff hrest).mpr (hfits.of_le (by omega))
      rw [hcopy]
      exact ih (s.remainingSize - s.copySize) (by omega) (h.step hcopy) (by omega) rfl
    · have hend := h.remainingSize
      obtain rfl : j = size := by omega
      exact ⟨s, log, rfl, h⟩

/-- A loop that ends has copied its last byte inside of the arrays. -/
theorem Copied.fits (h : Copied mem src dst lines size j s log) (hlt : j < size)
    (hloop : GbaStation.Rasterizer.copyLoop src dst lines s log = .ok log') :
    lines.Fits src dst (size - 1) := by
  induction hn : s.remainingSize using Nat.strongRecOn generalizing j s log with
  | _ n ih =>
    have hremaining := h.remainingSize
    obtain ⟨-, -, hsize⟩ := s.copySize_le
    have hrest : 0 < s.remainingSize := by omega
    have hpos := CopyState.copySize_pos hrest
    rw [GbaStation.Rasterizer.copyLoop, if_pos hrest] at hloop
    cases hcopy : copyBytes src dst s.srcOffset s.dstOffset s.copySize log with
    | error e =>
      rw [hcopy] at hloop
      cases hloop
    | ok log₁ =>
      rw [hcopy] at hloop
      rcases Nat.lt_or_ge (j + s.copySize) size with hnext | hlast
      · exact ih (s.remainingSize - s.copySize) (by omega) (h.step hcopy) hnext hloop rfl
      · have hfits := (h.copyBytes_iff hrest).mp ⟨log₁, hcopy⟩
        have heq : j + s.copySize - 1 = size - 1 := by omega
        rwa [heq] at hfits

end Runs

/-! ## Regions -/

section Regions

variable {width gap size : Nat}

theorem linePosition_eq (width gap j : Nat) :
    linePosition width gap j = j / width * (width + gap) + j % width := by
  have hsplit := Nat.div_add_mod' j width
  rw [linePosition, Nat.mul_add]
  omega

/-- The bits of the size that are ignored are no line. -/
theorem div_alignedSize (hwidth : 16 ∣ width) : size / 16 * 16 / width = size / width := by
  obtain ⟨m, rfl⟩ := hwidth
  rw [← Nat.div_div_eq_div_mul, ← Nat.div_div_eq_div_mul, Nat.mul_div_cancel _ (by decide)]

/-- Whole lines lie in the region of the rasterizer. -/
theorem linePosition_lt_region (hwidth : 16 ∣ width) (hdvd : width ∣ size / 16 * 16)
    (hsize : 0 < size / 16 * 16) (hgap : gap < 2 ^ 20)
    (hlast : linePosition width gap (size / 16 * 16 - 1) < 2 ^ 28) {j : Nat}
    (hj : j < size / 16 * 16) : linePosition width gap j <
      word (size / width * (width + gap)) := by
  rw [← div_alignedSize hwidth]
  generalize size / 16 * 16 = count at hdvd hsize hlast hj
  obtain ⟨n, rfl⟩ := hdvd
  have hpos : 0 < width := Nat.pos_of_mul_pos_right hsize
  have hn : 0 < n := Nat.pos_of_mul_pos_left hsize
  have hbefore : (width * n - 1) / width = n - 1 := by
    obtain ⟨m, rfl⟩ := Nat.exists_eq_succ_of_ne_zero (Nat.ne_of_gt hn)
    have hlastLine : width * m.succ - 1 = width * m + (width - 1) := by
      rw [Nat.mul_succ]
      omega
    rw [hlastLine, Nat.mul_add_div hpos, Nat.div_eq_of_lt (by omega)]
    rfl
  have hindex : j / width ≤ n - 1 := by
    rw [← hbefore]
    exact Nat.div_le_div_right (by omega)
  have hgaps : j / width * gap ≤ (n - 1) * gap := Nat.mul_le_mul_right gap hindex
  have hlines : n * gap = (n - 1) * gap + gap := by
    rw [← Nat.succ_mul, Nat.succ_eq_add_one, Nat.sub_add_cancel hn]
  unfold linePosition at hlast ⊢
  rw [hbefore] at hlast
  rw [Nat.mul_div_cancel_left _ hpos, Nat.mul_add, Nat.mul_comm n width, word_of_lt (by omega)]
  omega

/-- A line that is not whole begins behind the region. -/
theorem dvd_of_region (hwidth : 16 ∣ width) (h : ∀ j, j < size / 16 * 16 →
    linePosition width gap j < word (size / width * (width + gap))) : width ∣ size / 16 * 16 := by
  rw [← div_alignedSize hwidth] at h
  generalize size / 16 * 16 = count at h
  by_contra hdvd
  have hsplit := Nat.div_add_mod' count width
  have hline := h (count / width * width) (by omega)
  have hregion := word_le (count / width * (width + gap))
  have hindex : count / width * width / width = count / width := by
    rcases Nat.eq_zero_or_pos width with rfl | hpos
    · rw [Nat.div_zero, Nat.div_zero]
    · exact Nat.mul_div_cancel _ hpos
  rw [linePosition_eq, Nat.mul_mod_left, hindex] at hline
  omega

end Regions

/-! ## Copies that stay in their regions -/

namespace DisplayTransferConfig

/-- The checks of `TextureCopy`. -/
structure PassesTextureCopy (config : DisplayTransferConfig) (src dst : MemoryRef) : Prop where
  source : getPhysicalRef config.getPhysicalInputAddress = some src
  destination : getPhysicalRef config.getPhysicalOutputAddress = some dst
  size : 0 < config.textureCopy.alignedSize
  input : 0 < config.textureCopy.inputWidthBytes
  output : 0 < config.textureCopy.outputWidthBytes

/-- The copy ends, and it is coherent: byte `j` is read from line `j / input_width` of the input and
written to line `j / output_width` of the output, and is there in the end. -/
def CoherentTextureCopy (config : DisplayTransferConfig) (src dst : MemoryRef) : Prop :=
  ∀ mem, ∃ t, config.runTextureCopy mem = .ok (some t) ∧ t.Coherent src dst ∧
    t.log.readBytes = (range config.textureCopy.alignedSize).map (fun j =>
      config.getPhysicalInputAddress + (j / config.textureCopy.inputWidthBytes *
        (config.textureCopy.inputWidthBytes + config.textureCopy.inputGapBytes) +
          j % config.textureCopy.inputWidthBytes)) ∧
    t.log.writtenBytes = (range config.textureCopy.alignedSize).map (fun j =>
      config.getPhysicalOutputAddress + (j / config.textureCopy.outputWidthBytes *
        (config.textureCopy.outputWidthBytes + config.textureCopy.outputGapBytes) +
          j % config.textureCopy.outputWidthBytes)) ∧ Moves mem t.log

/-- The lines are whole, and the last byte of each side lies in its area. -/
structure FitsTextureCopy (config : DisplayTransferConfig) (src dst : MemoryRef) : Prop where
  input : config.textureCopy.inputWidthBytes ∣ config.textureCopy.alignedSize
  output : config.textureCopy.outputWidthBytes ∣ config.textureCopy.alignedSize
  source : linePosition config.textureCopy.inputWidthBytes config.textureCopy.inputGapBytes
    (config.textureCopy.alignedSize - 1) < src.getSize
  destination : linePosition config.textureCopy.outputWidthBytes config.textureCopy.outputGapBytes
    (config.textureCopy.alignedSize - 1) < dst.getSize

end DisplayTransferConfig

section Coherence

variable {config : DisplayTransferConfig} {src dst : MemoryRef}

theorem dvd_inputWidthBytes (copy : TextureCopyConfig) : 16 ∣ copy.inputWidthBytes := by
  unfold TextureCopyConfig.inputWidthBytes TextureCopyConfig.alignedSize
  split_ifs
  · exact Nat.dvd_mul_left 16 _
  · exact Nat.dvd_mul_left 16 _

theorem dvd_outputWidthBytes (copy : TextureCopyConfig) : 16 ∣ copy.outputWidthBytes := by
  unfold TextureCopyConfig.outputWidthBytes TextureCopyConfig.alignedSize
  split_ifs
  · exact Nat.dvd_mul_left 16 _
  · exact Nat.dvd_mul_left 16 _

/-- The lines of a copy that passes the checks. -/
def DisplayTransferConfig.PassesTextureCopy.lines (h : config.PassesTextureCopy src dst) :
    CopyLines :=
  ⟨config.textureCopy.inputWidthBytes, config.textureCopy.inputGapBytes,
    config.textureCopy.outputWidthBytes, config.textureCopy.outputGapBytes, h.input, h.output⟩

/-- The state in front of the loop. -/
def DisplayTransferConfig.PassesTextureCopy.start (h : config.PassesTextureCopy src dst) :
    CopyState :=
  ⟨0, 0, config.textureCopy.inputWidthBytes, config.textureCopy.outputWidthBytes,
    config.textureCopy.alignedSize, h.input, h.output⟩

theorem runTextureCopy_eq (h : config.PassesTextureCopy src dst) (mem : GuestMemory) :
    config.runTextureCopy mem = (copyLoop src dst h.lines h.start { mem := mem }).map fun log =>
      some ⟨config.textureCopyCalls, log⟩ := by
  unfold DisplayTransferConfig.runTextureCopy
  rw [h.source, h.destination]
  dsimp only
  rw [if_neg (Nat.ne_of_gt h.size), dif_pos ⟨h.input, h.output⟩]
  rfl

theorem copied_start (h : config.PassesTextureCopy src dst) (mem : GuestMemory) :
    Copied mem src dst h.lines config.textureCopy.alignedSize 0 h.start { mem := mem } := by
  constructor
  · show 0 = linePosition _ _ 0
    rw [linePosition, Nat.zero_div, Nat.zero_mul]
  · show 0 = linePosition _ _ 0
    rw [linePosition, Nat.zero_div, Nat.zero_mul]
  · rw [Nat.zero_mod]
    rfl
  · rw [Nat.zero_mod]
    rfl
  · rfl
  · rfl
  · rfl
  · exact ⟨fun _ _ => rfl, fun _ => rfl⟩

/-- The last byte of a side is in the array. -/
theorem fits_iff (h : config.PassesTextureCopy src dst) :
    h.lines.Fits src dst (config.textureCopy.alignedSize - 1) ↔
      linePosition config.textureCopy.inputWidthBytes config.textureCopy.inputGapBytes
          (config.textureCopy.alignedSize - 1) < src.getSize ∧
        linePosition config.textureCopy.outputWidthBytes config.textureCopy.outputGapBytes
          (config.textureCopy.alignedSize - 1) < dst.getSize := by
  unfold CopyLines.Fits MemoryRef.getSize
  show src.offset + linePosition config.textureCopy.inputWidthBytes
      config.textureCopy.inputGapBytes (config.textureCopy.alignedSize - 1) < _ ∧
    dst.offset + linePosition config.textureCopy.outputWidthBytes
      config.textureCopy.outputGapBytes (config.textureCopy.alignedSize - 1) < _ ↔ _
  constructor
  · rintro ⟨hinput, houtput⟩
    exact ⟨by omega, by omega⟩
  · rintro ⟨hinput, houtput⟩
    exact ⟨by omega, by omega⟩

/-- Which addresses the calls flush. -/
theorem flushes_iff {a : Nat} : (∃ call ∈ config.textureCopyCalls, call.Flushes a) ↔
    config.getPhysicalInputAddress ≤ a ∧
      a < config.getPhysicalInputAddress + config.textureCopy.contiguousInputSize := by
  unfold DisplayTransferConfig.textureCopyCalls
  split_ifs
  · simp [RasterizerCall.Flushes]
  · simp [RasterizerCall.Flushes]

/-- Which addresses the calls invalidate. -/
theorem invalidates_iff {a : Nat} : (∃ call ∈ config.textureCopyCalls, call.Invalidates a) ↔
    config.getPhysicalOutputAddress ≤ a ∧
      a < config.getPhysicalOutputAddress + config.textureCopy.contiguousOutputSize := by
  unfold DisplayTransferConfig.textureCopyCalls
  split_ifs
  · simp [RasterizerCall.Invalidates]
  · simp [RasterizerCall.Invalidates]

/-- The bytes of one side lie in its area. -/
theorem contains_of_lt_getSize {address offset : Nat} {ref : MemoryRef}
    (href : getPhysicalRef address = some ref) (h : offset < ref.getSize) :
    ref.area.Contains (address + offset) := by
  obtain ⟨hoffset, hend⟩ := getSize_getPhysicalRef href
  have haddress := address_getPhysicalRef href
  unfold MemoryRef.address at haddress
  exact ⟨by omega, by omega⟩

/-- A copy stays in the regions that the rasterizer was told if and only if its lines are whole and
both sides lie in their areas. -/
theorem textureCopy_iff (h : config.PassesTextureCopy src dst) :
    config.CoherentTextureCopy src dst ↔ config.FitsTextureCopy src dst := by
  have hsrc := address_getPhysicalRef h.source
  have hdst := address_getPhysicalRef h.destination
  constructor
  · intro hcoherent
    obtain ⟨t, hrun, hregions, hread, hwritten, -⟩ := hcoherent fun _ => 0
    rw [runTextureCopy_eq h] at hrun
    cases hloop : copyLoop src dst h.lines h.start { mem := fun _ => 0 } with
    | error e =>
      rw [hloop] at hrun
      cases hrun
    | ok log =>
      rw [hloop] at hrun
      obtain rfl := Option.some.inj (Except.ok.inj hrun)
      obtain ⟨hsource, hdestination⟩ :=
        (fits_iff h).mp ((copied_start h fun _ => 0).fits h.size hloop)
      refine ⟨(@dvd_of_region _ config.textureCopy.inputGapBytes) (dvd_inputWidthBytes _)
          fun j hj => ?_,
        (@dvd_of_region _ config.textureCopy.outputGapBytes) (dvd_outputWidthBytes _)
          fun j hj => ?_, hsource, hdestination⟩
      · have hmem := hregions.flushed _ (hread ▸ List.mem_map_of_mem (mem_range.mpr hj))
        have hregion := (flushes_iff.mp hmem).2
        rw [linePosition_eq]
        exact Nat.lt_of_add_lt_add_left hregion
      · have hmem := hregions.invalidated _ (hwritten ▸ List.mem_map_of_mem (mem_range.mpr hj))
        have hregion := (invalidates_iff.mp hmem).2
        rw [linePosition_eq]
        exact Nat.lt_of_add_lt_add_left hregion
  · intro hfits mem
    obtain ⟨s', log, hloop, hcopied⟩ := (copied_start h mem).copyLoop (Nat.zero_le _)
      ((fits_iff h).mpr ⟨hfits.source, hfits.destination⟩)
    have hread := hcopied.readBytes
    have hwritten := hcopied.writtenBytes
    rw [hsrc] at hread
    rw [hdst] at hwritten
    have hinputGap : config.textureCopy.inputGapBytes < 2 ^ 20 := by
      have hlt := config.textureCopy.inputGap.toNat_lt
      unfold TextureCopyConfig.inputGapBytes
      omega
    have houtputGap : config.textureCopy.outputGapBytes < 2 ^ 20 := by
      have hlt := config.textureCopy.outputGap.toNat_lt
      unfold TextureCopyConfig.outputGapBytes
      omega
    have hsourceRoom := Nat.lt_of_lt_of_le hfits.source
      (Nat.le_trans (Nat.sub_le _ _) (size_getPhysicalRef h.source))
    have hdestinationRoom := Nat.lt_of_lt_of_le hfits.destination
      (Nat.le_trans (Nat.sub_le _ _) (size_getPhysicalRef h.destination))
    refine ⟨⟨config.textureCopyCalls, log⟩, by rw [runTextureCopy_eq h, hloop]; rfl,
      ⟨fun a ha => ?_, fun a ha => ?_, fun a ha => ?_, fun a ha => ?_⟩, ?_, ?_, hcopied.moves⟩
    · rw [hread] at ha
      obtain ⟨j, hj, rfl⟩ := mem_map.mp ha
      exact flushes_iff.mpr ⟨by omega, Nat.add_lt_add_left (linePosition_lt_region
        (dvd_inputWidthBytes _) hfits.input h.size hinputGap hsourceRoom (mem_range.mp hj)) _⟩
    · rw [hwritten] at ha
      obtain ⟨j, hj, rfl⟩ := mem_map.mp ha
      exact invalidates_iff.mpr ⟨by omega, Nat.add_lt_add_left (linePosition_lt_region
        (dvd_outputWidthBytes _) hfits.output h.size houtputGap hdestinationRoom
          (mem_range.mp hj)) _⟩
    · rw [hread] at ha
      obtain ⟨j, hj, rfl⟩ := mem_map.mp ha
      have hlt := mem_range.mp hj
      exact contains_of_lt_getSize h.source
        (Nat.lt_of_le_of_lt (linePosition_mono (by omega)) hfits.source)
    · rw [hwritten] at ha
      obtain ⟨j, hj, rfl⟩ := mem_map.mp ha
      have hlt := mem_range.mp hj
      exact contains_of_lt_getSize h.destination
        (Nat.lt_of_le_of_lt (linePosition_mono (by omega)) hfits.destination)
    · rw [hread]
      exact map_congr_left fun j _ => congrArg _ (linePosition_eq _ _ j)
    · rw [hwritten]
      exact map_congr_left fun j _ => congrArg _ (linePosition_eq _ _ j)

end Coherence

end GbaStation.Rasterizer
