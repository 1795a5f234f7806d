import GbaStation.Rasterizer.DisplayTransfer

/-!
# Transfers and the rasterizer

A transfer is a texture copy or a display transfer (`Pica::GPU`, `is_texture_copy`). Both tell the
rasterizer beforehand which regions they read and write, from the fields of the configuration alone.
`coherentTransfer_iff` says for which configurations that is true.
-/

namespace GbaStation.Rasterizer

namespace DisplayTransferConfig

variable (config : DisplayTransferConfig) (src dst : MemoryRef)

/-- The checks of the transfer. -/
def PassesTransfer : Prop :=
  if config.isTextureCopy then config.PassesTextureCopy src dst
  else config.PassesDisplayTransfer src dst

/-- All that is read was flushed, all that is written was invalidated, and both lies in the areas of
the two addresses. A texture copy reads and writes the bytes of its lines in order. -/
def CoherentTransfer : Prop :=
  if config.isTextureCopy then config.CoherentTextureCopy src dst
  else config.CoherentDisplayTransfer src dst

/-- The lines of a texture copy are whole and lie in their areas; the images of a display transfer
end in the regions that their dimensions give, and the output is not moved out of its region. -/
def FitsTransfer : Prop :=
  if config.isTextureCopy then config.FitsTextureCopy src dst
  else config.FitsDisplayTransfer src dst

end DisplayTransferConfig

section Transfers

open DisplayTransferConfig

/-- A transfer stays in the regions that the rasterizer was told if and only if it fits. -/
theorem coherentTransfer_iff (config : DisplayTransferConfig) (src dst : MemoryRef)
    (h : config.PassesTransfer src dst) :
    config.CoherentTransfer src dst ↔ config.FitsTransfer src dst := by
  unfold PassesTransfer at h
  unfold CoherentTransfer FitsTransfer
  split_ifs at h ⊢
  · exact textureCopy_iff h
  · exact displayTransfer_iff h

/-- A texture copy of 48 bytes inside of VRAM, from lines with gaps. -/
def vramCopy (inputWidth : UInt16) : DisplayTransferConfig where
  inputAddress := 0x3000000
  outputAddress := 0x3001000
  outputWidth := 0
  outputHeight := 0
  inputWidth := 0
  inputHeight := 0
  flipVertically := false
  inputLinear := false
  cropInputLines := false
  isTextureCopy := true
  dontSwizzle := false
  inputFormat := .rgba8
  outputFormat := .rgba8
  scaling := .noScale
  textureCopy := ⟨48, inputWidth, 1, 0, 0⟩

theorem passes_vramCopy {inputWidth : UInt16} (h : 0 < inputWidth.toNat) :
    (vramCopy inputWidth).PassesTransfer ⟨⟨0x18000000, 0x600000⟩, 0⟩
      ⟨⟨0x18000000, 0x600000⟩, 0x8000⟩ := by
  have hinput : getPhysicalRef 0x18000000 = some ⟨⟨0x18000000, 0x600000⟩, 0⟩ := by decide
  have houtput : getPhysicalRef 0x18008000 = some ⟨⟨0x18000000, 0x600000⟩, 0x8000⟩ := by decide
  have hsource : (vramCopy inputWidth).getPhysicalInputAddress = 0x18000000 := by
    show ((0x3000000 : UInt32) * 8).toNat = _
    decide
  have hdestination : (vramCopy inputWidth).getPhysicalOutputAddress = 0x18008000 := by
    show ((0x3001000 : UInt32) * 8).toNat = _
    decide
  have hsize : 0 < (vramCopy inputWidth).textureCopy.alignedSize := by
    show 0 < (48 : UInt32).toNat / 16 * 16
    decide
  show (vramCopy inputWidth).PassesTextureCopy _ _
  constructor
  · rw [hsource, hinput]
  · rw [hdestination, houtput]
  · exact hsize
  · exact Nat.mul_pos h (by decide)
  · exact hsize

theorem fits_vramCopy : (vramCopy 1).FitsTransfer ⟨⟨0x18000000, 0x600000⟩, 0⟩
    ⟨⟨0x18000000, 0x600000⟩, 0x8000⟩ := by
  show (vramCopy 1).FitsTextureCopy _ _
  constructor
  · show 16 ∣ 48
    decide
  · show 48 ∣ 48
    decide
  · show 79 < 0x600000
    decide
  · show 47 < 0x600000 - 0x8000
    decide

/-- A display transfer of a tiled image of 16x16 pixels to lines inside of VRAM, at half its width. -/
def vramTransfer : DisplayTransferConfig :=
  { vramCopy 1 with
    outputWidth := 16, outputHeight := 16, inputWidth := 16, inputHeight := 16
    isTextureCopy := false, outputFormat := .rgb565, scaling := .scaleX }

theorem passes_vramTransfer : vramTransfer.PassesTransfer ⟨⟨0x18000000, 0x600000⟩, 0⟩
    ⟨⟨0x18000000, 0x600000⟩, 0x8000⟩ := by
  show vramTransfer.PassesDisplayTransfer _ _
  obtain ⟨hsource, hdestination⟩ :
      (vramCopy 1).PassesTextureCopy _ _ := passes_vramCopy Nat.one_pos
  exact ⟨hsource, hdestination, by decide, by decide⟩

theorem fits_vramTransfer : vramTransfer.FitsTransfer ⟨⟨0x18000000, 0x600000⟩, 0⟩
    ⟨⟨0x18000000, 0x600000⟩, 0x8000⟩ := by
  show vramTransfer.FitsDisplayTransfer _ _
  refine .inr (.inr ⟨⟨?_, ?_⟩, ?_, ?_, ?_⟩)
  all_goals decide +kernel

/-- Both stay in their regions. -/
theorem coherentTransfer_iff_vram :
    (vramCopy 1).CoherentTransfer ⟨⟨0x18000000, 0x600000⟩, 0⟩ ⟨⟨0x18000000, 0x600000⟩, 0x8000⟩ ∧
      vramTransfer.CoherentTransfer ⟨⟨0x18000000, 0x600000⟩, 0⟩
        ⟨⟨0x18000000, 0x600000⟩, 0x8000⟩ :=
  ⟨(coherentTransfer_iff (vramCopy 1) _ _ (passes_vramCopy Nat.one_pos)).mpr fits_vramCopy,
    (coherentTransfer_iff vramTransfer _ _ passes_vramTransfer).mpr fits_vramTransfer⟩

/-- With lines of 32 bytes the last one is not whole, and it is read without a flush. -/
theorem not_coherentTransfer : ¬(vramCopy 2).CoherentTransfer ⟨⟨0x18000000, 0x600000⟩, 0⟩
    ⟨⟨0x18000000, 0x600000⟩, 0x8000⟩ := by
  intro hcoherent
  have hpasses : (vramCopy 2).PassesTextureCopy _ _ := passes_vramCopy Nat.two_pos
  have hlines : 32 ∣ 48 := ((textureCopy_iff hpasses).mp hcoherent).input
  omega

end Transfers

end GbaStation.Rasterizer
