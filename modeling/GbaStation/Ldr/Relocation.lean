import GbaStation.Common.ArmBranches
import GbaStation.Ldr.RoService

/-!
# Relocations (`core/hle/service/ldr_ro/cro_helper.cpp`)

What one relocation of a module writes. Code is patched so that it branches to a symbol, and data so
that it is the address of a symbol or its distance.

- Words and addresses are those of the guest, and wrap around. The bytes at the target are mapped.
- `applyRelocation_iff`: when `applyRelocation` does that.
-/

namespace GbaStation.Ldr

open Arm FlatMemory

inductive RelocationType where
  | nothing
  | absoluteAddress
  | relativeAddress
  | thumbBranch
  | armBranch
  | modifyArmBranch
  | absoluteAddress2
  | alignedRelativeAddress
  /-- Any other value. -/
  | unknown
deriving DecidableEq, Repr

/-- `CROHelper::ApplyRelocation`. The cache is left out. -/
def applyRelocation (m : FlatMemory) (target : Word) (type : RelocationType)
    (addend symbol future : Word) : Except ErrorCode FlatMemory :=
  match type with
  | .nothing => .ok m
  | .absoluteAddress | .absoluteAddress2 => .ok (m.write32 target (symbol + addend))
  | .relativeAddress => .ok (m.write32 target (symbol + addend - future))
  | .thumbBranch =>
    let t1 := m.read16 target
    let t2 := m.read16 (target + 2)
    let t :=
      if symbol = 0 then (t1 &&& 0xF800, (t2 &&& 0xD000) ||| 0x2800)
      else withThumbImm24 t1 t2 (symbol + addend - (target + 4))
    .ok ((m.write16 target t.1).write16 (target + 2) t.2)
  | .armBranch =>
    let instr := m.read32 target
    let offset : Word := if symbol = 0 then 0 else (symbol + addend - (target + 8)) >>> 2
    .ok (m.write32 target (withImm24 instr offset))
  | .modifyArmBranch =>
    let instr := m.read32 target
    -- the immediate that is there, with its sign
    let existing := ((instr &&& 0x00FFFFFF) <<< 8).sshiftRight 8
    let offset : Word :=
      if symbol = 0 then 0 else (symbol + addend + existing * 4 - (target + 8)) >>> 2
    .ok (m.write32 target (withImm24 instr offset))
  | .alignedRelativeAddress => .ok (m.write32 target (((symbol + addend) &&& ~~~3) - target))
  | .unknown => .error (.croFormat 0x22)

/-- `CROHelper::ClearRelocation`. -/
def clearRelocation (m : FlatMemory) (target : Word) (type : RelocationType) :
    Except ErrorCode FlatMemory :=
  match type with
  | .nothing => .ok m
  | .absoluteAddress | .absoluteAddress2 | .relativeAddress => .ok (m.write32 target 0)
  | .thumbBranch =>
    let t1 := m.read16 target
    let t2 := m.read16 (target + 2)
    .ok ((m.write16 target (t1 &&& 0xF800)).write16 (target + 2) ((t2 &&& 0xD000) ||| 0x2800))
  | .armBranch | .modifyArmBranch =>
    .ok (m.write32 target (m.read32 target &&& 0xFF000000))
  | .alignedRelativeAddress => .ok (m.write32 target 0)
  | .unknown => .error (.croFormat 0x22)

/-! ## What relocations are for -/

/-- The types that patch an instruction. -/
def RelocationType.IsBranch (type : RelocationType) : Prop :=
  type = .thumbBranch ∨ type = .armBranch ∨ type = .modifyArmBranch

/-- Where the instruction is to branch. -/
def branchDest (m : FlatMemory) (target : Word) (type : RelocationType) (addend symbol : Word) :
    Word :=
  if type = .modifyArmBranch then symbol + addend + displacement (imm24 (m.read32 target))
  else symbol + addend

/-- The displacement fits the instruction at the target, which has a place for one. -/
def Fits (m : FlatMemory) (target : Word) (type : RelocationType) (addend symbol : Word) : Prop :=
  match type with
  | .thumbBranch =>
    target.toNat % 2 = 0 ∧ ThumbReaches target (m.read16 target) (m.read16 (target + 2))
      (branchDest m target type addend symbol)
  | .armBranch | .modifyArmBranch =>
    Arm.Reaches target (m.read32 target) (branchDest m target type addend symbol)
  | .unknown => False
  | _ => True

/-- What a relocation leaves at the target. -/
def Patched (m : FlatMemory) (target : Word) (type : RelocationType) (addend symbol future : Word)
    (m' : FlatMemory) : Prop :=
  SameOutside target m m' ∧
    match type with
    | .nothing => m' = m
    | .absoluteAddress | .absoluteAddress2 => m'.read32 target = symbol + addend
    | .relativeAddress => m'.read32 target + future = symbol + addend
    | .alignedRelativeAddress => m'.read32 target + future = (symbol + addend) &&& ~~~3
    | .thumbBranch =>
      thumbFixedBits (m'.read16 target) (m'.read16 (target + 2)) =
        thumbFixedBits (m.read16 target) (m.read16 (target + 2)) ∧
      thumbBranchTarget target (m'.read16 target) (m'.read16 (target + 2)) =
        some (branchDest m target type addend symbol)
    | .armBranch | .modifyArmBranch =>
      fixedBits (m'.read32 target) = fixedBits (m.read32 target) ∧
      branchTarget target (m'.read32 target) = some (branchDest m target type addend symbol)
    | .unknown => False

/-- `ApplyRelocation` does what a relocation is for, and `ClearRelocation` of a branch what it does
for no symbol. -/
def Relocates (m : FlatMemory) (target : Word) (type : RelocationType)
    (addend symbol future : Word) : Prop :=
  (∃ m', applyRelocation m target type addend symbol future = .ok m' ∧
    Patched m target type addend symbol future m') ∧
  (type.IsBranch → clearRelocation m target type = applyRelocation m target type addend 0 future)

/-- A symbol that is not there has the address 0, and its branches go to what follows. A `BLX` is
aligned, and so is the word with an aligned distance where it will be. -/
def Encodable (m : FlatMemory) (target : Word) (type : RelocationType)
    (addend symbol future : Word) : Prop :=
  match type with
  | .thumbBranch =>
    if symbol = 0 then
      branchDest m target type addend symbol = thumbBase target (m.read16 (target + 2))
    else IsBlx (m.read16 (target + 2)) → target.toNat % 4 = 0
  | .armBranch | .modifyArmBranch =>
    symbol = 0 → branchDest m target type addend symbol = target + 8
  | .alignedRelativeAddress => future = target
  | _ => True

/-! ## Instructions -/

variable {m : FlatMemory} {target addend symbol future : Word} {type : RelocationType}

/-- No displacement is the displacement 0. -/
theorem cleared_eq (t1 t2 : Halfword) :
    (t1 &&& 0xF800, (t2 &&& 0xD000) ||| 0x2800) = withThumbImm24 t1 t2 0 := by
  rw [withThumbImm24, Prod.mk.injEq]
  constructor
  · ext i hi
    simp only [BitVec.getElem_and]
    interval_cases i <;> simp
  · ext i hi
    simp only [BitVec.getElem_or, BitVec.getElem_and]
    interval_cases i <;> simp

theorem fixedBits_eq (w : Word) : w &&& 0xFF000000 = withImm24 w 0 := by
  simp [withImm24]

/-- The immediate that is there, in bytes. -/
theorem existing_eq (w : Word) :
    ((w &&& 0x00FFFFFF) <<< 8).sshiftRight 8 * 4 = displacement (imm24 w) := by
  have hsign : ((w &&& 0x00FFFFFF) <<< 8).sshiftRight 8 = (imm24 w).signExtend 32 := by
    ext i hi
    simp only [imm24, BitVec.getElem_sshiftRight, BitVec.getElem_signExtend]
    interval_cases i <;> simp [BitVec.msb_eq_getLsbD_last]
  rw [hsign, displacement]
  bv_omega

/-- What a patch of two halfwords leaves. -/
theorem patched_thumbBranch_iff {offset : Word} :
    Patched m target .thumbBranch addend symbol future
      ((m.write16 target
        (withThumbImm24 (m.read16 target) (m.read16 (target + 2)) offset).1).write16 (target + 2)
        (withThumbImm24 (m.read16 target) (m.read16 (target + 2)) offset).2) ↔
      thumbBranchTarget target
        (withThumbImm24 (m.read16 target) (m.read16 (target + 2)) offset).1
        (withThumbImm24 (m.read16 target) (m.read16 (target + 2)) offset).2 =
        some (branchDest m target .thumbBranch addend symbol) := by
  obtain ⟨hlow, hhigh⟩ := read16_write16_write16 m target
    (withThumbImm24 (m.read16 target) (m.read16 (target + 2)) offset).1
    (withThumbImm24 (m.read16 target) (m.read16 (target + 2)) offset).2
  simp only [Patched, hlow, hhigh]
  refine ⟨fun h => h.2.2, fun h => ⟨sameOutside_write16 m target _ _, ?_, h⟩⟩
  exact thumbFixedBits_withThumbImm24 _ _ _

/-- What a patch of a word leaves. -/
theorem patched_armBranch_iff {imm : Word} (htype : type = .armBranch ∨ type = .modifyArmBranch) :
    Patched m target type addend symbol future
      (m.write32 target (withImm24 (m.read32 target) imm)) ↔
      branchTarget target (withImm24 (m.read32 target) imm) =
        some (branchDest m target type addend symbol) := by
  have houtside := sameOutside_write32 m target (withImm24 (m.read32 target) imm)
  rcases htype with rfl | rfl
  · simp [Patched, houtside]
  · simp [Patched, houtside]

theorem thumbDisplacement_zero : thumbDisplacement ((0 : Word).extractLsb' 1 24) = 0#32 := by decide

theorem displacement_zero : displacement ((0 : Word).setWidth 24) = 0#32 := by decide

/-! ## Relocations -/

/-- The base of a `BLX` at a word is not moved. -/
theorem thumbBase_eq {t2 : Halfword} (h : IsBlx t2 → target.toNat % 4 = 0) :
    thumbBase target t2 = target + 4 := by
  rw [thumbBase]
  split_ifs with hblx
  · have hand := toNat_and_three (target + 4)
    have hword := h hblx
    rw [and_not_three]
    bv_omega
  · rfl

/-- The two halfwords of a Thumb branch. -/
theorem thumbBranch_iff (hfits : Fits m target .thumbBranch addend symbol) :
    (∃ m', applyRelocation m target .thumbBranch addend symbol future = .ok m' ∧
      Patched m target .thumbBranch addend symbol future m') ↔
      Encodable m target .thumbBranch addend symbol future := by
  obtain ⟨heven, hreach⟩ := hfits
  have hdest : branchDest m target .thumbBranch addend symbol = symbol + addend := rfl
  simp only [applyRelocation, cleared_eq, Except.ok.injEq, exists_eq_left', Encodable]
  split_ifs with hsymbol
  · rw [patched_thumbBranch_iff, thumbBranchTarget_withThumbImm24 target hreach.isThumbBranch]
    -- the lowest bits of no displacement are zero
    rw [if_neg (by simp), thumbDisplacement_zero, BitVec.add_zero, Option.some.injEq, eq_comm]
  · rw [patched_thumbBranch_iff, ← hdest]
    constructor
    · intro h hblx
      by_contra hword
      rw [hreach.thumbBranchTarget_unaligned hblx (by omega)] at h
      cases h
    · intro h
      rw [← thumbBase_eq h]
      exact hreach.thumbBranchTarget_withThumbImm24

/-- The word of an ARM branch, with the displacement of either type. -/
theorem armBranch_iff (htype : type = .armBranch ∨ type = .modifyArmBranch)
    (hfits : Fits m target type addend symbol) :
    (∃ m', applyRelocation m target type addend symbol future = .ok m' ∧
      Patched m target type addend symbol future m') ↔
      Encodable m target type addend symbol future := by
  have hreach : Arm.Reaches target (m.read32 target) (branchDest m target type addend symbol) := by
    rcases htype with rfl | rfl <;> exact hfits
  have happly : applyRelocation m target type addend symbol future =
      .ok (m.write32 target (withImm24 (m.read32 target)
        (if symbol = 0 then 0
        else (branchDest m target type addend symbol - (target + 8)) >>> 2))) := by
    rcases htype with rfl | rfl
    · rfl
    · simp only [applyRelocation, existing_eq, branchDest, if_pos]
  have hencodable : Encodable m target type addend symbol future ↔
      (symbol = 0 → branchDest m target type addend symbol = target + 8) := by
    rcases htype with rfl | rfl <;> rfl
  simp only [happly, Except.ok.injEq, exists_eq_left', hencodable, patched_armBranch_iff htype]
  split_ifs with hsymbol
  · rw [branchTarget_withImm24 target 0 hreach.isBranch, displacement_zero, BitVec.add_zero,
      Option.some.injEq, eq_comm]
    exact ⟨fun h _ => h, fun h => h hsymbol⟩
  · exact iff_of_true hreach.branchTarget_withImm24 fun h => absurd h hsymbol

theorem clearRelocation_eq (htype : type.IsBranch) :
    clearRelocation m target type = applyRelocation m target type addend 0 future := by
  rcases htype with rfl | rfl | rfl
  · simp [clearRelocation, applyRelocation]
  · simp only [clearRelocation, applyRelocation, fixedBits_eq, if_pos]
  · simp only [clearRelocation, applyRelocation, fixedBits_eq, if_pos]

/-- A relocation whose displacement fits does what it is for exactly if it is for a symbol, or that
branches to what follows, a `BLX` is at a word, and a word with an aligned distance is not moved. -/
theorem applyRelocation_iff (hfits : Fits m target type addend symbol) :
    Relocates m target type addend symbol future ↔
      Encodable m target type addend symbol future := by
  rw [Relocates, and_iff_left fun htype => clearRelocation_eq htype]
  cases htype : type with
  | thumbBranch => exact thumbBranch_iff (htype ▸ hfits)
  | armBranch => exact armBranch_iff (.inl rfl) (htype ▸ hfits)
  | modifyArmBranch => exact armBranch_iff (.inr rfl) (htype ▸ hfits)
  | nothing => exact iff_of_true ⟨m, rfl, fun _ _ _ _ _ => rfl, rfl⟩ trivial
  | absoluteAddress | absoluteAddress2 =>
    exact iff_of_true ⟨_, rfl, sameOutside_write32 m target _, read32_write32_self _⟩ trivial
  | relativeAddress =>
    refine iff_of_true ⟨_, rfl, sameOutside_write32 m target _, ?_⟩ trivial
    simp only [read32_write32_self]
    bv_omega
  | alignedRelativeAddress =>
    simp only [applyRelocation, Except.ok.injEq, exists_eq_left', Patched, read32_write32_self,
      and_iff_right (sameOutside_write32 m target _), Encodable]
    constructor
    · intro h
      bv_omega
    · rintro rfl
      bv_omega
  | unknown => exact absurd (htype ▸ hfits : Fits m target .unknown addend symbol) id

/-- A branch from a word to a symbol. -/
theorem applyRelocation_branch :
    Relocates (fun _ => 0xEB) 0x100000 .armBranch 0 0x100108 0 := by
  have hfits : Fits (fun _ => 0xEB) 0x100000 .armBranch 0 0x100108 :=
    ⟨0xEB000040, by decide, by decide⟩
  exact (applyRelocation_iff hfits).mpr fun h => absurd h (by decide)

/-- A `BLX` whose displacement is 0, at an address that is not aligned. -/
def unalignedBlx : FlatMemory := fun a =>
  if a = 0x100003 then 0xF0 else if a = 0x100005 then 0xE8 else 0

/-- The `BLX` is patched with an odd immediate, and the aligned distance is counted from the place
where the word is. -/
theorem applyRelocation_unaligned :
    (Fits unalignedBlx 0x100002 .thumbBranch 0 0x100100 ∧
      ¬Relocates unalignedBlx 0x100002 .thumbBranch 0 0x100100 0x100002) ∧
    ¬Relocates unalignedBlx 0x100000 .alignedRelativeAddress 0 0x200000 0x300000 := by
  have hfits : Fits unalignedBlx 0x100002 .thumbBranch 0 0x100100 :=
    ⟨by decide, 0xF000, 0xE87E, by decide, by decide⟩
  refine ⟨⟨hfits, fun h => ?_⟩, ?_⟩
  · have hword := (thumbBranch_iff hfits).mp h.1
    simp only [Encodable, if_neg (show (0x100100 : Word) ≠ 0 by decide)] at hword
    exact absurd (hword (by decide)) (by decide)
  · rintro ⟨⟨m', happly, -, hword⟩, -⟩
    obtain rfl := Except.ok.inj happly
    simp only [read32_write32_self] at hword
    exact absurd hword (by decide)

end GbaStation.Ldr
