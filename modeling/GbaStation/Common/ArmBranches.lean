import Mathlib.Tactic.IntervalCases
import GbaStation.Common.FlatMemory

/-!
# Branch instructions with an immediate displacement

The ARM instructions `B` and `BL`, and the Thumb instructions `BL` and `BLX` of two halfwords.
-/

namespace GbaStation.Arm

open BitVec (getElem_extractLsb' getElem_and ofBool)

/-! ## ARM -/

/-- The immediate of an instruction. -/
def imm24 (w : Word) : BitVec 24 := w.setWidth 24

/-- The bits of an instruction that are not its immediate. -/
def fixedBits (w : Word) : Word := w &&& 0xFF000000

/-- The displacement of an immediate, in bytes. -/
def displacement (imm : BitVec 24) : Word := imm.signExtend 32 <<< 2

/-- A condition and `101`. The condition `1111` is another instruction. -/
def IsBranch (w : Word) : Prop := w.extractLsb' 25 3 = 5 ∧ w.extractLsb' 28 4 ≠ 15

instance (w : Word) : Decidable (IsBranch w) := inferInstanceAs (Decidable (_ ∧ _))

/-- Where `B` or `BL` at an address branches; the program counter is 8 bytes ahead. -/
def branchTarget (address w : Word) : Option Word :=
  if IsBranch w then some (address + 8 + displacement (imm24 w)) else none

/-- Some immediate makes the instruction branch to a place. -/
def Reaches (address w dest : Word) : Prop :=
  ∃ w', fixedBits w' = fixedBits w ∧ branchTarget address w' = some dest

/-- The instruction with an immediate, of which the low bits of a word are taken. -/
def withImm24 (w imm : Word) : Word := (w &&& 0xFF000000) ||| (imm &&& 0x00FFFFFF)

variable {address dest w : Word}

theorem isBranch_congr {w' : Word} (h : fixedBits w' = fixedBits w) : IsBranch w' ↔ IsBranch w := by
  have hbits : ∀ i, 24 ≤ i → i < 32 → w'.getLsbD i = w.getLsbD i := by
    intro i hlow hhigh
    have hi := congrArg (·.getLsbD i) h
    have hmask : (0xFF000000 : Word).getLsbD i = true := by interval_cases i <;> rfl
    simp only [fixedBits, BitVec.getLsbD_and, hmask, Bool.and_true] at hi
    exact hi
  have h25 : w'.extractLsb' 25 3 = w.extractLsb' 25 3 := by
    ext i hi
    simp only [getElem_extractLsb']
    exact hbits _ (by omega) (by omega)
  have h28 : w'.extractLsb' 28 4 = w.extractLsb' 28 4 := by
    ext i hi
    simp only [getElem_extractLsb']
    exact hbits _ (by omega) (by omega)
  rw [IsBranch, IsBranch, h25, h28]

@[simp] theorem fixedBits_withImm24 (w imm : Word) :
    fixedBits (withImm24 w imm) = fixedBits w := by
  unfold fixedBits withImm24
  ext i hi
  simp only [getElem_and, BitVec.getElem_or]
  interval_cases i <;> simp

@[simp] theorem imm24_withImm24 (w imm : Word) :
    imm24 (withImm24 w imm) = imm.setWidth 24 := by
  unfold imm24 withImm24
  ext i hi
  simp only [BitVec.getElem_setWidth, BitVec.getLsbD_or, BitVec.getLsbD_and]
  interval_cases i <;> simp

theorem imm24_displacement (imm : BitVec 24) :
    (displacement imm >>> 2).setWidth 24 = imm := by
  unfold displacement
  ext i hi
  have hword : i < 32 := by omega
  have hshifted : 2 + i < 32 := by omega
  have hlow : ¬2 + i < 2 := by omega
  rw [BitVec.getElem_setWidth, BitVec.getLsbD_ushiftRight, BitVec.getLsbD_shiftLeft,
    Nat.add_sub_cancel_left, BitVec.getLsbD_signExtend, BitVec.getLsbD_eq_getElem hi]
  simp [hword, hshifted, hlow, hi]

theorem Reaches.isBranch (h : Reaches address w dest) : IsBranch w := by
  obtain ⟨w', hfixed, hdest⟩ := h
  rw [branchTarget] at hdest
  split_ifs at hdest with hbranch
  exact (isBranch_congr hfixed).mp hbranch

theorem branchTarget_withImm24 (address imm : Word) (h : IsBranch w) :
    branchTarget address (withImm24 w imm) =
      some (address + 8 + displacement (imm.setWidth 24)) := by
  rw [branchTarget, if_pos ((isBranch_congr (fixedBits_withImm24 w _)).mpr h), imm24_withImm24]

/-- The bits of a displacement that can be reached are those of an immediate. -/
theorem Reaches.branchTarget_withImm24 (h : Reaches address w dest) :
    branchTarget address (withImm24 w ((dest - (address + 8)) >>> 2)) = some dest := by
  rw [Arm.branchTarget_withImm24 _ _ h.isBranch]
  obtain ⟨w', hfixed, hdest⟩ := h
  rw [branchTarget] at hdest
  split_ifs at hdest with hbranch
  obtain rfl := Option.some.inj hdest
  have hsub : address + 8 + displacement (imm24 w') - (address + 8) =
      displacement (imm24 w') := by bv_omega
  rw [hsub, imm24_displacement]

/-! ## Thumb -/

/-- The immediate of two halfwords: `S`, `I1`, `I2`, `imm10` and `imm11`, where the second halfword
has `J1` and `J2` for `I1` and `I2`. -/
def thumbImm24 (t1 t2 : Halfword) : BitVec 24 :=
  let s := t1.getLsbD 10
  let i1 := !(t2.getLsbD 13 ^^ s)
  let i2 := !(t2.getLsbD 11 ^^ s)
  ofBool s ++ ofBool i1 ++ ofBool i2 ++ t1.extractLsb' 0 10 ++
    t2.extractLsb' 0 11

/-- The bits of the two halfwords that are not the immediate. -/
def thumbFixedBits (t1 t2 : Halfword) : Halfword × Halfword := (t1 &&& 0xF800, t2 &&& 0xD000)

/-- The displacement of an immediate, in bytes. -/
def thumbDisplacement (imm : BitVec 24) : Word := (imm ++ 0#1).signExtend 32

/-- `11110` in the first halfword and `11` in the second. -/
def IsThumbBranch (t1 t2 : Halfword) : Prop := t1 &&& 0xF800 = 0xF000 ∧ t2 &&& 0xC000 = 0xC000

instance (t1 t2 : Halfword) : Decidable (IsThumbBranch t1 t2) := inferInstanceAs (Decidable (_ ∧ _))

/-- `BLX`, which goes on with ARM instructions. -/
def IsBlx (t2 : Halfword) : Prop := t2 &&& 0x1000 = 0

instance (t2 : Halfword) : Decidable (IsBlx t2) := inferInstanceAs (Decidable (_ = _))

/-- What a displacement is added to: the program counter is 4 bytes ahead, and that of `BLX` is
aligned to a word. -/
def thumbBase (address : Word) (t2 : Halfword) : Word :=
  if IsBlx t2 then (address + 4) &&& ~~~3 else address + 4

/-- Where `BL` or `BLX` at an address branches. `BLX` with an odd immediate is undefined. -/
def thumbBranchTarget (address : Word) (t1 t2 : Halfword) : Option Word :=
  if IsThumbBranch t1 t2 ∧ ¬(IsBlx t2 ∧ t2.getLsbD 0) then
    some (thumbBase address t2 + thumbDisplacement (thumbImm24 t1 t2))
  else none

/-- Some immediate makes the instruction branch to a place. -/
def ThumbReaches (address : Word) (t1 t2 : Halfword) (dest : Word) : Prop :=
  ∃ t1' t2', thumbFixedBits t1' t2' = thumbFixedBits t1 t2 ∧
    thumbBranchTarget address t1' t2' = some dest

/-- The instruction for a displacement. -/
def withThumbImm24 (t1 t2 : Halfword) (offset : Word) : Halfword × Halfword :=
  let s := (offset >>> 24) &&& 1
  let i1 := (offset >>> 23) &&& 1
  let i2 := (offset >>> 22) &&& 1
  let j1 := ~~~(i1 ^^^ s) &&& 1
  let j2 := ~~~(i2 ^^^ s) &&& 1
  let imm10 := (offset >>> 12) &&& 0x3FF
  let imm11 := (offset >>> 1) &&& 0x7FF
  (((t1.setWidth 32 &&& 0xF800) ||| (s <<< 10) ||| imm10).setWidth 16,
    ((t2.setWidth 32 &&& 0xD000) ||| (j1 <<< 13) ||| (j2 <<< 11) ||| imm11).setWidth 16)

section Fields

variable (t1 t2 : Halfword) (offset : Word)

theorem withThumbImm24_s : (withThumbImm24 t1 t2 offset).1.getLsbD 10 = offset.getLsbD 24 := by
  simp [withThumbImm24]

theorem withThumbImm24_j1 : (withThumbImm24 t1 t2 offset).2.getLsbD 13 =
    !(offset.getLsbD 23 ^^ offset.getLsbD 24) := by
  simp [withThumbImm24]

theorem withThumbImm24_j2 : (withThumbImm24 t1 t2 offset).2.getLsbD 11 =
    !(offset.getLsbD 22 ^^ offset.getLsbD 24) := by
  simp [withThumbImm24]

theorem withThumbImm24_imm10 :
    (withThumbImm24 t1 t2 offset).1.extractLsb' 0 10 = offset.extractLsb' 12 10 := by
  ext i hi
  simp only [withThumbImm24, getElem_extractLsb']
  interval_cases i <;> simp

theorem withThumbImm24_imm11 :
    (withThumbImm24 t1 t2 offset).2.extractLsb' 0 11 = offset.extractLsb' 1 11 := by
  ext i hi
  simp only [withThumbImm24, getElem_extractLsb']
  interval_cases i <;> simp

/-- The fields of a displacement are all of it but the lowest bit and the copies of the sign. -/
theorem append_fields : ofBool (offset.getLsbD 24) ++ ofBool (offset.getLsbD 23) ++
    ofBool (offset.getLsbD 22) ++ offset.extractLsb' 12 10 ++ offset.extractLsb' 1 11 =
      offset.extractLsb' 1 24 := by
  ext i hi
  simp only [BitVec.getElem_append, getElem_extractLsb']
  interval_cases i <;> simp

theorem thumbImm24_withThumbImm24 :
    thumbImm24 (withThumbImm24 t1 t2 offset).1 (withThumbImm24 t1 t2 offset).2 =
      offset.extractLsb' 1 24 := by
  -- the inversions of the two bits cancel
  rw [thumbImm24, withThumbImm24_s, withThumbImm24_j1, withThumbImm24_j2, withThumbImm24_imm10,
    withThumbImm24_imm11, ← append_fields]
  simp

theorem thumbFixedBits_withThumbImm24 :
    thumbFixedBits (withThumbImm24 t1 t2 offset).1 (withThumbImm24 t1 t2 offset).2 =
      thumbFixedBits t1 t2 := by
  rw [thumbFixedBits, thumbFixedBits, Prod.mk.injEq]
  constructor
  · ext i hi
    simp only [withThumbImm24, getElem_and]
    interval_cases i <;> simp
  · ext i hi
    simp only [withThumbImm24, getElem_and]
    interval_cases i <;> simp

end Fields

theorem isThumbBranch_congr {t1 t2 t1' t2' : Halfword}
    (h : thumbFixedBits t1' t2' = thumbFixedBits t1 t2) :
    (IsThumbBranch t1' t2' ↔ IsThumbBranch t1 t2) ∧ (IsBlx t2' ↔ IsBlx t2) := by
  obtain ⟨h1, h2⟩ := Prod.mk.inj h
  have hmask : ∀ mask : Halfword, 0xD000 &&& mask = mask → t2' &&& mask = t2 &&& mask := by
    intro mask hsub
    rw [← hsub, ← BitVec.and_assoc, ← BitVec.and_assoc, h2]
  rw [IsThumbBranch, IsThumbBranch, IsBlx, IsBlx, h1, hmask 0xC000 rfl, hmask 0x1000 rfl]
  exact ⟨Iff.rfl, Iff.rfl⟩

theorem thumbBase_congr {t2 t2' : Halfword} (address : Word) (h : IsBlx t2' ↔ IsBlx t2) :
    thumbBase address t2' = thumbBase address t2 := by
  rw [thumbBase, thumbBase]
  exact if_congr h rfl rfl

theorem thumbImm24_lowest (t1 t2 : Halfword) :
    (thumbImm24 t1 t2).getLsbD 0 = t2.getLsbD 0 := by
  rw [thumbImm24, BitVec.getLsbD_append]
  simp

theorem extractLsb'_thumbDisplacement (imm : BitVec 24) :
    (thumbDisplacement imm).extractLsb' 1 24 = imm := by
  unfold thumbDisplacement
  ext i hi
  have hi' : 1 + i < 32 := by omega
  have hi'' : 1 + i < 25 := by omega
  simp only [getElem_extractLsb', BitVec.getLsbD_signExtend, BitVec.getLsbD_append]
  simp [hi', hi'', BitVec.getLsbD_eq_getElem hi]

/-- The displacement of an even immediate is a number of words. -/
theorem thumbDisplacement_mod {imm : BitVec 24} (h : imm.getLsbD 0 = false) :
    (thumbDisplacement imm).toNat % 4 = 0 := by
  have h0 : (thumbDisplacement imm).getLsbD 0 = false := by
    simp only [thumbDisplacement, BitVec.getLsbD_signExtend, BitVec.getLsbD_append]
    simp
  have h1 : (thumbDisplacement imm).getLsbD 1 = false := by
    rw [← h, ← congrArg (·.getLsbD 0) (extractLsb'_thumbDisplacement imm)]
    simp
  rw [BitVec.getLsbD, Nat.testBit_eq_decide_div_mod_eq, decide_eq_false_iff_not] at h0 h1
  omega

theorem toNat_and_three (x : Word) : (x &&& 3).toNat = x.toNat % 4 := by
  rw [BitVec.toNat_and]
  exact Nat.and_two_pow_sub_one_eq_mod x.toNat 2

theorem and_not_three (x : Word) : x &&& ~~~3 = x - (x &&& 3) := by
  have hdisjoint : (x &&& ~~~3) &&& (x &&& 3) = 0 := by
    ext i hi
    simp only [getElem_and, BitVec.getElem_not]
    cases (3 : Word)[i] <;> simp
  have hunion : (x &&& ~~~3) ||| (x &&& 3) = x := by
    ext i hi
    simp only [BitVec.getElem_or, getElem_and, BitVec.getElem_not]
    cases (3 : Word)[i] <;> simp
  have hsum : (x &&& ~~~3) + (x &&& 3) = x :=
    (BitVec.add_eq_or_of_and_eq_zero _ _ hdisjoint).trans hunion
  bv_omega

theorem ThumbReaches.isThumbBranch {t1 t2 : Halfword} (h : ThumbReaches address t1 t2 dest) :
    IsThumbBranch t1 t2 := by
  obtain ⟨t1', t2', hfixed, hdest⟩ := h
  rw [thumbBranchTarget] at hdest
  split_ifs at hdest with hdefined
  exact (isThumbBranch_congr hfixed).1.mp hdefined.1

/-- A place that is reached is so many bytes from the base, and words from that of `BLX`. -/
theorem ThumbReaches.displacement {t1 t2 : Halfword} (h : ThumbReaches address t1 t2 dest) :
    ∃ imm : BitVec 24, dest = thumbBase address t2 + thumbDisplacement imm ∧
      (IsBlx t2 → imm.getLsbD 0 = false) := by
  obtain ⟨t1', t2', hfixed, hdest⟩ := h
  obtain ⟨-, hblx⟩ := isThumbBranch_congr hfixed
  rw [thumbBranchTarget] at hdest
  split_ifs at hdest with hdefined
  refine ⟨thumbImm24 t1' t2', ?_, fun hblx' => ?_⟩
  · rw [← thumbBase_congr address hblx]
    exact (Option.some.inj hdest).symm
  · rw [thumbImm24_lowest, Bool.eq_false_iff]
    exact fun hodd => hdefined.2 ⟨hblx.mpr hblx', hodd⟩

/-- An instruction for a displacement, which is a number of words for `BLX`. -/
theorem thumbBranchTarget_withThumbImm24 (address : Word) {t1 t2 : Halfword} {offset : Word}
    (h : IsThumbBranch t1 t2) :
    thumbBranchTarget address (withThumbImm24 t1 t2 offset).1 (withThumbImm24 t1 t2 offset).2 =
      if IsBlx t2 ∧ offset.getLsbD 1 then none
      else some (thumbBase address t2 + thumbDisplacement (offset.extractLsb' 1 24)) := by
  obtain ⟨hbranch, hblx⟩ := isThumbBranch_congr (thumbFixedBits_withThumbImm24 t1 t2 offset)
  have hlowest : (withThumbImm24 t1 t2 offset).2.getLsbD 0 = offset.getLsbD 1 := by
    rw [← thumbImm24_lowest (withThumbImm24 t1 t2 offset).1, thumbImm24_withThumbImm24]
    simp
  rw [thumbBranchTarget, thumbImm24_withThumbImm24, thumbBase_congr address hblx, hlowest,
    ← ite_not]
  simp only [hbranch, hblx, h, true_and, not_not]

/-- Where the displacement is counted from the base, the instruction branches as it should. -/
theorem ThumbReaches.thumbBranchTarget_withThumbImm24 {t1 t2 : Halfword}
    (h : ThumbReaches address t1 t2 dest) :
    thumbBranchTarget address (withThumbImm24 t1 t2 (dest - thumbBase address t2)).1
      (withThumbImm24 t1 t2 (dest - thumbBase address t2)).2 = some dest := by
  rw [Arm.thumbBranchTarget_withThumbImm24 address h.isThumbBranch]
  obtain ⟨imm, rfl, heven⟩ := h.displacement
  have hoffset : thumbBase address t2 + thumbDisplacement imm - thumbBase address t2 =
      thumbDisplacement imm := by bv_omega
  have hlowest : (thumbDisplacement imm).getLsbD 1 = imm.getLsbD 0 := by
    rw [← congrArg (·.getLsbD 0) (extractLsb'_thumbDisplacement imm)]
    simp
  rw [hoffset, extractLsb'_thumbDisplacement, if_neg]
  rintro ⟨hblx, hodd⟩
  rw [hlowest, heven hblx] at hodd
  exact absurd hodd Bool.false_ne_true

/-- Where it is counted from the program counter of a `BLX` that is not aligned, the instruction is
undefined. -/
theorem ThumbReaches.thumbBranchTarget_unaligned {t1 t2 : Halfword}
    (h : ThumbReaches address t1 t2 dest) (hblx : IsBlx t2) (haddress : address.toNat % 4 = 2) :
    thumbBranchTarget address (withThumbImm24 t1 t2 (dest - (address + 4))).1
      (withThumbImm24 t1 t2 (dest - (address + 4))).2 = none := by
  rw [Arm.thumbBranchTarget_withThumbImm24 address h.isThumbBranch]
  obtain ⟨imm, hdest, heven⟩ := h.displacement
  have hmod := thumbDisplacement_mod (heven hblx)
  have hand := toNat_and_three (address + 4)
  rw [thumbBase, if_pos hblx, and_not_three] at hdest
  -- the displacement is two bytes less than a number of words
  have hoffset : (dest - (address + 4)).toNat % 4 = 2 := by bv_omega
  refine if_pos ⟨hblx, ?_⟩
  rw [BitVec.getLsbD, Nat.testBit_eq_decide_div_mod_eq, decide_eq_true_eq]
  omega

end GbaStation.Arm
