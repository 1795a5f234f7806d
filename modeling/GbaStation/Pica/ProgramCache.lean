import GbaStation.Pica.ShaderSetup

/-!
# The shader program cache stays coherent

A hash that a setup remembers is the hash of what it would run, in every run. The program it runs
is the one written last, with the fixup that was found for it, in every run whose operations all
keep to `KeepsText`: the flags of a setup do not distinguish a program that was fixed and not
hashed yet from one that was written and not hashed yet.
-/

namespace GbaStation.Pica

open Function (update_of_ne update)

/-! ## Fixups -/

namespace Fixup

variable {f : Fixup} {code : ProgramCode}

theorem makeRoom_of_lt {i : Fin maxProgramCodeLength} (h : f.offsetBase / 4 + 7 < i.val) :
    f.makeRoom code i = code i := by
  have hout : ¬ (f.offsetBase / 4 < i.val ∧ i.val ≤ f.offsetBase / 4 + 7) := by omega
  rw [makeRoom, dif_neg hout]

/-- A fixup leaves the words behind it as they are. -/
theorem patch_of_size_le {i : Fin maxProgramCodeLength} (h : f.size ≤ i.val) :
    f.patch code i = code i := by
  unfold size at h
  have hlast : i.val ≠ f.offsetBase / 4 + 0x20 := by omega
  have hfirst : i.val ≠ f.offsetBase / 4 := by omega
  rw [patch, update_of_ne (by simpa [Fin.ext_iff] using hlast),
    update_of_ne (by simpa [Fin.ext_iff] using hfirst), makeRoom_of_lt (by omega)]

end Fixup

/-! ## Operations -/

namespace ShaderSetup

variable {computeHash64 : List (BitVec 32) → Hash} {select : Hash → Option Fixup}
variable {s : ShaderSetup} {g : ProgramText}

/-- What writing a word does when it changes the program. -/
theorem updateProgramWord_of_ne {offset : Fin maxProgramCodeLength} {value : BitVec 32}
    (h : s.programCode offset ≠ value) :
    s.updateProgramWord offset value = { s with
      programCode := update s.programCode offset value
      programCodeHashDirty := true
      programCodePendingFixup := s.programCodePendingFixup || !s.programCodeHashDirty
      hasFixup := s.hasFixup && s.programCodeHashDirty
      biggestProgramSize := max s.biggestProgramSize (offset.val + 1) } := by
  unfold updateProgramWord
  rw [if_neg h]
  by_cases hsize : offset.val + 1 > s.biggestProgramSize
  · rw [Nat.max_eq_right hsize.le]
    cases hd : s.programCodeHashDirty <;> simp [makeProgramCodeDirty, hsize]
  · rw [Nat.max_eq_left (Nat.not_lt.mp hsize)]
    cases hd : s.programCodeHashDirty <;> simp [makeProgramCodeDirty, hsize]

theorem updateSwizzleWord_of_ne {offset : Fin maxProgramCodeLength} {value : BitVec 32}
    (h : s.swizzleData offset ≠ value) :
    s.updateSwizzleWord offset value = { s with
      swizzleData := update s.swizzleData offset value
      swizzleDataHashDirty := true
      biggestSwizzleSize := max s.biggestSwizzleSize (offset.val + 1) } := by
  unfold updateSwizzleWord
  rw [if_neg h]
  by_cases hsize : offset.val + 1 > s.biggestSwizzleSize
  · rw [Nat.max_eq_right hsize.le]
    cases hd : s.swizzleDataHashDirty <;> simp [makeSwizzleDataDirty, hsize]
  · rw [Nat.max_eq_left (Nat.not_lt.mp hsize)]
    cases hd : s.swizzleDataHashDirty <;> simp [makeSwizzleDataDirty, hsize]

/-! ## The hashes -/

/-- A hash that is not dirty is the hash of what the setup holds. -/
structure Hashed (computeHash64 : List (BitVec 32) → Hash) (s : ShaderSetup) : Prop where
  program : s.programCodeHashDirty = false →
    s.programCodeHash = computeHash64 (firstWords s.getProgramCode s.biggestProgramSize)
  swizzle : s.swizzleDataHashDirty = false →
    s.swizzleDataHash = computeHash64 (firstWords s.swizzleData s.biggestSwizzleSize)

/-- What `GetProgramCodeHash` returns, and what it does. -/
theorem Hashed.getProgramCodeHash_eq (h : s.Hashed computeHash64) :
    s.getProgramCodeHash computeHash64 =
      (computeHash64 (firstWords s.getProgramCode s.biggestProgramSize),
        { s with
          programCodeHash := computeHash64 (firstWords s.getProgramCode s.biggestProgramSize)
          programCodeHashDirty := false }) := by
  unfold getProgramCodeHash
  split
  · rfl
  · next hd =>
    rw [Bool.not_eq_true] at hd
    rw [← h.program hd, ← hd]

theorem Hashed.getSwizzleDataHash_eq (h : s.Hashed computeHash64) :
    s.getSwizzleDataHash computeHash64 =
      (computeHash64 (firstWords s.swizzleData s.biggestSwizzleSize),
        { s with
          swizzleDataHash := computeHash64 (firstWords s.swizzleData s.biggestSwizzleSize)
          swizzleDataHashDirty := false }) := by
  unfold getSwizzleDataHash
  split
  · rfl
  · next hd =>
    rw [Bool.not_eq_true] at hd
    rw [← h.swizzle hd, ← hd]

/-- What `DoProgramCodeFixup` does when it does anything. -/
theorem Hashed.doProgramCodeFixup_eq (h : s.Hashed computeHash64) (hreq : s.requiresFixup = true)
    (hpending : s.programCodePendingFixup = true) :
    s.doProgramCodeFixup computeHash64 select =
      let hash := computeHash64 (firstWords s.getProgramCode s.biggestProgramSize)
      let s' := { s with
        programCodePendingFixup := false, programCodeHash := hash, programCodeHashDirty := false }
      match select hash with
      | some f => s'.prepareForFixup.fix3dClassicsCommon f
      | none => s' := by
  have h' : ({ s with programCodePendingFixup := false } : ShaderSetup).Hashed computeHash64 :=
    ⟨h.program, h.swizzle⟩
  unfold doProgramCodeFixup
  rw [if_neg (by simp [hreq, hpending]), h'.getProgramCodeHash_eq]
  rfl

theorem doProgramCodeFixup_of_skip
    (h : s.requiresFixup = false ∨ s.programCodePendingFixup = false) :
    s.doProgramCodeFixup computeHash64 select = s := by
  unfold doProgramCodeFixup
  rcases h with h | h <;> simp [h]

theorem Hashed.step (h : s.Hashed computeHash64) (o : Op) :
    (s.step computeHash64 select o).Hashed computeHash64 := by
  cases o with
  | updateProgramWord offset value =>
    show (s.updateProgramWord offset value).Hashed computeHash64
    by_cases hv : s.programCode offset = value
    · rw [updateProgramWord, if_pos hv]
      exact h
    · rw [updateProgramWord_of_ne hv]
      exact ⟨fun hd => (Bool.noConfusion hd), h.swizzle⟩
  | updateProgramCode other otherSize => exact ⟨fun hd => Bool.noConfusion hd, h.swizzle⟩
  | updateSwizzleWord offset value =>
    show (s.updateSwizzleWord offset value).Hashed computeHash64
    by_cases hv : s.swizzleData offset = value
    · rw [updateSwizzleWord, if_pos hv]
      exact h
    · rw [updateSwizzleWord_of_ne hv]
      exact ⟨h.program, fun hd => Bool.noConfusion hd⟩
  | updateSwizzleData other otherSize => exact ⟨h.program, fun hd => Bool.noConfusion hd⟩
  | getProgramCodeHash =>
    show (s.getProgramCodeHash computeHash64).2.Hashed computeHash64
    rw [h.getProgramCodeHash_eq]
    exact ⟨fun _ => rfl, h.swizzle⟩
  | getSwizzleDataHash =>
    show (s.getSwizzleDataHash computeHash64).2.Hashed computeHash64
    rw [h.getSwizzleDataHash_eq]
    exact ⟨h.program, fun _ => rfl⟩
  | doProgramCodeFixup =>
    show (s.doProgramCodeFixup computeHash64 select).Hashed computeHash64
    cases hreq : s.requiresFixup with
    | false =>
      rw [doProgramCodeFixup_of_skip (Or.inl hreq)]
      exact h
    | true =>
      cases hpending : s.programCodePendingFixup with
      | false =>
        rw [doProgramCodeFixup_of_skip (Or.inr hpending)]
        exact h
      | true =>
        rw [h.doProgramCodeFixup_eq hreq hpending]
        dsimp only
        split
        · exact ⟨fun hd => Bool.noConfusion hd, h.swizzle⟩
        · exact ⟨fun _ => rfl, h.swizzle⟩
  | setRequiresFixup value => exact ⟨h.program, h.swizzle⟩

theorem Reached.hashed {Meets : ShaderSetup → Op → Prop}
    (h : Reached computeHash64 select Meets s g) : s.Hashed computeHash64 := by
  induction h with
  | new => exact ⟨fun hd => Bool.noConfusion hd, fun hd => Bool.noConfusion hd⟩
  | op _ _ ih => exact ih.step _

/-! ## The program -/

/-- A setup that is what it stands for. -/
structure Coherent (computeHash64 : List (BitVec 32) → Hash) (select : Hash → Option Fixup)
    (s : ShaderSetup) (g : ProgramText) : Prop where
  program : s.programCode = g.program
  swizzle : s.swizzleData = g.swizzle
  /-- Only the first words are ever copied. -/
  copied : ∀ i : Fin maxProgramCodeLength, 1024 ≤ i.val → s.programCodeFixup i = 0
  pending : s.programCodePendingFixup = true → s.hasFixup = false ∧ g.fixup = none
  written : s.programCodeHashDirty = true → s.hasFixup = false → s.programCodePendingFixup = true
  /-- No fixup was found. -/
  plain : s.programCodePendingFixup = false → s.hasFixup = false → g.fixup = none ∧
    select (computeHash64 (firstWords s.programCode s.biggestProgramSize)) = none
  fixed : s.hasFixup = true → ∃ f, g.fixup = some f ∧ s.programCodeFixup = f.patch s.programCode ∧
    f.size ≤ s.biggestProgramSize
  programEnd : ∀ i : Fin maxProgramCodeLength, s.biggestProgramSize ≤ i.val → s.programCode i = 0
  swizzleEnd : ∀ i : Fin maxProgramCodeLength, s.biggestSwizzleSize ≤ i.val → s.swizzleData i = 0

theorem coherent_new : Coherent computeHash64 select {} {} where
  program := rfl
  swizzle := rfl
  copied _ _ := rfl
  pending _ := ⟨rfl, rfl⟩
  written _ _ := rfl
  plain h := Bool.noConfusion h
  fixed h := Bool.noConfusion h
  programEnd _ _ := rfl
  swizzleEnd _ _ := rfl

/-- The flags tell whether there is a fixup. -/
theorem Coherent.getProgramCode_eq (h : s.Coherent computeHash64 select g) :
    s.getProgramCode = g.code := by
  unfold getProgramCode ProgramText.code
  cases hfix : s.hasFixup with
  | true =>
    obtain ⟨f, hf, hcode, -⟩ := h.fixed hfix
    rw [hf, if_pos rfl, hcode, h.program]
  | false =>
    have hnone : g.fixup = none := by
      cases hpending : s.programCodePendingFixup with
      | true => exact (h.pending hpending).2
      | false => exact (h.plain hpending hfix).1
    rw [hnone, if_neg Bool.false_ne_true]
    exact h.program

theorem Coherent.getProgramCode_end (h : s.Coherent computeHash64 select g)
    {i : Fin maxProgramCodeLength} (hi : s.biggestProgramSize ≤ i.val) :
    s.getProgramCode i = 0 := by
  unfold getProgramCode
  split
  · next hfix =>
    obtain ⟨f, -, hcode, hsize⟩ := h.fixed hfix
    rw [hcode, Fixup.patch_of_size_le (hsize.trans hi)]
    exact h.programEnd i hi
  · exact h.programEnd i hi

/-- A zero tail stays when words are written before the end. -/
theorem update_end {code : ProgramCode} {n : Nat}
    (h : ∀ i : Fin maxProgramCodeLength, n ≤ i.val → code i = 0) (offset : Fin maxProgramCodeLength)
    (value : BitVec 32) (i : Fin maxProgramCodeLength) (hi : max n (offset.val + 1) ≤ i.val) :
    update code offset value i = 0 := by
  have hne : i ≠ offset := by
    rintro rfl
    omega
  rw [update_of_ne hne]
  exact h i (by omega)

theorem Coherent.updateProgramWord (h : s.Coherent computeHash64 select g)
    {offset : Fin maxProgramCodeLength} {value : BitVec 32}
    (hkeeps : KeepsText computeHash64 select s (.updateProgramWord offset value)) :
    (s.updateProgramWord offset value).Coherent computeHash64 select
      (g.step computeHash64 select s (.updateProgramWord offset value)) := by
  unfold ProgramText.step
  by_cases hv : s.programCode offset = value
  · have hg : g.program offset = value := by rw [← h.program, hv]
    rw [ShaderSetup.updateProgramWord, if_pos hv]
    simpa only [if_pos hg] using h
  · have hg : g.program offset ≠ value := by rwa [← h.program]
    have hclear : (s.hasFixup && s.programCodeHashDirty) = false := by
      rcases hkeeps with hk | hk | hk
      · exact absurd hk hv
      · simp [hk]
      · simp [hk]
    have hpend : (s.programCodePendingFixup || !s.programCodeHashDirty) = true := by
      cases hd : s.programCodeHashDirty with
      | false => simp
      | true =>
        rw [hd, Bool.and_true] at hclear
        simp [h.written hd hclear]
    rw [updateProgramWord_of_ne hv, hclear, hpend]
    simp only [if_neg hg]
    exact {
      program := by simp only [h.program]
      swizzle := h.swizzle
      copied := h.copied
      pending := fun _ => ⟨rfl, rfl⟩
      written := fun _ _ => rfl
      plain := fun hp => Bool.noConfusion hp
      fixed := fun hf => Bool.noConfusion hf
      programEnd := update_end h.programEnd offset value
      swizzleEnd := h.swizzleEnd }

theorem Coherent.updateSwizzleWord (h : s.Coherent computeHash64 select g)
    (offset : Fin maxProgramCodeLength) (value : BitVec 32) :
    (s.updateSwizzleWord offset value).Coherent computeHash64 select
      (g.step computeHash64 select s (.updateSwizzleWord offset value)) := by
  unfold ProgramText.step
  by_cases hv : s.swizzleData offset = value
  · have hsame : update g.swizzle offset value = g.swizzle := by
      rw [← hv, h.swizzle, Function.update_eq_self]
    rw [ShaderSetup.updateSwizzleWord, if_pos hv]
    simpa only [hsame] using h
  · rw [updateSwizzleWord_of_ne hv]
    exact {
      program := h.program
      swizzle := by simp only [h.swizzle]
      copied := h.copied
      pending := h.pending
      written := h.written
      plain := h.plain
      fixed := h.fixed
      programEnd := h.programEnd
      swizzleEnd := update_end h.swizzleEnd offset value }

/-- The copy is complete when the program ends within the part that is copied. -/
theorem Coherent.programCodeFixup_prepareForFixup (h : s.Coherent computeHash64 select g)
    (hend : ∀ i : Fin maxProgramCodeLength, 1024 ≤ i.val → s.programCode i = 0) :
    s.prepareForFixup.programCodeFixup = s.programCode := by
  funext i
  show (if 4 * i.val < maxProgramCodeLength then s.programCode i else s.programCodeFixup i) = _
  split
  · rfl
  · next hi =>
    have h1024 : 1024 ≤ i.val := by
      unfold maxProgramCodeLength at hi
      omega
    rw [h.copied i h1024, hend i h1024]

theorem Coherent.doProgramCodeFixup (hhash : s.Hashed computeHash64)
    (h : s.Coherent computeHash64 select g)
    (hkeeps : KeepsText computeHash64 select s .doProgramCodeFixup) :
    (s.doProgramCodeFixup computeHash64 select).Coherent computeHash64 select
      (g.step computeHash64 select s .doProgramCodeFixup) := by
  unfold ProgramText.step
  cases hreq : s.requiresFixup with
  | false =>
    rw [doProgramCodeFixup_of_skip (Or.inl hreq)]
    simpa using h
  | true =>
    cases hpending : s.programCodePendingFixup with
    | false =>
      rw [doProgramCodeFixup_of_skip (Or.inr hpending)]
      cases hfix : s.hasFixup with
      | true =>
        obtain ⟨f, hf, -⟩ := h.fixed hfix
        simpa [hf] using h
      | false =>
        -- the search already ended without a fixup, and would end so again
        obtain ⟨hnone, hselect⟩ := h.plain hpending hfix
        rw [h.program] at hselect
        have hself : ({ g with fixup := none } : ProgramText) = g := by rw [← hnone]
        simpa [hnone, hselect, hself] using h
    | true =>
      obtain ⟨hfix, hnone⟩ := h.pending hpending
      have hcode : s.getProgramCode = g.program := by
        rw [getProgramCode, hfix, if_neg Bool.false_ne_true, h.program]
      rw [hhash.doProgramCodeFixup_eq hreq hpending, hcode]
      simp only [hnone, Option.isNone_none, Bool.and_self, if_true]
      cases hselect : select (computeHash64 (firstWords g.program s.biggestProgramSize)) with
      | none =>
        have hselect' := hselect
        rw [← h.program] at hselect'
        exact {
          program := h.program
          swizzle := h.swizzle
          copied := h.copied
          pending := fun hp => Bool.noConfusion hp
          written := fun hd => Bool.noConfusion hd
          plain := fun _ _ => ⟨rfl, hselect'⟩
          fixed := fun hf => absurd hf (by simp [hfix])
          programEnd := h.programEnd
          swizzleEnd := h.swizzleEnd }
      | some f =>
        have hend := hkeeps hreq hpending (by rw [h.program, hselect]; exact Option.some_ne_none f)
        have hcopy := h.programCodeFixup_prepareForFixup hend
        have hsize : f.size ≤ (if s.biggestProgramSize ≤ f.offsetBase / 4 + 0x20 then
            f.offsetBase / 4 + 0x20 + 1 else s.biggestProgramSize) := by
          unfold Fixup.size
          split <;> omega
        have hgrow : s.biggestProgramSize ≤ (if s.biggestProgramSize ≤ f.offsetBase / 4 + 0x20 then
            f.offsetBase / 4 + 0x20 + 1 else s.biggestProgramSize) := by
          split <;> omega
        exact {
          program := h.program
          swizzle := h.swizzle
          copied := fun i hi => by
            have hle : f.size ≤ i.val := by
              have := f.inCopy
              unfold Fixup.size
              omega
            show f.patch _ i = 0
            rw [Fixup.patch_of_size_le hle]
            exact (congrFun hcopy i).trans (hend i hi)
          pending := fun hp => Bool.noConfusion hp
          written := fun _ hf => Bool.noConfusion hf
          plain := fun _ hf => Bool.noConfusion hf
          fixed := fun _ => ⟨f, rfl, congrArg f.patch hcopy, hsize⟩
          programEnd := fun i hi => h.programEnd i (hgrow.trans hi)
          swizzleEnd := h.swizzleEnd }

theorem Coherent.step (hhash : s.Hashed computeHash64) (h : s.Coherent computeHash64 select g)
    {o : Op} (hkeeps : KeepsText computeHash64 select s o) :
    (s.step computeHash64 select o).Coherent computeHash64 select
      (g.step computeHash64 select s o) := by
  cases o with
  | updateProgramWord offset value => exact h.updateProgramWord hkeeps
  | updateProgramCode other otherSize =>
    exact {
      program := rfl
      swizzle := h.swizzle
      copied := h.copied
      pending := fun _ => ⟨rfl, rfl⟩
      written := fun _ _ => rfl
      plain := fun hp => Bool.noConfusion hp
      fixed := fun hf => Bool.noConfusion hf
      programEnd := hkeeps
      swizzleEnd := h.swizzleEnd }
  | updateSwizzleWord offset value => exact h.updateSwizzleWord offset value
  | updateSwizzleData other otherSize =>
    exact { h with swizzle := rfl, swizzleEnd := hkeeps }
  | getProgramCodeHash =>
    show (s.getProgramCodeHash computeHash64).2.Coherent computeHash64 select g
    rw [hhash.getProgramCodeHash_eq]
    exact { h with written := fun hd => Bool.noConfusion hd }
  | getSwizzleDataHash =>
    show (s.getSwizzleDataHash computeHash64).2.Coherent computeHash64 select g
    rw [hhash.getSwizzleDataHash_eq]
    exact { h with }
  | doProgramCodeFixup => exact h.doProgramCodeFixup hhash hkeeps
  | setRequiresFixup value => exact { h with }

theorem Reached.coherent
    (h : Reached computeHash64 select (KeepsText computeHash64 select) s g) :
    s.Coherent computeHash64 select g := by
  induction h with
  | new => exact coherent_new
  | op hprev hkeeps ih => exact ih.step hprev.hashed hkeeps

/-- In every run the hashes are those of what the setup would run. As long as every operation
`KeepsText`, that is the program written last, with the fixup that was found for it since, and the
swizzle data written last; behind the biggest sizes there are only zeros. -/
theorem programCache_coherent (computeHash64 : List (BitVec 32) → Hash)
    (select : Hash → Option Fixup) (s : ShaderSetup) (g : ProgramText) :
    (∀ Meets : ShaderSetup → Op → Prop, Reached computeHash64 select Meets s g →
      (s.getProgramCodeHash computeHash64).1 =
          computeHash64 (firstWords s.getProgramCode s.biggestProgramSize) ∧
        (s.getSwizzleDataHash computeHash64).1 =
          computeHash64 (firstWords s.getSwizzleData s.biggestSwizzleSize)) ∧
    (Reached computeHash64 select (KeepsText computeHash64 select) s g →
      s.getProgramCode = g.code ∧ s.getSwizzleData = g.swizzle ∧
        (∀ i : Fin maxProgramCodeLength, s.biggestProgramSize ≤ i.val →
          s.programCode i = 0 ∧ s.getProgramCode i = 0) ∧
        ∀ i : Fin maxProgramCodeLength, s.biggestSwizzleSize ≤ i.val →
          s.getSwizzleData i = 0) := by
  constructor
  · intro Meets h
    have hhash := h.hashed
    rw [hhash.getProgramCodeHash_eq, hhash.getSwizzleDataHash_eq]
    exact ⟨rfl, rfl⟩
  · intro h
    have hc := h.coherent
    refine ⟨hc.getProgramCode_eq, hc.swizzle, ?_, hc.swizzleEnd⟩
    intro i hi
    exact ⟨hc.programEnd i hi, hc.getProgramCode_end hi⟩

section Example

/-- The patch for Thunder Blade. -/
def exampleFixup : Fixup := ⟨0x510, 0xA, Nat.le_of_ble_eq_true rfl⟩

/-- A setup that got a fixup for its one-word program. -/
def exampleFixed : ShaderSetup :=
  ((step (fun _ => 0) (fun _ => some exampleFixup) {} (.setRequiresFixup true)).step (fun _ => 0)
    (fun _ => some exampleFixup) (.updateProgramWord 0 1)).step (fun _ => 0)
    (fun _ => some exampleFixup) .doProgramCodeFixup

theorem exampleFixed_reached (Meets : ShaderSetup → Op → Prop) (h : ∀ s, Meets s
    (.setRequiresFixup true)) (hw : ∀ s : ShaderSetup, s.hasFixup = false →
      Meets s (.updateProgramWord 0 1)) (hd : ∀ s : ShaderSetup,
      (∀ i : Fin maxProgramCodeLength, 1024 ≤ i.val → s.programCode i = 0) →
        Meets s .doProgramCodeFixup) :
    Reached (fun _ => 0) (fun _ => some exampleFixup) Meets exampleFixed
      { program := update (fun _ => 0) 0 1, fixup := some exampleFixup } := by
  refine ((Reached.new.op (h _)).op (hw _ rfl)).op (hd _ fun i hi => ?_)
  have hne : i ≠ 0 := by
    rintro rfl
    exact absurd hi (by decide)
  exact update_of_ne hne _ _

/-- A word that is written behind the next hash is seen. -/
theorem programCache_coherent_hashed : ∃ s g,
    Reached (fun _ => 0) (fun _ => some exampleFixup)
      (KeepsText (fun _ => 0) fun _ => some exampleFixup) s g ∧
    s.getProgramCode 0 = 5 ∧ ∀ i : Fin maxProgramCodeLength, s.biggestProgramSize ≤ i.val →
      s.getProgramCode i = 0 := by
  have h := ((exampleFixed_reached (KeepsText (fun _ => 0) fun _ => some exampleFixup)
    (fun _ => trivial) (fun _ hfixup => .inr (.inl hfixup)) fun _ hzero _ _ _ => hzero).op
      (o := .getProgramCodeHash) trivial).op (o := .updateProgramWord 0 5) (.inr (.inr rfl))
  obtain ⟨hcode, -, hend, -⟩ :=
    (programCache_coherent (fun _ => 0) (fun _ => some exampleFixup) _ _).2 h
  refine ⟨_, _, h, ?_, fun i hi => (hend i hi).2⟩
  rw [hcode]
  decide +kernel

/-- A word written between a fixup and the next hash is not seen; and of a program that ends behind
the 1024th word the rest is lost when it gets a fixup. -/
theorem fixup_hides_write :
    (∃ s g, Reached (fun _ => 0) (fun _ => some exampleFixup) (fun _ _ => True) s g ∧
      s.getProgramCode 0 = 1 ∧ g.code 0 = 5) ∧
    ∃ s g, Reached (fun _ => 0) (fun _ => some exampleFixup) (fun _ _ => True) s g ∧
      s.getProgramCode 1024 = 0 ∧ g.code 1024 = 7 := by
  constructor
  · have h := exampleFixed_reached (fun _ _ => True) (fun _ => trivial) (fun _ _ => trivial)
      fun _ _ => trivial
    exact ⟨_, _, h.op (o := .updateProgramWord 0 5) trivial, by decide +kernel, by decide +kernel⟩
  · have h : Reached (fun _ => 0) (fun _ => some exampleFixup) (fun _ _ => True) _ _ :=
      ((Reached.new.op (o := .setRequiresFixup true) trivial).op
        (o := .updateProgramWord 1024 7) trivial).op (o := .doProgramCodeFixup) trivial
    exact ⟨_, _, h, by decide +kernel, by decide +kernel⟩

end Example

end ShaderSetup

end GbaStation.Pica
