import GbaStation.Pica.RegisterWrites

/-!
# Register writes stay inside their buffers

- `Allowed` is what a write has to meet. One step from a state with the invariant stays inside and
  decodes the right words exactly if it is allowed (`Inv.step`, `Inv.allowed_of_step`), and so does
  a run (`sound_iff`).
-/

namespace GbaStation.Pica

open Function (update_of_ne update update_self update_idem)
open Option (bind_eq_bind bind_some)

variable {F Ω : Type} {device : Device F Ω} {core core' : PicaCore F Ω}
  {pending : AttributeQueue → List Word} {kind : ShaderKind} {value : Word} {write : RegWrite}
  {log : List (QueueEvent F)}

/-! ## Frames -/

@[simp] theorem unit_setUnit_self (s : ShaderUnitSetup F) : (core.setUnit kind s).unit kind = s := by
  cases kind <;> rfl

theorem unit_setUnit_of_ne {other : ShaderKind} (h : other ≠ kind) (s : ShaderUnitSetup F) :
    (core.setUnit kind s).unit other = core.unit other := by
  cases kind <;> cases other <;> first | rfl | exact absurd rfl h

@[simp] theorem immediate_setUnit (s : ShaderUnitSetup F) :
    (core.setUnit kind s).immediate = core.immediate := by
  cases kind <;> rfl

@[simp] theorem regArray_setUnit (s : ShaderUnitSetup F) :
    (core.setUnit kind s).regArray = core.regArray := by
  cases kind <;> rfl

@[simp] theorem unit_setReg {id : Nat} : (core.setReg id value).unit kind = core.unit kind := by
  cases kind <;> rfl

/-- Nothing has happened to the queues, to the counter and to the index of the attribute. -/
structure Frame (core core' : PicaCore F Ω) : Prop where
  queue : core'.immediate.queue = core.immediate.queue
  counter : core'.immediate.currentAttribute = core.immediate.currentAttribute
  uniformQueue : ∀ kind, (core'.unit kind).uniformQueue = (core.unit kind).uniformQueue
  index : core'.regArray 0x232 = core.regArray 0x232

namespace Frame

theorem refl : Frame core core := ⟨rfl, rfl, fun _ => rfl, rfl⟩

theorem trans {core'' : PicaCore F Ω} (h : Frame core core') (h' : Frame core' core'') :
    Frame core core'' :=
  ⟨h'.queue.trans h.queue, h'.counter.trans h.counter,
    fun kind => (h'.uniformQueue kind).trans (h.uniformQueue kind), h'.index.trans h.index⟩

theorem setReg {id : Nat} (h : Frame core core') (hid : id ≠ 0x232) :
    Frame core (core'.setReg id value) :=
  h.trans ⟨rfl, rfl, fun kind => by cases kind <;> rfl, update_of_ne hid.symm _ _⟩

theorem setUnit {s : ShaderUnitSetup F} (hs : s.uniformQueue = (core.unit kind).uniformQueue) :
    Frame core (core.setUnit kind s) := by
  refine ⟨by rw [immediate_setUnit], by rw [immediate_setUnit], fun other => ?_,
    by rw [regArray_setUnit]⟩
  by_cases h : other = kind
  · subst h
    rwa [unit_setUnit_self]
  · rw [unit_setUnit_of_ne h]

theorem drawn (drawn : Drawn F Ω) : Frame core (core.drawn drawn) :=
  ⟨rfl, rfl, fun kind => by cases kind <;> rfl, rfl⟩

end Frame

theorem storeTable_of_lt {α : Type*} {n index : Nat} {table : Fin n → α} (h : index < n) (v : α) :
    storeTable table index v = some (update table ⟨index, h⟩ v) := dif_pos h

theorem field_lt (w : Word) (position bits : Nat) : field w position bits < 2 ^ bits :=
  BitVec.isLt _

/-- A result is there, and nothing has happened to the queues. -/
def Inside (core : PicaCore F Ω) (result : Option (PicaCore F Ω)) : Prop :=
  ∃ core', result = some core' ∧ Frame core core'

/-- An update of a shader unit that leaves its queue alone. -/
theorem inside_updateShared {update : ShaderUnitSetup F → Option (ShaderUnitSetup F)}
    (hupdate : ∀ s, ∃ s', update s = some s' ∧ s'.uniformQueue = s.uniformQueue) :
    Inside core (core.updateShared kind update) := by
  obtain ⟨s, hs, hqueue⟩ := hupdate (core.unit kind)
  have hunit : Frame core (core.setUnit kind s) := .setUnit hqueue
  rw [PicaCore.updateShared, hs, bind_eq_bind, bind_some]
  dsimp only
  split_ifs with hshares
  · -- the same for the geometry shader unit
    obtain ⟨s', hs', hqueue'⟩ := hupdate (core.setUnit kind s).gsSetup
    rw [hs']
    exact ⟨_, rfl, hunit.trans ((@Frame.setUnit _ _ _ .gs) hqueue')⟩
  · exact ⟨_, rfl, hunit⟩

theorem inside_writeAtOffset {offsetReg limit : Nat} (hreg : offsetReg ≠ 0x232)
    {update : Nat → ShaderUnitSetup F → Option (ShaderUnitSetup F)}
    (hupdate : ∀ offset < limit, ∀ s,
      ∃ s', update offset s = some s' ∧ s'.uniformQueue = s.uniformQueue) :
    Inside core (core.writeAtOffset kind offsetReg limit update) := by
  rw [PicaCore.writeAtOffset]
  split_ifs with hlimit
  · exact ⟨core, rfl, .refl⟩
  · obtain ⟨core', hcore', hframe⟩ :=
      (@inside_updateShared _ _ core kind) (hupdate _ (Nat.not_le.mp hlimit))
    rw [hcore']
    exact ⟨_, rfl, hframe.setReg hreg⟩

theorem updateProgramCode_of_lt {offset : Nat} (h : offset < maxProgramCodeLength)
    (s : ShaderUnitSetup F) : ∃ s', s.updateProgramCode offset value = some s' ∧
      s'.uniformQueue = s.uniformQueue := ⟨_, dif_pos h, rfl⟩

theorem updateSwizzleData_of_lt {offset : Nat} (h : offset < maxProgramCodeLength)
    (s : ShaderUnitSetup F) : ∃ s', s.updateSwizzleData offset value = some s' ∧
      s'.uniformQueue = s.uniformQueue := ⟨_, dif_pos h, rfl⟩

theorem writeUniformIntReg_of_lt {index : Nat} (h : index < 4) (values : Vec4 (BitVec 8))
    (s : ShaderUnitSetup F) : ∃ s', s.writeUniformIntReg index values = some s' ∧
      s'.uniformQueue = s.uniformQueue := by
  rw [ShaderUnitSetup.writeUniformIntReg, storeTable_of_lt h]
  exact ⟨_, rfl, rfl⟩

/-- The index of a lighting table has eight bits, but its type has five. -/
theorem inside_writeLut (htype : field (core.regArray 0x1c5) 8 5 < 24) :
    Inside core (core.writeLut value) := by
  rw [PicaCore.writeLut]
  simp only [dif_pos htype, storeTable_of_lt (field_lt (core.regArray 0x1c5) 0 8)]
  exact ⟨_, rfl, .setReg ⟨rfl, rfl, fun kind => by cases kind <;> rfl, rfl⟩ (by decide)⟩

theorem inside_writeFogLut : Inside core (core.writeFogLut value) := by
  have hindex : field (core.regArray 0xe6) 0 16 % 128 < 128 := Nat.mod_lt _ (by decide)
  rw [PicaCore.writeFogLut]
  simp only [storeTable_of_lt hindex]
  exact ⟨_, rfl, .setReg ⟨rfl, rfl, fun kind => by cases kind <;> rfl, rfl⟩ (by decide)⟩

theorem exists_store (proctex : ProcTex) (table index : Nat) :
    ∃ proctex', proctex.store table index value = some proctex' := by
  have h128 : index % 128 < 128 := Nat.mod_lt _ (by decide)
  have h256 : index % 256 < 256 := Nat.mod_lt _ (by decide)
  unfold ProcTex.store
  split
  case h_6 => exact ⟨_, rfl⟩
  all_goals
    simp only [storeTable_of_lt h128, storeTable_of_lt h256, bind_eq_bind, bind_some]
    exact ⟨_, rfl⟩

theorem inside_writeProctexLut : Inside core (core.writeProctexLut value) := by
  obtain ⟨proctex, hstore⟩ := (@exists_store value) core.proctex
    (field (core.regArray 0xaf) 8 4) (field (core.regArray 0xaf) 0 8)
  rw [PicaCore.writeProctexLut, hstore]
  exact ⟨_, rfl, .setReg ⟨rfl, rfl, fun kind => by cases kind <;> rfl, rfl⟩ (by decide)⟩

/-! ## The invariant -/

/-- The queues hold the words that are pending. The one of the immediate mode is blocked while the
index of the attribute is invalid. -/
structure Inv (pending : AttributeQueue → List Word) (core : PicaCore F Ω) : Prop where
  immediate : core.immediate.queue.Holds (pending .immediate)
  bound : core.immediate.queue.index ≤ 4
  blocked : 3 ≤ core.immediate.queue.index → 0xF < (core.regArray 0x232).toNat
  uniform : ∀ kind, (core.unit kind).uniformQueue.Holds (pending (.uniform kind))
  uniformBound : ∀ kind, (core.unit kind).uniformQueue.index ≤ 3
  counter : core.immediate.currentAttribute < 16

theorem Inv.frame (h : Inv pending core) (hframe : Frame core core') : Inv pending core' where
  immediate := hframe.queue ▸ h.immediate
  bound := hframe.queue ▸ h.bound
  blocked := hframe.queue ▸ hframe.index ▸ h.blocked
  uniform kind := hframe.uniformQueue kind ▸ h.uniform kind
  uniformBound kind := hframe.uniformQueue kind ▸ h.uniformBound kind
  counter := hframe.counter ▸ h.counter

/-- While less than three words are pending, the index of the attribute may change. -/
theorem Inv.setIndex (h : Inv pending core) (hindex : core.immediate.queue.index < 3) :
    Inv pending (core.setReg 0x232 value) where
  immediate := h.immediate
  bound := h.bound
  blocked hfull := absurd hfull (Nat.not_le.mpr hindex)
  uniform kind := by
    rw [unit_setReg]
    exact h.uniform kind
  uniformBound kind := by
    rw [unit_setReg]
    exact h.uniformBound kind
  counter := h.counter

/-- Another queue of the immediate mode, with what is pending in it. -/
theorem Inv.setImmediate (h : Inv pending core) {immediate : ImmediateModeState F}
    {words : List Word} (hholds : immediate.queue.Holds words) (hbound : immediate.queue.index ≤ 4)
    (hblocked : 3 ≤ immediate.queue.index → 0xF < (core.regArray 0x232).toNat)
    (hattribute : immediate.currentAttribute < 16) :
    Inv (update pending .immediate words) { core with immediate } where
  immediate := by rwa [update_self]
  bound := hbound
  blocked := hblocked
  uniform kind := by
    rw [update_of_ne (by simp)]
    cases kind with
    | gs => exact h.uniform .gs
    | vs => exact h.uniform .vs
  uniformBound kind := by
    cases kind with
    | gs => exact h.uniformBound .gs
    | vs => exact h.uniformBound .vs
  counter := hattribute

/-- Another queue of a shader unit. -/
theorem Inv.setUnit (h : Inv pending core) {s : ShaderUnitSetup F} {words : List Word}
    (hholds : s.uniformQueue.Holds words) (hbound : s.uniformQueue.index ≤ 3) :
    Inv (update pending (.uniform kind) words) (core.setUnit kind s) where
  immediate := by
    rw [update_of_ne (by simp), immediate_setUnit]
    exact h.immediate
  bound := (@immediate_setUnit _ _ core) s ▸ h.bound
  blocked := by
    rw [immediate_setUnit, regArray_setUnit]
    exact h.blocked
  uniform other := by
    by_cases hother : other = kind
    · subst hother
      rwa [update_self, unit_setUnit_self]
    · rw [update_of_ne (by simpa using hother), unit_setUnit_of_ne hother]
      exact h.uniform other
  uniformBound other := by
    by_cases hother : other = kind
    · subst hother
      rwa [unit_setUnit_self]
    · rw [unit_setUnit_of_ne hother]
      exact h.uniformBound other
  counter := (@immediate_setUnit _ _ core) s ▸ h.counter

/-! ## The three ports -/

/-- What a write to a port has to meet: the queue of the immediate mode is not full, a word that
completes a float24 vector is the third, and there is a lighting table of the selected type. -/
def AllowedAt (core : PicaCore F Ω) : InternalReg → Prop
  | .defaultAttributesValue => core.immediate.queue.index < 4
  | .uniformValue kind => core.isFloat32 kind = false → (core.unit kind).uniformQueue.index < 3
  | .lutData => field (core.regArray 0x1c5) 8 5 < 24
  | _ => True

/-- What a write has to meet in the state before it. -/
def Allowed (core : PicaCore F Ω) (write : RegWrite) : Prop :=
  write.id < numRegs → AllowedAt core (regOf write.id)

/-- A result whose attributes are decoded from the pending words, with the invariant behind it. -/
def Keeps (codec : F24Codec F) (pending : AttributeQueue → List Word)
    (result : Option (PicaCore F Ω × List (QueueEvent F))) : Prop :=
  ∃ core' log, result = some (core', log) ∧ Exact codec pending log ∧
    Inv (pendingAfter pending log) core'

variable {queue : AttributeQueue} {codec : F24Codec F}

theorem exact_pushed : Exact codec pending [.pushed queue value] := by
  refine ⟨fun _ _ _ h => ?_, trivial⟩
  cases h

theorem exact_decoded {isFloat32 : Bool} {vector : Vec4 F} :
    Exact codec pending [.pushed queue value,
      .decoded queue isFloat32 vector] ↔
    decodeWords codec isFloat32 (pending queue ++ [value]) = some vector := by
  have hpending : (QueueEvent.pushed (F := F) queue value).after pending queue =
      pending queue ++ [value] := update_self ..
  constructor
  · intro h
    exact hpending ▸ h.2.1 queue isFloat32 vector rfl
  · intro h
    refine ⟨fun _ _ _ h' => (nomatch h'), fun _ _ _ h' => ?_, trivial⟩
    cases h'
    exact hpending ▸ h

/-- Behind a decoded attribute nothing is pending. -/
theorem pendingAfter_decoded {isFloat32 : Bool} {vector : Vec4 F} :
    pendingAfter pending [.pushed queue value, .decoded queue isFloat32 vector] =
      update pending queue [] :=
  update_idem ..

theorem Inv.submitImmediate (h : Inv pending core) (hroom : core.immediate.queue.index < 4) :
    Keeps device.toF24Codec pending (core.submitImmediate device value) := by
  obtain ⟨queue, hpush, hholds, hindex⟩ :=
      (@PackedAttribute.Holds.push _ _ false) h.immediate value hroom
  rw [PicaCore.submitImmediate, hpush]
  simp only [bind_eq_bind, bind_some, Bool.and_false, Bool.not_false, Bool.and_true,
    Bool.false_or]
  by_cases hfull : 3 ≤ core.immediate.queue.index + 1
  · simp only [decide_eq_true hfull, Bool.not_true, Bool.false_eq_true, if_false]
    have hdecode (hvalid : ¬(core.regArray 0x232).toNat > 0xF) :
        decodeWords device.toF24Codec false (pending .immediate ++ [value]) =
          some (queue.get device.toF24Codec false) := by
      refine hholds.decodeWords_eq (hholds.length.trans ?_)
      have hblocked := h.blocked
      show queue.index = 3
      omega
    have hreset (immediate : ImmediateModeState F) (hcounter : immediate.currentAttribute < 16) :
        Inv (update pending .immediate [])
          { core with immediate := { immediate with queue := queue.reset } } :=
      h.setImmediate PackedAttribute.holds_reset (Nat.zero_le 4)
        (fun h => absurd h (Nat.not_succ_le_zero 2)) hcounter
    split_ifs with hinvalid hdefault
    · -- the index is invalid: the word stays in the queue
      exact ⟨_, _, rfl, exact_pushed, h.setImmediate hholds (show queue.index ≤ 4 by omega)
        (fun _ => hinvalid) h.counter⟩
    · -- a default attribute
      rw [storeTable_of_lt (hdefault.trans (by decide))]
      refine ⟨_, _, rfl, exact_decoded.mpr (hdecode hinvalid), ?_⟩
      rw [pendingAfter_decoded]
      refine Inv.setIndex ((hreset _ h.counter).frame ?_) (Nat.zero_lt_succ 2)
      exact ⟨rfl, rfl, fun kind => by cases kind <;> rfl, rfl⟩
    · rw [storeTable_of_lt h.counter, bind_some]
      split_ifs with hmore
      · -- the next attribute of the vertex
        refine ⟨_, _, rfl, exact_decoded.mpr (hdecode hinvalid), ?_⟩
        rw [pendingAfter_decoded]
        have hmax : core.maxInputAttribIndex < 16 := field_lt _ 0 4
        refine hreset { core.immediate with
          inputVertex := _, currentAttribute := core.immediate.currentAttribute + 1 } ?_
        exact (Nat.succ_le_of_lt hmore).trans_lt hmax
      · refine ⟨_, _, rfl, exact_decoded.mpr (hdecode hinvalid), ?_⟩
        rw [pendingAfter_decoded]
        refine (hreset { core.immediate with currentAttribute := 0 } (Nat.zero_lt_succ 15)).frame ?_
        exact ⟨rfl, rfl, fun kind => by cases kind <;> rfl, rfl⟩
  · simp only [decide_eq_false hfull]
    exact ⟨_, _, rfl, exact_pushed, h.setImmediate hholds (show queue.index ≤ 4 by omega)
      (fun hle => absurd (hindex ▸ hle) hfull) h.counter⟩

/-- A full queue of the immediate mode has no room for another word. -/
theorem submitImmediate_eq_none (hroom : ¬core.immediate.queue.index < 4) :
    core.submitImmediate device value = none := by
  rw [PicaCore.submitImmediate, PackedAttribute.push_eq_none hroom]
  rfl

/-- A word for a shader unit: what happens if the mode is the one of the words before. -/
theorem Inv.writeUniformFloatReg (h : Inv pending core)
    (hmode : core.isFloat32 kind = false → (core.unit kind).uniformQueue.index < 3) :
    ∃ core' index log, core.writeUniformFloatReg device kind value = some (core', index, log) ∧
      (∀ i, index = some i → i < 96) ∧ Exact device.toF24Codec pending log ∧
      Inv (pendingAfter pending log) core' := by
  have hroom : (core.unit kind).uniformQueue.index < 4 := Nat.lt_succ_of_le (h.uniformBound kind)
  obtain ⟨queue, hpush, hholds, hindex⟩ :=
    (@PackedAttribute.Holds.push _ _ (core.isFloat32 kind)) (h.uniform kind) value hroom
  rw [PicaCore.writeUniformFloatReg]
  rw [hpush, bind_eq_bind, bind_some]
  cases hfull : (decide (4 ≤ (core.unit kind).uniformQueue.index + 1) && core.isFloat32 kind ||
    decide (3 ≤ (core.unit kind).uniformQueue.index + 1) && !core.isFloat32 kind) with
  | false =>
    have hle : queue.index ≤ 3 := by
      by_contra hgt
      have hfour : 4 ≤ (core.unit kind).uniformQueue.index + 1 := by omega
      have hthree : 3 ≤ (core.unit kind).uniformQueue.index + 1 := by omega
      rw [decide_eq_true hfour, decide_eq_true hthree] at hfull
      cases hfloat : core.isFloat32 kind <;> rw [hfloat] at hfull <;> cases hfull
    exact ⟨_, _, _, rfl, fun _ hi => (nomatch hi), exact_pushed, h.setUnit hholds hle⟩
  | true =>
    have hdecode : decodeWords device.toF24Codec (core.isFloat32 kind)
        (pending (.uniform kind) ++ [value]) =
          some (queue.get device.toF24Codec (core.isFloat32 kind)) := by
      refine hholds.decodeWords_eq (hholds.length.trans ?_)
      cases hfloat : core.isFloat32 kind with
      | false =>
        have hlt := hmode hfloat
        rw [hfloat] at hfull
        simp only [Bool.and_false, Bool.not_false, Bool.and_true, Bool.false_or,
          decide_eq_true_eq] at hfull
        show queue.index = 3
        omega
      | true =>
        rw [hfloat] at hfull
        simp only [Bool.and_true, Bool.not_true, Bool.and_false, Bool.or_false,
          decide_eq_true_eq] at hfull
        show queue.index = 4
        omega
    have hreset (f : Fin 96 → Vec4 F) : Inv (update pending (.uniform kind) [])
        (core.setUnit kind { core.unit kind with f, uniformQueue := queue.reset }) :=
      h.setUnit PackedAttribute.holds_reset (Nat.zero_le 3)
    have hreg : kind.uniformSetup ≠ 0x232 := by cases kind <;> decide
    simp only [Bool.not_true, Bool.false_eq_true, if_false]
    split_ifs with hindex'
    · refine ⟨_, _, _, rfl, fun _ hi => (nomatch hi), exact_decoded.mpr hdecode, ?_⟩
      rw [pendingAfter_decoded]
      exact hreset (core.unit kind).f
    · rw [storeTable_of_lt (Nat.not_le.mp hindex')]
      refine ⟨_, _, _, rfl, fun i hi => ?_, exact_decoded.mpr hdecode, ?_⟩
      · cases hi
        exact Nat.not_le.mp hindex'
      · rw [pendingAfter_decoded]
        exact (hreset _).frame (Frame.refl.setReg hreg)

/-- A float24 vector is not decoded from four words. -/
theorem Inv.not_exact_writeUniformFloatReg (h : Inv pending core)
    (hmode : core.isFloat32 kind = false) (hindex : ¬(core.unit kind).uniformQueue.index < 3)
    {index : Option Nat}
    (hwrite : core.writeUniformFloatReg device kind value = some (core', index, log)) :
    ¬Exact device.toF24Codec pending log := by
  have hbound := h.uniformBound kind
  have hthree : (core.unit kind).uniformQueue.index = 3 := by omega
  obtain ⟨queue, hpush, hholds, hindex'⟩ :=
    (@PackedAttribute.Holds.push _ _ (core.isFloat32 kind)) (h.uniform kind) value (by omega)
  have hnone : decodeWords device.toF24Codec false (pending (.uniform kind) ++ [value]) = none := by
    have hlength : (pending (.uniform kind) ++ [value]).length = 4 := by
      rw [hholds.length, hindex', hthree]
    refine Option.eq_none_iff_forall_ne_some.mpr fun vector hvector => ?_
    have hthree' := length_of_decodeWords hvector
    rw [hlength] at hthree'
    cases hthree'
  have hlog : log = [.pushed (.uniform kind) value,
      .decoded (.uniform kind) false (queue.get device.toF24Codec false)] := by
    rw [PicaCore.writeUniformFloatReg] at hwrite
    rw [hpush, hmode, hthree, bind_eq_bind, bind_some] at hwrite
    simp only [Nat.reduceAdd, Nat.reduceLeDiff, decide_true, Bool.and_false, Bool.not_false,
      Bool.and_true, Bool.or_true, Bool.not_true, Bool.false_eq_true, if_false] at hwrite
    split_ifs at hwrite with hindex''
    · cases hwrite
      rfl
    · rw [storeTable_of_lt (Nat.not_le.mp hindex'')] at hwrite
      cases hwrite
      rfl
  rw [hlog, exact_decoded, hnone]
  exact fun h => nomatch h

/-! ## One write -/

variable {reg : InternalReg} {id : Nat}

/-- What the place of a port says about its label. -/
def LabelAt (id : Nat) : InternalReg → Prop
  | .defaultAttributesIndex => id = 0x232
  | .intUniform _ index => index < 4
  | .uniformValue kind => id ≠ kind.uniformSetup
  | .lutData => id ≠ 0x1c5
  | _ => True

theorem labelAt_ite {c : Prop} [Decidable c] {a b : InternalReg} (ha : c → LabelAt id a)
    (hb : ¬c → LabelAt id b) : LabelAt id (if c then a else b) := by
  by_cases h : c
  · rw [if_pos h]
    exact ha h
  · rw [if_neg h]
    exact hb h

theorem labelAt_shaderRegOf {place : Nat} (hid : id = kind.base + place) :
    LabelAt id (shaderRegOf kind place) := by
  refine labelAt_ite (fun _ => trivial) fun hzero => ?_
  refine labelAt_ite (fun hint => show place - 1 < 4 by omega) fun _ => ?_
  refine labelAt_ite (fun _ => trivial) fun _ => ?_
  refine labelAt_ite (fun hvalue => ?_) fun _ => ?_
  · show id ≠ kind.base + 0x10
    omega
  · refine labelAt_ite (fun _ => trivial) fun _ => ?_
    exact labelAt_ite (fun _ => trivial) fun _ => trivial

theorem labelAt_regOf : LabelAt id (regOf id) := by
  refine labelAt_ite (fun _ => trivial) fun _ => ?_
  refine labelAt_ite (fun _ => trivial) fun _ => ?_
  refine labelAt_ite (fun _ => trivial) fun _ => ?_
  refine labelAt_ite (fun hlut => show id ≠ 0x1c5 by omega) fun _ => ?_
  refine labelAt_ite (fun _ => trivial) fun _ => ?_
  refine labelAt_ite (fun _ => trivial) fun _ => ?_
  refine labelAt_ite (fun hindex => hindex) fun _ => ?_
  refine labelAt_ite (fun _ => trivial) fun _ => ?_
  refine labelAt_ite (fun _ => trivial) fun _ => ?_
  refine labelAt_ite (fun _ => trivial) fun _ => ?_
  refine labelAt_ite (fun _ => trivial) fun _ => ?_
  refine labelAt_ite (fun _ => trivial) fun _ => ?_
  refine labelAt_ite (fun hgs => ?_) fun _ => ?_
  · generalize hplace : id - 0x280 = place
    have hid : id = ShaderKind.gs.base + place := by
      show id = 0x280 + place
      omega
    exact labelAt_shaderRegOf hid
  · refine labelAt_ite (fun hvs => ?_) fun _ => trivial
    generalize hplace : id - 0x2b0 = place
    have hid : id = ShaderKind.vs.base + place := by
      show id = 0x2b0 + place
      omega
    exact labelAt_shaderRegOf hid

theorem labelAt_of_regOf (h : regOf id = reg) : LabelAt id reg := h ▸ labelAt_regOf

theorem regArray_maskedStore_of_ne (h : id ≠ write.id) :
    (core.maskedStore write).regArray id = core.regArray id := update_of_ne h _ _

/-- The store at the start of a write changes nothing that the ports ask for. -/
theorem allowedAt_maskedStore :
    AllowedAt (core.maskedStore write) (regOf write.id) ↔ AllowedAt core (regOf write.id) := by
  cases hreg : regOf write.id with
  | defaultAttributesValue => exact Iff.rfl
  | uniformValue kind =>
    have hmode : (core.maskedStore write).isFloat32 kind = core.isFloat32 kind := by
      have hne : write.id ≠ kind.uniformSetup := labelAt_of_regOf hreg
      rw [PicaCore.isFloat32, regArray_maskedStore_of_ne hne.symm]
      rfl
    have hunit : (core.maskedStore write).unit kind = core.unit kind := unit_setReg
    rw [AllowedAt, AllowedAt, hmode, hunit]
  | lutData =>
    have hne : write.id ≠ 0x1c5 := labelAt_of_regOf hreg
    rw [AllowedAt, AllowedAt, regArray_maskedStore_of_ne hne.symm]
  | _ => exact Iff.rfl

theorem keeps_of_frame (h : Inv pending core) (hframe : Frame core core') :
    Keeps codec pending (some (core', [])) :=
  ⟨core', [], rfl, trivial, h.frame hframe⟩

theorem keeps_of_inside {result : Option (PicaCore F Ω)} (h : Inv pending core)
    (hinside : Inside core result) : Keeps codec pending (result.map fun core => (core, [])) := by
  obtain ⟨core', rfl, hframe⟩ := hinside
  exact keeps_of_frame h hframe

/-- The other cases of the switch do nothing to the queues. -/
theorem Inv.handle (h : Inv pending core) (hallowed : AllowedAt core reg)
    (hindex : reg ≠ .defaultAttributesIndex)
    (hint : ∀ kind index, reg = .intUniform kind index → index < 4) :
    Keeps device.toF24Codec pending (core.handle device reg value) := by
  have hquiet {outside : Ω} {stopRequested : Bool} :
      Frame core { core with outside, stopRequested } :=
    ⟨rfl, rfl, fun kind => by cases kind <;> rfl, rfl⟩
  cases reg with
  | irqRequest =>
    rw [PicaCore.handle]
    split_ifs
    · exact keeps_of_frame h hquiet
    · exact keeps_of_frame h .refl
  | triangleTopology => exact keeps_of_frame h hquiet
  | restartPrimitive => exact keeps_of_frame h hquiet
  | commandBufferTrigger index => exact keeps_of_frame h hquiet
  | defaultAttributesIndex => exact absurd rfl hindex
  | defaultAttributesValue => exact h.submitImmediate hallowed
  | gpuMode => exact keeps_of_frame h .refl
  | other => exact keeps_of_frame h .refl
  | triggerDraw isIndexed => exact keeps_of_frame h (.drawn _)
  | boolUniforms kind => exact keeps_of_inside h (inside_updateShared fun s => ⟨_, rfl, rfl⟩)
  | intUniform kind index =>
    exact keeps_of_inside h (inside_updateShared fun s =>
      writeUniformIntReg_of_lt (hint kind index rfl) _ s)
  | uniformValue kind =>
    obtain ⟨core', index, log, hwrite, hlt, hexact, hinv⟩ :=
      (@Inv.writeUniformFloatReg _ _ device _ _ _ value) h hallowed
    rw [PicaCore.handle, hwrite, bind_eq_bind, bind_some]
    cases index with
    | none => exact ⟨core', log, rfl, hexact, hinv⟩
    | some index =>
      simp only [dif_pos (hlt index rfl)]
      split_ifs
      · -- the geometry shader unit gets the same uniform
        refine ⟨_, log, rfl, hexact, hinv.frame ⟨rfl, rfl, fun kind => ?_, rfl⟩⟩
        cases kind <;> rfl
      · exact ⟨core', log, rfl, hexact, hinv⟩
  | programWord kind =>
    refine keeps_of_inside h (inside_writeAtOffset (by cases kind <;> decide) ?_)
    intro offset hoffset s
    exact updateProgramCode_of_lt (hoffset.trans_le (by cases kind <;> decide)) s
  | swizzleWord kind =>
    refine keeps_of_inside h (inside_writeAtOffset (by cases kind <;> decide) ?_)
    intro offset hoffset s
    exact updateSwizzleData_of_lt hoffset s
  | vsOutputMask =>
    rw [PicaCore.handle]
    split_ifs
    · exact keeps_of_frame h (Frame.refl.setReg (by decide))
    · exact keeps_of_frame h .refl
  | lutData => exact keeps_of_inside h (inside_writeLut hallowed)
  | fogLutData => exact keeps_of_inside h inside_writeFogLut
  | proctexLutData => exact keeps_of_inside h inside_writeProctexLut

/-- A write to the index of the attribute resets the queue of the immediate mode. -/
theorem Inv.resetImmediate (h : Inv pending core) (word : Word) :
    Keeps device.toF24Codec pending
      ((core.setReg 0x232 word).handle device .defaultAttributesIndex value) := by
  refine ⟨_, _, rfl, ⟨fun _ _ _ h' => (nomatch h'), trivial⟩, ?_⟩
  have hempty : Inv (update pending .immediate [])
      { core with immediate := core.immediate.reset } :=
    h.setImmediate PackedAttribute.holds_reset (Nat.zero_le 4)
      (fun h => absurd h (Nat.not_succ_le_zero 2)) (Nat.zero_lt_succ 15)
  exact hempty.setIndex (Nat.zero_lt_succ 2)

/-- A write that is allowed stays inside of all tables, and keeps the invariant. -/
theorem Inv.step (h : Inv pending core) (hallowed : Allowed core write) :
    Keeps device.toF24Codec pending (core.writeInternalReg device write) := by
  rw [PicaCore.writeInternalReg]
  split_ifs with hid
  · exact keeps_of_frame h .refl
  · have hat := allowedAt_maskedStore.mpr (hallowed (Nat.not_le.mp hid))
    by_cases hindex : regOf write.id = .defaultAttributesIndex
    · have hid' : write.id = 0x232 := labelAt_of_regOf hindex
      rw [hindex, PicaCore.maskedStore, hid']
      exact h.resetImmediate _
    · refine (h.frame (Frame.refl.setReg fun hid' => hindex ?_)).handle hat hindex ?_
      · rw [hid']
        rfl
      · intro kind index hreg
        exact labelAt_of_regOf hreg

/-- A write that stays inside and decodes the right words is allowed. -/
theorem Inv.allowed_of_step (h : Inv pending core)
    (hwrite : core.writeInternalReg device write = some (core', log))
    (hexact : Exact device.toF24Codec pending log) : Allowed core write := by
  intro hid
  rw [PicaCore.writeInternalReg, if_neg (Nat.not_le.mpr hid)] at hwrite
  by_contra hnot
  rw [← allowedAt_maskedStore] at hnot
  cases hreg : regOf write.id with
  | defaultAttributesValue =>
    rw [hreg] at hnot hwrite
    have hnone := (@submitImmediate_eq_none _ _ device _ write.value) hnot
    rw [PicaCore.handle, hnone] at hwrite
    cases hwrite
  | uniformValue kind =>
    rw [hreg] at hnot hwrite
    obtain ⟨hmode, hindex⟩ := Classical.not_imp.mp hnot
    have hstored : Inv pending (core.maskedStore write) :=
      h.frame (Frame.refl.setReg fun hid' => by rw [hid'] at hreg; cases hreg)
    obtain ⟨⟨core'', index, log'⟩, hwrite', hrest⟩ := Option.bind_eq_some_iff.mp hwrite
    have hlog : log' = log := by
      cases index with
      | none =>
        cases hrest
        rfl
      | some index =>
        dsimp only at hrest
        split_ifs at hrest
        · cases hrest
          rfl
        · cases hrest
          rfl
    exact hstored.not_exact_writeUniformFloatReg hmode hindex hwrite' (hlog ▸ hexact)
  | lutData =>
    rw [hreg] at hnot hwrite
    have hnone : (core.maskedStore write).writeLut write.value = none := by
      rw [PicaCore.writeLut]
      exact dif_neg hnot
    rw [PicaCore.handle, hnone] at hwrite
    cases hwrite
  | _ =>
    rw [hreg] at hnot
    exact hnot trivial

/-! ## Runs -/

variable {writes front : List RegWrite}

theorem run_append (writes writes' : List RegWrite) : core.run device (writes ++ writes') =
    (core.run device writes).bind fun (core', log) =>
      (core'.run device writes').map fun (core'', rest) => (core'', log ++ rest) := by
  induction writes generalizing core with
  | nil =>
    simp only [List.nil_append, PicaCore.run, bind_some, Prod.mk.eta, Option.map_id']
  | cons write writes ih =>
    rw [List.cons_append, PicaCore.run, PicaCore.run]
    cases core.writeInternalReg device write with
    | none => rfl
    | some result =>
      simp only [bind_eq_bind, bind_some, ih]
      cases result.1.run device writes with
      | none => rfl
      | some result' =>
        simp only [bind_some, Option.pure_def]
        cases result'.1.run device writes' with
        | none => rfl
        | some result'' => simp only [Option.map_some, bind_some, List.append_assoc]

/-- The words that are pending when nothing has been written. -/
def nonePending : AttributeQueue → List Word := fun _ => []

/-- The queues are empty, and the vertex has no attributes. -/
structure Initial (core : PicaCore F Ω) : Prop where
  immediate : core.immediate.queue.index = 0
  counter : core.immediate.currentAttribute = 0
  uniform : ∀ kind, (core.unit kind).uniformQueue.index = 0

theorem Initial.inv (h : Initial core) : Inv nonePending core where
  immediate := ⟨h.immediate.symm, fun _ hi => absurd (h.immediate ▸ hi) (Nat.not_lt_zero _)⟩
  bound := h.immediate ▸ Nat.zero_le 4
  blocked hfull := absurd (h.immediate ▸ hfull) (Nat.not_succ_le_zero 2)
  uniform kind :=
    ⟨(h.uniform kind).symm, fun _ hi => absurd (h.uniform kind ▸ hi) (Nat.not_lt_zero _)⟩
  uniformBound kind := h.uniform kind ▸ Nat.zero_le 3
  counter := h.counter ▸ Nat.zero_lt_succ 15

/-- The queues hold at most four words, and the next attribute is inside of the vertex. -/
def Bounded (core : PicaCore F Ω) : Prop :=
  core.immediate.queue.index ≤ 4 ∧ (∀ kind, (core.unit kind).uniformQueue.index ≤ 4) ∧
    core.immediate.currentAttribute < 16

theorem Inv.bounded (h : Inv pending core) : Bounded core :=
  ⟨h.bound, fun kind => (h.uniformBound kind).trans (Nat.le_succ 3), h.counter⟩

/-- Every state that is reached is bounded, no access is outside of its table, and every attribute
is decoded from the words written since the one before it or since a reset. -/
def Sound (device : Device F Ω) (core : PicaCore F Ω) (writes : List RegWrite) : Prop :=
  ∀ front, front <+: writes → ∃ core' log, core.run device front = some (core', log) ∧
    Bounded core' ∧ Exact device.toF24Codec nonePending log

/-- Every write is allowed in the state that it is made in. -/
def AllAllowed (device : Device F Ω) (core : PicaCore F Ω) (writes : List RegWrite) : Prop :=
  ∀ front write, front ++ [write] <+: writes → ∀ core' log,
    core.run device front = some (core', log) → Allowed core' write

theorem AllAllowed.of_append (h : AllAllowed device core (front ++ writes)) :
    AllAllowed device core front :=
  fun front' write hfront => h front' write (hfront.trans (List.prefix_append _ _))

/-- The run lemma: the invariant holds behind a run whose writes are all allowed. -/
theorem Initial.run (h : Initial core) (hallowed : AllAllowed device core writes) :
    Keeps device.toF24Codec nonePending (core.run device writes) := by
  induction writes using List.reverseRecOn with
  | nil => exact ⟨core, [], rfl, trivial, h.inv⟩
  | append_singleton front write ih =>
    obtain ⟨core', log, hrun, hexact, hinv⟩ := ih hallowed.of_append
    obtain ⟨core'', rest, hwrite, hexact', hinv'⟩ := (@Inv.step _ _ device) hinv
      (hallowed front write (List.prefix_refl _) core' log hrun)
    refine ⟨core'', log ++ rest, ?_, exact_append.mpr ⟨hexact, hexact'⟩, ?_⟩
    · rw [run_append, hrun]
      simp only [bind_some, PicaCore.run, hwrite, bind_eq_bind, Option.pure_def,
        Option.map_some, List.append_nil]
    · rwa [pendingAfter_append]

theorem AllAllowed.nil : AllAllowed device core [] := fun front write h => by simp at h

theorem AllAllowed.concat (h : AllAllowed device core front)
    (hlast : ∀ core' log, core.run device front = some (core', log) → Allowed core' write) :
    AllAllowed device core (front ++ [write]) := by
  intro front' write' hprefix core' log hrun
  rcases List.prefix_concat_iff.mp hprefix with heq | hprefix
  · obtain ⟨rfl, hwrite⟩ := List.append_inj' heq rfl
    obtain rfl : write' = write := by simpa using hwrite
    exact hlast core' log hrun
  · exact h front' write' hprefix core' log hrun

theorem Sound.of_append (h : Sound device core (front ++ writes)) : Sound device core front :=
  fun front' hfront => h front' (hfront.trans (List.prefix_append _ _))

/-- Runs of register writes stay inside of their buffers exactly if all of the writes are allowed. -/
theorem sound_iff (device : Device F Ω) (core : PicaCore F Ω) (hinitial : Initial core)
    (writes : List RegWrite) : Sound device core writes ↔ AllAllowed device core writes := by
  constructor
  · intro hsound
    induction writes using List.reverseRecOn with
    | nil => exact .nil
    | append_singleton front write ih =>
      have hfront := ih hsound.of_append
      refine hfront.concat fun core' log hrun => ?_
      obtain ⟨core₁, log₁, hrun', hexact, hinv⟩ := (@Initial.run _ _ device) hinitial hfront
      obtain ⟨rfl, rfl⟩ : core₁ = core' ∧ log₁ = log := by
        simpa using hrun'.symm.trans hrun
      obtain ⟨core'', log', hall, -, hexact'⟩ := hsound _ (List.prefix_refl _)
      rw [run_append, hrun', bind_some] at hall
      obtain ⟨⟨core₂, rest⟩, hwrite', hlog⟩ := Option.map_eq_some_iff.mp hall
      obtain ⟨⟨core₃, rest'⟩, hstep, hnil⟩ := Option.bind_eq_some_iff.mp hwrite'
      cases hnil
      cases hlog
      rw [List.append_nil, exact_append] at hexact'
      exact hinv.allowed_of_step hstep hexact'.2
  · intro hallowed front hprefix
    obtain ⟨rest, rfl⟩ := hprefix
    obtain ⟨core', log, hrun, hexact, hinv⟩ := (@Initial.run _ _ device) hinitial hallowed.of_append
    exact ⟨core', log, hrun, hinv.bounded, hexact⟩

/-- A device whose floats are their bits and that draws nothing. -/
def idleDevice : Device Word Unit where
  fromRaw w := w
  fromFloat32 w := w
  drawImmediate core := ⟨core.gsSetup.f, core.gsSetup.setup, core.vsSetup.setup, ()⟩
  drawArrays _ core := ⟨core.gsSetup.f, core.gsSetup.setup, core.vsSetup.setup, ()⟩
  effect _ _ := ()

/-- A unit of zeros. -/
def emptyUnit : ShaderUnitSetup Word where
  setup := {}
  f _ := ⟨0, 0, 0, 0⟩
  b _ := false
  i _ := ⟨0, 0, 0, 0⟩
  uniformQueue := {}

/-- The state at the start, with all registers zero. -/
def emptyCore : PicaCore Word Unit where
  regArray _ := 0
  gsSetup := emptyUnit
  vsSetup := emptyUnit
  proctex := ⟨fun _ => 0, fun _ => 0, fun _ => 0, fun _ => 0, fun _ => 0⟩
  luts _ _ := 0
  fogLut _ := 0
  inputDefaultAttributes _ := ⟨0, 0, 0, 0⟩
  immediate := ⟨fun _ => ⟨0, 0, 0, 0⟩, 0, true, {}⟩
  stopRequested := false
  outside := ()

theorem initial_emptyCore : Initial emptyCore where
  immediate := rfl
  counter := rfl
  uniform kind := by cases kind <;> rfl

/-- The three words of a default attribute stay inside. -/
theorem sound_iff_default :
    Sound idleDevice emptyCore
      [⟨0x232, 3, 15⟩, ⟨0x233, 1, 15⟩, ⟨0x233, 2, 15⟩, ⟨0x233, 3, 15⟩] := by
  refine (sound_iff idleDevice emptyCore initial_emptyCore _).mpr
    ((((AllAllowed.nil.concat ?_).concat ?_).concat ?_).concat ?_)
  · exact fun _ _ _ _ => trivial
  all_goals
    intro core' log hrun _
    cases hrun
    show (_ : Nat) < 4
    decide

/-- An attribute index of 16, and five words: the last one is pushed behind the queue. -/
theorem not_sound_blocked : Initial emptyCore ∧ ¬Sound idleDevice emptyCore
    (⟨0x232, 0x10, 15⟩ :: List.replicate 5 ⟨0x233, 0, 15⟩) := by
  refine ⟨initial_emptyCore, fun h => ?_⟩
  obtain ⟨core', log, hrun, -⟩ := h _ (List.prefix_refl _)
  have hnone : emptyCore.run idleDevice
      (⟨0x232, 0x10, 15⟩ :: List.replicate 5 ⟨0x233, 0, 15⟩) = none := by
    rfl
  rw [hnone] at hrun
  cases hrun

end GbaStation.Pica
