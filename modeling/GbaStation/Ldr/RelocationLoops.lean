import GbaStation.Common.Effects
import GbaStation.Ldr.CroHelper
import GbaStation.Ldr.InvalidationBatch
import GbaStation.Ldr.Relocation

/-!
# The loops over relocations (`core/hle/service/ldr_ro/cro_helper.cpp`)

A module is relocated by loops over its tables of relocations. A loop may fail in the middle; what
it has written stays, and the pages it has collected are invalidated.

- Every entry, and the header fields behind it, are read in the memory as the loop has left it.
-/

namespace GbaStation.Ldr

open FlatMemory RelocationInvalidationBatch
open GbaStation.Core.Invalidation (Call CacheSystem)

/-! ## Entries -/

def RelocationType.ofRaw (raw : BitVec 8) : RelocationType :=
  if raw = 0 then .nothing
  else if raw = 2 then .absoluteAddress
  else if raw = 3 then .relativeAddress
  else if raw = 10 then .thumbBranch
  else if raw = 28 then .armBranch
  else if raw = 29 then .modifyArmBranch
  else if raw = 38 then .absoluteAddress2
  else if raw = 42 then .alignedRelativeAddress
  else .unknown

/-- `RelocationEntry`, with its padding. -/
structure RelocationEntry where
  targetPosition : SegmentTag
  type : BitVec 8
  isBatchEnd : BitVec 8
  isBatchResolved : BitVec 8
  padding : BitVec 8
  addend : Word

def RelocationEntry.size : Nat := 12

def RelocationEntry.read (m : FlatMemory) (a : Word) : RelocationEntry where
  targetPosition := m.read32 a
  type := m (a + 4)
  isBatchEnd := m (a + 5)
  isBatchResolved := m (a + 6)
  padding := m (a + 7)
  addend := m.read32 (a + 8)

def RelocationEntry.write (e : RelocationEntry) (m : FlatMemory) (a : Word) : FlatMemory :=
  let m := m.write32 a e.targetPosition
  let m := m.write16 (a + 4) (e.isBatchEnd ++ e.type)
  let m := m.write16 (a + 6) (e.padding ++ e.isBatchResolved)
  m.write32 (a + 8) e.addend

structure InternalRelocationEntry where
  targetPosition : SegmentTag
  type : BitVec 8
  symbolSegment : BitVec 8
  addend : Word

def InternalRelocationEntry.read (m : FlatMemory) (a : Word) : InternalRelocationEntry where
  targetPosition := m.read32 a
  type := m (a + 4)
  symbolSegment := m (a + 5)
  addend := m.read32 (a + 8)

namespace CroHelper

variable (cro : CroHelper)

/-- The address of an entry of the external relocations. -/
def externalRelocation (index : Word) : Word :=
  cro.getField .externalRelocationTableOffset + index * 12

def internalRelocation (index : Word) : Word :=
  cro.getField .internalRelocationTableOffset + index * 12

/-- `GetOnUnresolvedAddress`. -/
def getOnUnresolvedAddress : Word :=
  cro.segmentTagToAddress (cro.getField .onUnresolvedSegmentTag)

end CroHelper

/-! ## The loops -/

/-- A module while a loop relocates it. -/
structure Relocating where
  cro : CroHelper
  /-- The pages that have been collected. -/
  pages : List Word
  /-- Where relocations were written. -/
  targets : List Word
  /-- The entries that were written back. -/
  entries : List Word

/-- Why a loop stops early. -/
inductive LoopStop where
  | error (e : ErrorCode)
  /-- The turns that were given are used up. -/
  | turns

abbrev Relocate (α : Type) := Effect Relocating LoopStop α

/-- `Add` of a target, unless the type is `Nothing`, and what `relocation` does to the memory. -/
def patch (target : Word) (type : RelocationType)
    (relocation : FlatMemory → Except ErrorCode FlatMemory) : Relocate Unit := do
  modify fun s =>
    { s with pages := if type = .nothing then s.pages else s.pages ++ addedPages target 4 }
  let s ← get
  match relocation s.cro.memory with
  | .error e => throw (.error e)
  | .ok m =>
    modify fun s =>
      { s with
        cro := { s.cro with memory := m }
        targets := if type = .nothing then s.targets else target :: s.targets }

/-- An entry is written back with another `is_batch_resolved`. -/
def setResolved (a : Word) (entry : RelocationEntry) (resolved : BitVec 8) : Relocate Unit :=
  modify fun s =>
    let memory := { entry with isBatchResolved := resolved }.write s.cro.memory a
    { s with
      cro := { s.cro with memory }
      entries := a :: s.entries }

/-- The loop of `ApplyRelocationBatch`. -/
def applyBatchFrom (symbolAddress : Word) : Nat → Word → Relocate Unit
  | 0, _ => throw .turns
  | turns + 1, relocationAddress => do
    let s ← get
    let relocation := RelocationEntry.read s.cro.memory relocationAddress
    let target := s.cro.segmentTagToAddress relocation.targetPosition
    if target = 0 then throw (.error (.croFormat 0x12))
    else
      let type := RelocationType.ofRaw relocation.type
      patch target type fun m =>
        applyRelocation m target type relocation.addend symbolAddress target
      if relocation.isBatchEnd ≠ 0 then pure ()
      else applyBatchFrom symbolAddress turns (relocationAddress + 12)

/-- `ApplyRelocationBatch`, with so many turns of its loop. -/
def applyRelocationBatch (turns : Nat) (batch symbolAddress : Word) (reset : Bool) :
    Relocate Unit := do
  if symbolAddress = 0 ∧ ¬reset then throw (.error (.croFormat 0x10))
  else
    applyBatchFrom symbolAddress turns batch
    let s ← get
    setResolved batch (.read s.cro.memory batch) (if reset then 0 else 1)

/-- A turn of the loops over the external relocations. The value is whether the next relocation
begins a batch. -/
def externalTurn (relocate : RelocationEntry → Word → FlatMemory → Except ErrorCode FlatMemory)
    (batchBegin : Bool) (i : Nat) : Relocate Bool := do
  let s ← get
  let relocation := RelocationEntry.read s.cro.memory (s.cro.externalRelocation (.ofNat 32 i))
  let target := s.cro.segmentTagToAddress relocation.targetPosition
  if target = 0 then throw (.error (.croFormat 0x12))
  else
    patch target (.ofRaw relocation.type) (relocate relocation target)
    if batchBegin then
      let s ← get
      setResolved (s.cro.externalRelocation (.ofNat 32 i)) relocation 0
      pure (relocation.isBatchEnd ≠ 0)
    else pure (relocation.isBatchEnd ≠ 0)

/-- `ResetExternalRelocations`. -/
def resetExternalRelocations : Relocate Unit := do
  let s ← get
  let unresolvedSymbol := s.cro.getOnUnresolvedAddress
  let num := s.cro.getField .externalRelocationNum
  if (RelocationEntry.read s.cro.memory (s.cro.externalRelocation (num - 1))).isBatchEnd = 0 then
    throw (.error (.croFormat 0x12))
  else
    let _ ← (List.range num.toNat).foldlM
      (externalTurn fun relocation target m =>
        applyRelocation m target (.ofRaw relocation.type) relocation.addend unresolvedSymbol target)
      true
    pure ()

/-- `ClearExternalRelocations`. -/
def clearExternalRelocations : Relocate Unit := do
  let s ← get
  let num := s.cro.getField .externalRelocationNum
  let _ ← (List.range num.toNat).foldlM
    (externalTurn fun relocation target m => clearRelocation m target (.ofRaw relocation.type)) true
  pure ()

/-- A turn of `ApplyInternalRelocations`. Data is relocated in the old buffer. -/
def applyInternalTurn (oldDataSegmentAddress segmentNum : Word) (i : Nat) : Relocate Unit := do
  let s ← get
  let relocation := InternalRelocationEntry.read s.cro.memory
    (s.cro.internalRelocation (.ofNat 32 i))
  let tag := relocation.targetPosition
  let targetB := s.cro.segmentTagToAddress tag
  if targetB = 0 then throw (.error (.croFormat 0x15))
  else
    let target :=
      if (s.cro.segmentEntry tag.segmentIndex).type = .data then
        oldDataSegmentAddress + tag.offsetIntoSegment
      else targetB
    let symbolSegment := relocation.symbolSegment.setWidth 32
    if symbolSegment ≥ segmentNum then throw (.error (.croFormat 0x15))
    else
      let symbol := (s.cro.segmentEntry symbolSegment).offset
      let type := RelocationType.ofRaw relocation.type
      patch target type fun m => applyRelocation m target type relocation.addend symbol targetB

/-- `ApplyInternalRelocations`. -/
def applyInternalRelocations (oldDataSegmentAddress : Word) : Relocate Unit := do
  let s ← get
  let segmentNum := s.cro.getField .segmentNum
  let num := s.cro.getField .internalRelocationNum
  (List.range num.toNat).foldlM
    (fun _ i => applyInternalTurn oldDataSegmentAddress segmentNum i) ()

/-- A turn of `ClearInternalRelocations`. -/
def clearInternalTurn (i : Nat) : Relocate Unit := do
  let s ← get
  let relocation := InternalRelocationEntry.read s.cro.memory
    (s.cro.internalRelocation (.ofNat 32 i))
  let target := s.cro.segmentTagToAddress relocation.targetPosition
  if target = 0 then throw (.error (.croFormat 0x15))
  else
    let type := RelocationType.ofRaw relocation.type
    patch target type fun m => clearRelocation m target type

/-- `ClearInternalRelocations`. -/
def clearInternalRelocations : Relocate Unit := do
  let s ← get
  let num := s.cro.getField .internalRelocationNum
  (List.range num.toNat).foldlM (fun _ i => clearInternalTurn i) ()

/-- The loops that collect pages. -/
inductive RelocationLoop where
  | applyRelocationBatch (batch symbolAddress : Word) (reset : Bool)
  | resetExternalRelocations
  | clearExternalRelocations
  | applyInternalRelocations (oldDataSegmentAddress : Word)
  | clearInternalRelocations

namespace RelocationLoop

def body (turns : Nat) : RelocationLoop → Relocate Unit
  | applyRelocationBatch batch symbolAddress reset =>
    Ldr.applyRelocationBatch turns batch symbolAddress reset
  | resetExternalRelocations => Ldr.resetExternalRelocations
  | clearExternalRelocations => Ldr.clearExternalRelocations
  | applyInternalRelocations oldDataSegmentAddress =>
    Ldr.applyInternalRelocations oldDataSegmentAddress
  | clearInternalRelocations => Ldr.clearInternalRelocations

/-- How the loop ends, and what it leaves. -/
def run (loop : RelocationLoop) (turns : Nat) (cro : CroHelper) :
    Except LoopStop Unit × Relocating :=
  (loop.body turns).runOn { cro, pages := [], targets := [], entries := [] }

/-- What is invalidated when the loop returns, with an error or without. -/
def flushed (loop : RelocationLoop) (turns : Nat) (cro : CroHelper) : Option (List Call) :=
  match (loop.run turns cro).1 with
  | .error .turns => none
  | _ => some (flush (loop.run turns cro).2.pages)

end RelocationLoop

/-! ## What a loop writes -/

/-- A loop has changed targets and entries that it wrote back only, and has collected the pages of
the targets. -/
structure Accounted (m : FlatMemory) (s : Relocating) : Prop where
  unchanged : ∀ b, (∀ target ∈ s.targets, ¬InBlock target 4 b) →
    (∀ a ∈ s.entries, ¬InBlock a RelocationEntry.size b) → s.cro.memory b = m b
  collected : ∀ target ∈ s.targets, ∀ b, InBlock target 4 b →
    ∃ page ∈ s.pages, InBlock page citraPageSize b
  isPage : ∀ page ∈ s.pages, IsPage page

variable {m m₀ m' : FlatMemory} {target a b : Word} {type : RelocationType}

theorem eq_of_sameOutside (h : SameOutside target m m') (hb : ¬InBlock target 4 b) :
    m' b = m b := by
  rw [InBlock] at hb
  exact h b (by bv_omega) (by bv_omega) (by bv_omega) (by bv_omega)

theorem write16_of_not_inBlock (v : Halfword) (hb : ¬InBlock a 2 b) : m.write16 a v b = m b := by
  rw [InBlock] at hb
  exact write16_of_ne v (by bv_omega) (by bv_omega)

theorem RelocationEntry.write_of_not_inBlock (e : RelocationEntry)
    (hb : ¬InBlock a RelocationEntry.size b) : e.write m a b = m b := by
  rw [InBlock, RelocationEntry.size] at hb
  have hword : ∀ (m : FlatMemory) (v : Word), m.write32 a v b = m b := fun m v =>
    eq_of_sameOutside (sameOutside_write32 m a v) (by rw [InBlock]; omega)
  have hlast : ∀ (m : FlatMemory) (v : Word), m.write32 (a + 8) v b = m b := fun m v =>
    eq_of_sameOutside (sameOutside_write32 m (a + 8) v) (by rw [InBlock]; bv_omega)
  rw [RelocationEntry.write, hlast, write16_of_not_inBlock _ (by rw [InBlock]; bv_omega),
    write16_of_not_inBlock _ (by rw [InBlock]; bv_omega), hword]

/-- A relocation writes four bytes, or none. -/
def WritesTarget (target : Word) (type : RelocationType)
    (relocation : FlatMemory → Except ErrorCode FlatMemory) : Prop :=
  ∀ m m', relocation m = .ok m' → SameOutside target m m' ∧ (type = .nothing → m' = m)

theorem writesTarget_applyRelocation (addend symbol future : Word) :
    WritesTarget target type fun m => applyRelocation m target type addend symbol future := by
  intro m m' h
  cases type with
  | unknown => cases h
  | nothing =>
    obtain rfl := Except.ok.inj h
    exact ⟨fun _ _ _ _ _ => rfl, fun _ => rfl⟩
  | thumbBranch =>
    obtain rfl := Except.ok.inj h
    exact ⟨sameOutside_write16 m target _ _, fun h => by cases h⟩
  | _ =>
    obtain rfl := Except.ok.inj h
    exact ⟨sameOutside_write32 m target _, fun h => by cases h⟩

theorem writesTarget_clearRelocation :
    WritesTarget target type fun m => clearRelocation m target type := by
  intro m m' h
  cases type with
  | unknown => cases h
  | nothing =>
    obtain rfl := Except.ok.inj h
    exact ⟨fun _ _ _ _ _ => rfl, fun _ => rfl⟩
  | thumbBranch =>
    obtain rfl := Except.ok.inj h
    exact ⟨sameOutside_write16 m target _ _, fun h => by cases h⟩
  | _ =>
    obtain rfl := Except.ok.inj h
    exact ⟨sameOutside_write32 m target _, fun h => by cases h⟩

open Effect

/-! ## Steps of the loops -/

/-- Pages that are collected too do no harm. -/
theorem Accounted.collect {s : Relocating} (h : Accounted m₀ s) (target : Word) :
    Accounted m₀ { s with pages := s.pages ++ addedPages target 4 } := by
  constructor
  · exact h.unchanged
  · intro t ht b hb
    obtain ⟨page, hpage, hin⟩ := h.collected t ht b hb
    exact ⟨page, List.mem_append_left _ hpage, hin⟩
  · intro page hpage
    rcases List.mem_append.mp hpage with hpage | hpage
    · exact h.isPage page hpage
    · exact isPage_of_mem_addedPages page hpage

theorem keeps_patch {relocation : FlatMemory → Except ErrorCode FlatMemory}
    (hwrites : WritesTarget target type relocation) :
    Keeps (Accounted m₀) (patch target type relocation) := by
  intro s hs
  rw [patch, runOn_modify_bind, runOn_get_bind]
  by_cases htype : type = .nothing
  · simp only [if_pos htype]
    split
    · exact hs
    · rename_i m h
      obtain rfl := (hwrites _ _ h).2 htype
      exact hs
  · simp only [if_neg htype]
    have hcollect := hs.collect target
    split
    · exact hcollect
    · rename_i m h
      refine ⟨fun b htargets hentries => ?_, fun t ht b hb => ?_, hcollect.isPage⟩
      · obtain ⟨htarget, htargets⟩ := List.forall_mem_cons.mp htargets
        exact (eq_of_sameOutside (hwrites _ _ h).1 htarget).trans (hs.unchanged b htargets hentries)
      · rcases List.mem_cons.mp ht with rfl | ht
        · obtain ⟨page, hpage, hin⟩ := exists_addedPages hb
          exact ⟨page, List.mem_append_right _ hpage, hin⟩
        · exact hcollect.collected t ht b hb

theorem keeps_setResolved (a : Word) (entry : RelocationEntry) (resolved : BitVec 8) :
    Keeps (Accounted m₀) (setResolved a entry resolved) := by
  refine keeps_modify fun s hs => ⟨fun b htargets hentries => ?_, hs.collected, hs.isPage⟩
  obtain ⟨ha, hentries⟩ := List.forall_mem_cons.mp hentries
  exact (RelocationEntry.write_of_not_inBlock _ ha).trans (hs.unchanged b htargets hentries)

theorem keeps_applyBatchFrom (symbolAddress : Word) (turns : Nat) (relocationAddress : Word) :
    Keeps (Accounted m₀) (applyBatchFrom symbolAddress turns relocationAddress) := by
  induction turns generalizing relocationAddress with
  | zero => exact keeps_throw _
  | succ turns ih =>
    refine keeps_bind keeps_get fun s => keeps_ite (keeps_throw _) ?_
    refine keeps_bind (keeps_patch (writesTarget_applyRelocation _ _ _)) fun _ => ?_
    exact keeps_ite (keeps_pure _) (ih _)

theorem keeps_externalTurn
    {relocate : RelocationEntry → Word → FlatMemory → Except ErrorCode FlatMemory}
    (hwrites : ∀ relocation target,
      WritesTarget target (.ofRaw relocation.type) (relocate relocation target))
    (batchBegin : Bool) (i : Nat) : Keeps (Accounted m₀) (externalTurn relocate batchBegin i) := by
  refine keeps_bind keeps_get fun s => keeps_ite (keeps_throw _) ?_
  refine keeps_bind (keeps_patch (hwrites _ _)) fun _ => keeps_ite ?_ (keeps_pure _)
  exact keeps_bind keeps_get fun s => keeps_bind (keeps_setResolved _ _ _) fun _ => keeps_pure _

theorem keeps_applyInternalTurn (oldDataSegmentAddress segmentNum : Word) (i : Nat) :
    Keeps (Accounted m₀) (applyInternalTurn oldDataSegmentAddress segmentNum i) := by
  refine keeps_bind keeps_get fun s => keeps_ite (keeps_throw _) (keeps_ite (keeps_throw _) ?_)
  exact keeps_patch (writesTarget_applyRelocation _ _ _)

theorem keeps_clearInternalTurn (i : Nat) : Keeps (Accounted m₀) (clearInternalTurn i) := by
  refine keeps_bind keeps_get fun s => keeps_ite (keeps_throw _) ?_
  exact keeps_patch writesTarget_clearRelocation

theorem RelocationLoop.keeps_body (loop : RelocationLoop) (turns : Nat) :
    Keeps (Accounted m₀) (loop.body turns) := by
  cases loop with
  | applyRelocationBatch batch symbolAddress reset =>
    refine keeps_ite (keeps_throw _) (keeps_bind (keeps_applyBatchFrom _ _ _) fun _ => ?_)
    exact keeps_bind keeps_get fun s => keeps_setResolved _ _ _
  | resetExternalRelocations =>
    refine keeps_bind keeps_get fun s => keeps_ite (keeps_throw _) ?_
    refine keeps_bind (keeps_foldlM (keeps_externalTurn fun relocation target => ?_) _ _)
      fun _ => keeps_pure _
    exact writesTarget_applyRelocation _ _ _
  | clearExternalRelocations =>
    refine keeps_bind keeps_get fun s => ?_
    refine keeps_bind (keeps_foldlM (keeps_externalTurn fun relocation target => ?_) _ _)
      fun _ => keeps_pure _
    exact writesTarget_clearRelocation
  | applyInternalRelocations oldDataSegmentAddress =>
    refine keeps_bind keeps_get fun s => keeps_foldlM (fun _ i => ?_) _ _
    exact keeps_applyInternalTurn _ _ i
  | clearInternalRelocations =>
    exact keeps_bind keeps_get fun s => keeps_foldlM (fun _ i => keeps_clearInternalTurn i) _ _

/-! ## What is invalidated -/

/-- The loop wrote to the byte for a relocation. -/
def Relocating.Relocated (s : Relocating) (b : Word) : Prop :=
  ∃ target ∈ s.targets, InBlock target 4 b

/-- The byte is of an entry that the loop wrote back. -/
def Relocating.WrittenBack (s : Relocating) (b : Word) : Prop :=
  ∃ a ∈ s.entries, InBlock a RelocationEntry.size b

theorem RelocationLoop.accounted (loop : RelocationLoop) (turns : Nat) (cro : CroHelper) :
    Accounted cro.memory (loop.run turns cro).2 := by
  refine loop.keeps_body turns _ ⟨fun _ _ _ => rfl, fun _ h => ?_, fun _ h => ?_⟩
  · cases h
  · cases h

/-- A loop that returns invalidates the bytes of its relocations, unless it collected all pages, and
has changed nothing else but the entries that it wrote back. -/
theorem RelocationLoop.flush_covers (loop : RelocationLoop) (turns : Nat) (cro : CroHelper)
    {requests : List Call} (hreturns : loop.flushed turns cro = some requests)
    (hmissing : ∃ page, IsPage page ∧ page ∉ (loop.run turns cro).2.pages) (b : Word) :
    ((loop.run turns cro).2.Relocated b → ∃ call ∈ requests, call.Requests b.toNat) ∧
    ((loop.run turns cro).2.cro.memory b ≠ cro.memory b →
      (loop.run turns cro).2.Relocated b ∨ (loop.run turns cro).2.WrittenBack b) := by
  have haccounted := loop.accounted turns cro
  obtain ⟨missing, hpage, hnot⟩ := hmissing
  have hrequests : requests = flush (loop.run turns cro).2.pages := by
    rw [flushed] at hreturns
    split at hreturns
    · cases hreturns
    · exact (Option.some.inj hreturns).symm
  constructor
  · rintro ⟨target, htarget, hb⟩
    obtain ⟨page, hcollected, hin⟩ := haccounted.collected target htarget b hb
    rw [hrequests, flush_requests_iff haccounted.isPage hpage hnot]
    refine ⟨page, hcollected, ?_⟩
    have hend := (haccounted.isPage page hcollected).le_end
    rw [InBlock, BitVec.toNat_sub] at hin
    omega
  · intro hchanged
    by_contra hneither
    obtain ⟨htargets, hentries⟩ := not_or.mp hneither
    exact hchanged (haccounted.unchanged b (fun target htarget hb => htargets ⟨target, htarget, hb⟩)
      fun a ha hb => hentries ⟨a, ha, hb⟩)

/-- Nothing that was requested in an outermost batch is lost, and nothing that a loop relocated. -/
theorem invalidation_loses_nothing (Cpu : Type) :
    (∀ (s : CacheSystem Cpu) (calls : List Call), s.batchDepth = 0 → s.pending = [] →
      Core.Invalidation.Nested calls → (∀ call ∈ calls, call.Fits) →
      ∃ s', Core.Invalidation.run s (.beginBatch :: calls ++ [.endBatch]) = some s' ∧
        s'.batchDepth = 0 ∧ s'.pending = [] ∧
        ∃ told, (∀ cpu, s'.invalidated cpu = s.invalidated cpu ++ told) ∧
          Interval.Normal (told.map Core.Invalidation.toInterval) ∧
          ∀ b, b ∈ Interval.cover (told.map Core.Invalidation.toInterval) ↔
            ∃ call ∈ calls, call.Requests b) ∧
    ∀ (loop : RelocationLoop) (turns : Nat) (cro : CroHelper) (requests : List Call),
      loop.flushed turns cro = some requests →
      (∃ page, IsPage page ∧ page ∉ (loop.run turns cro).2.pages) → ∀ b,
        ((loop.run turns cro).2.Relocated b → ∃ call ∈ requests, call.Requests b.toNat) ∧
        ((loop.run turns cro).2.cro.memory b ≠ cro.memory b →
          (loop.run turns cro).2.Relocated b ∨ (loop.run turns cro).2.WrittenBack b) :=
  ⟨fun s _ hdepth hpending hnested hfits =>
      Core.Invalidation.run_batch s hdepth hpending hnested hfits,
    fun loop turns cro _ hreturns hmissing b => loop.flush_covers turns cro hreturns hmissing b⟩

/-- A module with one segment and one external relocation, of a type. -/
def oneRelocation (type : BitVec 8) : CroHelper where
  memory a :=
    -- the segment table, the number of segments, the relocations and their number
    if a = 0x10C9 then 0x20
    else if a = 0x10CC then 1
    else if a = 0x10F9 then 0x30
    else if a = 0x10FC then 1
    -- the segment, at an address and with a size
    else if a = 0x2001 then 0x40
    else if a = 0x2004 then 0x10
    -- the relocation is the end of a batch, which is resolved
    else if a = 0x3004 then type
    else if a = 0x3005 then 1
    else if a = 0x3006 then 1
    else 0
  moduleAddress := 0x1000

/-- A request in a batch, and a word that is relocated. -/
theorem invalidation_loses_nothing_once :
    (∃ s', Core.Invalidation.run (⟨0, [], fun _ => []⟩ : CacheSystem (Fin 4))
      (.beginBatch :: [.invalidate 0x1000 8] ++ [.endBatch]) = some s' ∧ s'.pending = []) ∧
    ∀ b, InBlock 0x4000 4 b → ∃ call ∈ flush (addedPages 0x4000 4), call.Requests b.toNat := by
  obtain ⟨hbatch, hloops⟩ := invalidation_loses_nothing (Fin 4)
  constructor
  · have hfits : ∀ call ∈ [Call.invalidate 0x1000 8], call.Fits := by
      intro call hcall startAddress length h
      rw [List.mem_singleton.mp hcall] at h
      cases h
      decide
    obtain ⟨s', hrun, -, hpending, -⟩ :=
      hbatch ⟨0, [], fun _ => []⟩ _ rfl rfl (.invalidate _ _ .nil) hfits
    exact ⟨s', hrun, hpending⟩
  · intro b hb
    have hpages : ((RelocationLoop.applyRelocationBatch 0x3000 0x100 false).run 1
        (oneRelocation 2)).2.pages = addedPages 0x4000 4 := by
      rfl
    have htargets : ((RelocationLoop.applyRelocationBatch 0x3000 0x100 false).run 1
        (oneRelocation 2)).2.targets = [0x4000] := by
      rfl
    have hmissing : (0 : Word) ∉ addedPages 0x4000 4 := by decide
    obtain ⟨hcovers, -⟩ := hloops (.applyRelocationBatch 0x3000 0x100 false) 1 (oneRelocation 2)
      (flush (addedPages 0x4000 4)) rfl ⟨0, rfl, hpages ▸ hmissing⟩ b
    refine hcovers ⟨0x4000, ?_, hb⟩
    rw [htargets]
    exact List.mem_singleton_self _

/-- The entry that is written back is not invalidated. -/
theorem not_flush_covers :
    ¬∀ (loop : RelocationLoop) (turns : Nat) (cro : CroHelper) (requests : List Call),
      loop.flushed turns cro = some requests → ∀ b,
        (loop.run turns cro).2.cro.memory b ≠ cro.memory b →
          ∃ call ∈ requests, call.Requests b.toNat := by
  intro h
  have hpages : (RelocationLoop.resetExternalRelocations.run 0 (oneRelocation 0)).2.pages = [] := by
    rfl
  have hflush : RelocationLoop.resetExternalRelocations.flushed 0 (oneRelocation 0) = some [] := by
    have hflushed : RelocationLoop.resetExternalRelocations.flushed 0 (oneRelocation 0) =
        some (flush (RelocationLoop.resetExternalRelocations.run 0 (oneRelocation 0)).2.pages) := by
      rfl
    rw [hflushed, hpages]
    simp [flush, sortedPages]
  have hafter : (RelocationLoop.resetExternalRelocations.run 0
      (oneRelocation 0)).2.cro.memory 0x3006 = 0 := by
    rfl
  have hbefore : (oneRelocation 0).memory 0x3006 = 1 := by decide
  obtain ⟨call, hcall, -⟩ := h _ _ _ _ hflush 0x3006 (by rw [hafter, hbefore]; decide)
  exact absurd hcall List.not_mem_nil

end GbaStation.Ldr
