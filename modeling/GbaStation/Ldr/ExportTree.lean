import GbaStation.Common.FiniteWalks
import GbaStation.Ldr.CroHelper

/-!
# The export tree (`core/hle/service/ldr_ro/cro_helper.cpp`)

The names that a module exports are found through a tree in the module. Each entry tests one bit of
the name, and the last edge leads to an entry that has the symbol.

- `descend` is the loop of `FindExportNamedSymbol` with so many turns; `none` is one that goes on.
- `findExportNamedSymbol_iff`: the lookup ends unless it circles, and in a trie it is right.
-/

namespace GbaStation.Ldr

open FiniteWalks FlatMemory Relation

/-- A name, without the zero byte at its end. -/
abbrev Name := List (BitVec 8)

/-! ## The module -/

/-- An edge: `next_index` and, in the highest bit, `is_end`. -/
abbrev Child := Halfword

def Child.nextIndex (next : Child) : Word := (next &&& 0x7FFF).setWidth 32

def Child.isEnd (next : Child) : Bool := next.getLsbD 15

/-- `ExportTreeEntry`. -/
structure ExportTreeEntry where
  testBit : Halfword
  left : Child
  right : Child
  exportTableIndex : Halfword

namespace CroHelper

variable (cro : CroHelper)

/-- `GetEntry` of the export tree. -/
def exportTreeEntry (index : Word) : ExportTreeEntry :=
  let entry := cro.getField .exportTreeTableOffset + index * 8
  { testBit := cro.memory.read16 entry
    left := cro.memory.read16 (entry + 2)
    right := cro.memory.read16 (entry + 4)
    exportTableIndex := cro.memory.read16 (entry + 6) }

/-- `MemorySystem::ReadCString`. -/
def readCString (m : FlatMemory) (vaddr : Word) : Nat → Name
  | 0 => []
  | maxLength + 1 => if m vaddr = 0 then [] else m vaddr :: readCString m (vaddr + 1) maxLength

/-- The name of an exported symbol. -/
def exportName (index : Word) : Name :=
  let entry := cro.getField .exportNamedSymbolTableOffset + index * 8
  readCString cro.memory (cro.memory.read32 entry) (cro.getField .exportStringsSize).toNat

/-- The address of an exported symbol. -/
def exportAddress (index : Word) : Word :=
  let entry := cro.getField .exportNamedSymbolTableOffset + index * 8
  cro.segmentTagToAddress (cro.memory.read32 (entry + 4))

/-- `VerifyExportTreeTable`. -/
def verifyExportTreeTable : Option ErrorCode :=
  let treeNum := cro.getField .exportTreeNum
  if (List.range treeNum.toNat).all fun i =>
      let entry := cro.exportTreeEntry (.ofNat 32 i)
      entry.left.nextIndex < treeNum ∧ entry.right.nextIndex < treeNum
  then none
  else some (.croFormat 0x11)

/-! ## The lookup -/

/-- Whether a name has a bit; it has none behind its end. -/
def hasBit (name : Name) (testBit : Halfword) : Bool :=
  match name[(testBit >>> 3).toNat]? with
  | none => false
  | some c => c.getLsbD (testBit &&& 7).toNat

/-- The edge of an entry that a name takes. -/
def branch (name : Name) (entry : ExportTreeEntry) : Child :=
  if hasBit name entry.testBit then entry.right else entry.left

/-- The loop of `FindExportNamedSymbol`, for so many turns; the index that it finds. -/
def descend (name : Name) : Nat → Child → Option Halfword
  | 0, _ => none
  | fuel + 1, next =>
    let entry := cro.exportTreeEntry next.nextIndex
    if next.isEnd then some entry.exportTableIndex else descend name fuel (branch name entry)

/-- The end of `FindExportNamedSymbol`. -/
def foundAddress (name : Name) (foundId : Halfword) : Word :=
  let index := foundId.setWidth 32
  if index ≥ cro.getField .exportNamedSymbolNum then 0
  else if cro.exportName index ≠ name then 0
  else cro.exportAddress index

/-- `FindExportNamedSymbol`, with so many turns of its loop. -/
def findExportNamedSymbol (fuel : Nat) (name : Name) : Option Word :=
  if cro.getField .exportTreeNum = 0 then some 0
  else (cro.descend name fuel (cro.exportTreeEntry 0).left).map (cro.foundAddress name)

/-- The lookup of a name ends. -/
def LookupEnds (name : Name) : Prop :=
  ∃ fuel address, cro.findExportNamedSymbol fuel name = some address

/-- An edge that a descent takes after another. -/
def Next (name : Name) (next next' : Child) : Prop :=
  next.isEnd = false ∧ next' = branch name (cro.exportTreeEntry next.nextIndex)

/-- The descent of a name comes back to an edge. -/
def Circles (name : Name) : Prop :=
  cro.getField .exportTreeNum ≠ 0 ∧
    ∃ next, ReflTransGen (cro.Next name) (cro.exportTreeEntry 0).left next ∧
      TransGen (cro.Next name) next next

/-! ## Tries -/

/-- The symbols that a module exports. -/
def Exports (index : Word) : Prop := index < cro.getField .exportNamedSymbolNum

/-- The edge is that of a trie over the names, whose tests come after a bit. -/
inductive Trie : Child → Nat → Set Name → Prop where
  /-- The last edge, to the entry of the only name that takes it. -/
  | leaf {next : Child} {least : Nat} {names : Set Name} (hend : next.isEnd = true)
      (hexports : cro.Exports ((cro.exportTreeEntry next.nextIndex).exportTableIndex.setWidth 32))
      (hname : names =
        {cro.exportName ((cro.exportTreeEntry next.nextIndex).exportTableIndex.setWidth 32)}) :
      Trie next least names
  /-- An edge to an entry that tests a later bit. -/
  | inner {next : Child} {least : Nat} {names : Set Name} (hinner : next.isEnd = false)
      (hindex : next.nextIndex < cro.getField .exportTreeNum)
      (hbit : least ≤ (cro.exportTreeEntry next.nextIndex).testBit.toNat)
      (left : Trie (cro.exportTreeEntry next.nextIndex).left
        ((cro.exportTreeEntry next.nextIndex).testBit.toNat + 1)
        {name ∈ names | hasBit name (cro.exportTreeEntry next.nextIndex).testBit = false})
      (right : Trie (cro.exportTreeEntry next.nextIndex).right
        ((cro.exportTreeEntry next.nextIndex).testBit.toNat + 1)
        {name ∈ names | hasBit name (cro.exportTreeEntry next.nextIndex).testBit = true}) :
      Trie next least names

/-- The names that a module exports. -/
def exportedNames : Set Name := {name | ∃ index, cro.Exports index ∧ cro.exportName index = name}

/-- The export tree is a trie over the names. -/
def WellFormed : Prop :=
  if cro.getField .exportTreeNum = 0 then cro.exportedNames = ∅
  else cro.Trie (cro.exportTreeEntry 0).left 0 cro.exportedNames

/-- The lookup of a name ends, with the address of its symbol if there is one and with 0 if not. -/
def LookupCorrect (name : Name) : Prop :=
  ∃ fuel address, cro.findExportNamedSymbol fuel name = some address ∧
    (name ∈ cro.exportedNames →
      ∃ index, cro.Exports index ∧ cro.exportName index = name ∧
        address = cro.exportAddress index) ∧
    (name ∉ cro.exportedNames → address = 0)

/-! ## Descents that end -/

variable {cro} {name : Name} {next : Child}

instance : Finite Child := Finite.of_injective BitVec.toFin fun _ _ h => BitVec.eq_of_toFin_eq h

theorem ends_of_descend {fuel : Nat} {id : Halfword} (h : cro.descend name fuel next = some id) :
    Ends (cro.Next name) next := by
  induction fuel generalizing next with
  | zero => cases h
  | succ fuel ih =>
    rw [descend] at h
    constructor
    rintro next' ⟨hinner, rfl⟩
    simp only [hinner, Bool.false_eq_true, if_false] at h
    exact ih h

theorem descend_of_ends (h : Ends (cro.Next name) next) :
    ∃ fuel id, cro.descend name fuel next = some id := by
  induction h with
  | intro next _ ih =>
    cases hend : next.isEnd with
    | true =>
      exact ⟨1, (cro.exportTreeEntry next.nextIndex).exportTableIndex, by simp [descend, hend]⟩
    | false =>
      obtain ⟨fuel, id, hdescend⟩ := ih _ ⟨hend, rfl⟩
      exact ⟨fuel + 1, id, by simpa [descend, hend] using hdescend⟩

/-- A lookup ends exactly if its descent does not come back to an edge. -/
theorem lookupEnds_iff : cro.LookupEnds name ↔ ¬cro.Circles name := by
  by_cases hempty : cro.getField .exportTreeNum = 0
  · exact iff_of_true ⟨0, 0, if_pos hempty⟩ fun h => h.1 hempty
  have hends : cro.LookupEnds name ↔ Ends (cro.Next name) (cro.exportTreeEntry 0).left := by
    constructor
    · rintro ⟨fuel, address, h⟩
      rw [findExportNamedSymbol, if_neg hempty] at h
      obtain ⟨id, hid, -⟩ := Option.map_eq_some_iff.mp h
      exact ends_of_descend hid
    · intro h
      obtain ⟨fuel, id, hid⟩ := descend_of_ends h
      exact ⟨fuel, _, by rw [findExportNamedSymbol, if_neg hempty, hid, Option.map_some]⟩
  rw [hends, ends_iff, Circles]
  push Not
  exact ⟨fun h _ => h, fun h => h hempty⟩

/-! ## Lookups in tries -/

/-- A descent in a trie ends, and the names of the trie lead to their own entry. -/
theorem Trie.descend (name : Name) {least : Nat} {names : Set Name}
    (h : cro.Trie next least names) :
    ∃ fuel id, cro.descend name fuel next = some id ∧
      (name ∈ names → cro.Exports (id.setWidth 32) ∧ cro.exportName (id.setWidth 32) = name) := by
  induction h with
  | leaf hend hexports hname =>
    refine ⟨1, _, by simp only [CroHelper.descend, hend, if_true], fun hmem => ⟨hexports, ?_⟩⟩
    rw [hname] at hmem
    exact hmem.symm
  | @inner next least names hinner _ _ _ _ ihleft ihright =>
    cases hbit : hasBit name (cro.exportTreeEntry next.nextIndex).testBit with
    | false =>
      obtain ⟨fuel, id, hdescend, hid⟩ := ihleft
      refine ⟨fuel + 1, id, ?_, fun hmem => hid ⟨hmem, hbit⟩⟩
      simpa [CroHelper.descend, hinner, branch, hbit] using hdescend
    | true =>
      obtain ⟨fuel, id, hdescend, hid⟩ := ihright
      refine ⟨fuel + 1, id, ?_, fun hmem => hid ⟨hmem, hbit⟩⟩
      simpa [CroHelper.descend, hinner, branch, hbit] using hdescend

/-- What is found has the name. -/
theorem foundAddress_cases (cro : CroHelper) (name : Name) (id : Halfword) :
    (cro.Exports (id.setWidth 32) ∧ cro.exportName (id.setWidth 32) = name ∧
      cro.foundAddress name id = cro.exportAddress (id.setWidth 32)) ∨
    (¬(cro.Exports (id.setWidth 32) ∧ cro.exportName (id.setWidth 32) = name) ∧
      cro.foundAddress name id = 0) := by
  rw [foundAddress]
  split_ifs with hindex hname
  · exact .inr ⟨fun h => absurd h.1 (BitVec.not_lt.mpr hindex), rfl⟩
  · exact .inr ⟨fun h => hname h.2, rfl⟩
  · exact .inl ⟨BitVec.not_le.mp hindex, not_not.mp hname, rfl⟩

/-- The lookup in a trie. -/
theorem WellFormed.lookupCorrect (h : cro.WellFormed) (name : Name) : cro.LookupCorrect name := by
  rw [WellFormed] at h
  split_ifs at h with hempty
  · refine ⟨0, 0, if_pos hempty, fun hmem => ?_, fun _ => rfl⟩
    rw [h] at hmem
    exact hmem.elim
  · obtain ⟨fuel, id, hdescend, hid⟩ := Trie.descend name h
    refine ⟨fuel, cro.foundAddress name id, ?_, fun hmem => ?_, fun hmem => ?_⟩
    · rw [findExportNamedSymbol, if_neg hempty, hdescend, Option.map_some]
    · rcases foundAddress_cases cro name id with ⟨hexports, hname, haddress⟩ | ⟨hnot, -⟩
      · exact ⟨_, hexports, hname, haddress⟩
      · exact absurd (hid hmem) hnot
    · rcases foundAddress_cases cro name id with ⟨hexports, hname, -⟩ | ⟨-, hzero⟩
      · exact absurd ⟨_, hexports, hname⟩ hmem
      · exact hzero

/-- Lookups in verified modules end, and lookups in tries are right, exactly if no descent of a
verified module comes back to an edge. -/
theorem findExportNamedSymbol_iff (cro : CroHelper) :
    ((cro.verifyExportTreeTable = none → ∀ name, cro.LookupEnds name) ∧
      (cro.WellFormed → ∀ name, cro.LookupCorrect name)) ↔
      (cro.verifyExportTreeTable = none → ∀ name, ¬cro.Circles name) := by
  rw [and_iff_left fun h name => WellFormed.lookupCorrect h name]
  simp only [lookupEnds_iff]

/-- A module whose export tree has one entry, with two edges to itself. -/
def selfTree : CroHelper where
  moduleAddress := 0x800000
  memory a :=
    if a = 0x8000E8 then 0x38 else if a = 0x8000E9 then 0x01 else if a = 0x8000EA then 0x80
    else if a = 0x8000EC then 0x01 else 0

/-- The tree is verified, and the descent goes round in it. -/
theorem lookup_selfTree :
    selfTree.verifyExportTreeTable = none ∧ ¬selfTree.LookupEnds [0x61] := by
  have hleft : (selfTree.exportTreeEntry 0).left = 0 := by decide
  have hnext : selfTree.Next [0x61] 0 0 := ⟨by decide, by decide⟩
  refine ⟨by decide, fun h => ?_⟩
  refine lookupEnds_iff.mp h ⟨by decide, 0, ?_, .single hnext⟩
  rw [hleft]

end CroHelper

end GbaStation.Ldr
