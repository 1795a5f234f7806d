import GbaStation.Common.ByteMemory
import GbaStation.Common.FiniteWalks

/-!
# The traversal of a RomFS (`core/file_sys/layered_fs.cpp`)

`LayeredFS::Load` follows the offsets in the metadata tables of an image: a loop over the files of a
directory, and a loop over its child directories that loads each one recursively. Nothing remembers
what was loaded before.

- An image is its bytes at every offset; those behind its end stand for what the metadata struct
  that is read into holds. Offsets are `u32`. The conversion of names is a parameter.
- The loops and the recursion have fuel, and `none` says that it was not enough.
- `load_terminates_iff`: the traversal ends exactly when the steps never come back to an offset.
-/

namespace GbaStation.FileSys

open FiniteWalks Relation

/-! ## Loading -/

abbrev Offset := BitVec 32

/-- The offset behind the last file or directory. -/
def noOffset : Offset := 0xFFFFFFFF

/-- A `u32_le` of an image. -/
def readU32 (image : Nat → Byte) (position : Nat) : BitVec 32 :=
  image (position + 3) ++ image (position + 2) ++ image (position + 1) ++ image position

def readU64 (image : Nat → Byte) (position : Nat) : BitVec 64 :=
  readU32 image (position + 4) ++ readU32 image position

/-- What is used of `RomFSHeader`. -/
structure RomFSHeader where
  headerLength : BitVec 32
  directoryMetadataTable : Offset
  fileMetadataTable : Offset
  fileDataOffset : Offset

def readHeader (image : Nat → Byte) : RomFSHeader :=
  ⟨readU32 image 0, readU32 image 0x0C, readU32 image 0x1C, readU32 image 0x24⟩

/-- `DirectoryMetadata`, without what is not used of it. -/
structure DirectoryMetadata where
  nextSiblingOffset : Offset
  firstChildDirectoryOffset : Offset
  firstFileOffset : Offset
  nameLength : BitVec 32

structure FileMetadata where
  nextSiblingOffset : Offset
  fileDataOffset : BitVec 64
  fileDataLength : BitVec 64
  nameLength : BitVec 32

section Load

variable (utf16ToUtf8 : List (BitVec 16) → List Byte) (image : Nat → Byte)

def directoryMetadata (offset : Offset) : DirectoryMetadata :=
  let position := ((readHeader image).directoryMetadataTable + offset).toNat
  ⟨readU32 image (position + 4), readU32 image (position + 8), readU32 image (position + 12),
    readU32 image (position + 20)⟩

def fileMetadata (offset : Offset) : FileMetadata :=
  let position := ((readHeader image).fileMetadataTable + offset).toNat
  ⟨readU32 image (position + 4), readU64 image (position + 8), readU64 image (position + 16),
    readU32 image (position + 28)⟩

/-- `ReadName`. -/
def readName (offset : Offset) (nameLength : BitVec 32) : List Byte :=
  utf16ToUtf8 <| (List.range (nameLength.toNat / 2)).map fun i =>
    image (offset.toNat + 2 * i + 1) ++ image (offset.toNat + 2 * i)

structure LoadedFile where
  name : List Byte
  path : List Byte
  originalOffset : BitVec 64
  size : BitVec 64

inductive LoadedDirectory
  | mk (name path : List Byte) (files : List LoadedFile) (directories : List LoadedDirectory)

/-- `LoadFile`: the file, and the offset of the next one. -/
def loadFile (parentPath : List Byte) (offset : Offset) : LoadedFile × Offset :=
  let metadata := fileMetadata image offset
  let name := readName utf16ToUtf8 image
    ((readHeader image).fileMetadataTable + offset + 0x20) metadata.nameLength
  ({ name := name
     path := parentPath ++ name
     originalOffset := (readHeader image).fileDataOffset.setWidth 64 + metadata.fileDataOffset
     size := metadata.fileDataLength }, metadata.nextSiblingOffset)

/-- The loop of `LoadDirectory` over the files. -/
def loadFiles (parentPath : List Byte) : Nat → Offset → Option (List LoadedFile)
  | 0, _ => none
  | fuel + 1, offset =>
    if offset = noOffset then some []
    else do
      let (file, next) := loadFile utf16ToUtf8 image parentPath offset
      let files ← loadFiles parentPath fuel next
      some (file :: files)

/-- The path of a directory. -/
def directoryPath (parentPath : List Byte) (offset : Offset) : List Byte :=
  parentPath ++ readName utf16ToUtf8 image
    ((readHeader image).directoryMetadataTable + offset + 0x18)
    (directoryMetadata image offset).nameLength ++ [0x2F]

mutual

/-- `LoadDirectory`: the directory, and the offset of its next sibling. -/
def loadDirectory : Nat → List Byte → Offset → Option (LoadedDirectory × Offset)
  | 0, _, _ => none
  | fuel + 1, parentPath, offset => do
    let metadata := directoryMetadata image offset
    let name := readName utf16ToUtf8 image
      ((readHeader image).directoryMetadataTable + offset + 0x18) metadata.nameLength
    let path := directoryPath utf16ToUtf8 image parentPath offset
    let files ← loadFiles utf16ToUtf8 image path fuel metadata.firstFileOffset
    let directories ← loadDirectories fuel path metadata.firstChildDirectoryOffset
    some (.mk name path files directories, metadata.nextSiblingOffset)

/-- The loop of `LoadDirectory` over the child directories. -/
def loadDirectories : Nat → List Byte → Offset → Option (List LoadedDirectory)
  | 0, _, _ => none
  | fuel + 1, parentPath, offset =>
    if offset = noOffset then some []
    else do
      let (directory, next) ← loadDirectory fuel parentPath offset
      let directories ← loadDirectories fuel parentPath next
      some (directory :: directories)

end

/-- The traversal of `Load`; `none` in the result is the assertion on the size of the header. -/
def load (fuel : Nat) : Option (Option LoadedDirectory) :=
  if (readHeader image).headerLength ≠ 0x28 then some none
  else do
    let (root, _) ← loadDirectory utf16ToUtf8 image fuel [] 0
    some (some root)

end Load

/-! ## Steps -/

section Steps

variable (image : Nat → Byte)

/-- From a file to the next one. -/
def FileWalk (a b : Offset) : Prop :=
  a ≠ noOffset ∧ b ≠ noOffset ∧ b = (fileMetadata image a).nextSiblingOffset

/-- From a directory to its first child, and to its next sibling. -/
def DirectoryWalk (a b : Offset) : Prop :=
  a ≠ noOffset ∧ b ≠ noOffset ∧ (b = (directoryMetadata image a).firstChildDirectoryOffset ∨
    b = (directoryMetadata image a).nextSiblingOffset)

/-- The files of a directory do not come back to one of them. -/
def FilesLinear (directory : Offset) : Prop :=
  ∀ b, ReflTransGen (FileWalk image) (directoryMetadata image directory).firstFileOffset b →
    ¬TransGen (FileWalk image) b b

/-- The directories below the root do not come back to one of them, nor do the files of any. -/
def TreeLike : Prop :=
  FilesLinear image 0 ∧
    ∀ b, ReflTransGen (DirectoryWalk image)
        (directoryMetadata image 0).firstChildDirectoryOffset b →
      ¬TransGen (DirectoryWalk image) b b ∧ (b ≠ noOffset → FilesLinear image b)

end Steps

/-! ## When there is fuel enough -/

section Fuel

variable {utf16ToUtf8 : List (BitVec 16) → List Byte} {image : Nat → Byte} {path : List Byte}
  {offset : Offset} {fuel : Nat}

theorem loadFiles_end : (loadFiles utf16ToUtf8 image path (fuel + 1) noOffset).isSome := by
  rw [loadFiles, if_pos rfl]
  rfl

theorem loadFiles_isSome (h : offset ≠ noOffset) :
    (loadFiles utf16ToUtf8 image path (fuel + 1) offset).isSome ↔
      (loadFiles utf16ToUtf8 image path fuel (fileMetadata image offset).nextSiblingOffset).isSome
      := by
  rw [loadFiles, if_neg h]
  show (Option.bind (loadFiles utf16ToUtf8 image path fuel
    (fileMetadata image offset).nextSiblingOffset) _).isSome ↔ _
  cases loadFiles utf16ToUtf8 image path fuel (fileMetadata image offset).nextSiblingOffset with
  | none => exact Iff.rfl
  | some files => exact Iff.rfl

theorem loadFiles_succ (fuel : Nat) :
    ∀ {offset : Offset}, (loadFiles utf16ToUtf8 image path fuel offset).isSome →
      (loadFiles utf16ToUtf8 image path (fuel + 1) offset).isSome := by
  induction fuel with
  | zero => exact fun h => absurd h Bool.false_ne_true
  | succ fuel ih =>
    intro offset h
    by_cases hend : offset = noOffset
    · rw [hend]
      exact loadFiles_end
    · rw [loadFiles_isSome hend] at h ⊢
      exact ih h

theorem loadFiles_mono {fuel' : Nat} (hle : fuel ≤ fuel')
    (h : (loadFiles utf16ToUtf8 image path fuel offset).isSome) :
    (loadFiles utf16ToUtf8 image path fuel' offset).isSome := by
  induction hle with
  | refl => exact h
  | step _ ih => exact loadFiles_succ _ ih

theorem loadDirectory_isSome :
    (loadDirectory utf16ToUtf8 image (fuel + 1) path offset).isSome ↔
      (loadFiles utf16ToUtf8 image (directoryPath utf16ToUtf8 image path offset) fuel
        (directoryMetadata image offset).firstFileOffset).isSome ∧
      (loadDirectories utf16ToUtf8 image fuel (directoryPath utf16ToUtf8 image path offset)
        (directoryMetadata image offset).firstChildDirectoryOffset).isSome := by
  rw [loadDirectory]
  cases loadFiles utf16ToUtf8 image (directoryPath utf16ToUtf8 image path offset) fuel
      (directoryMetadata image offset).firstFileOffset with
  | none => simp
  | some files =>
    cases loadDirectories utf16ToUtf8 image fuel (directoryPath utf16ToUtf8 image path offset)
        (directoryMetadata image offset).firstChildDirectoryOffset with
    | none => simp
    | some directories => simp

/-- The offset of the next sibling is the one in the metadata. -/
theorem loadDirectory_next {directory : LoadedDirectory} {next : Offset}
    (h : loadDirectory utf16ToUtf8 image fuel path offset = some (directory, next)) :
    next = (directoryMetadata image offset).nextSiblingOffset := by
  cases fuel with
  | zero => cases h
  | succ fuel =>
    rw [loadDirectory] at h
    obtain ⟨files, -, h⟩ := Option.bind_eq_some_iff.mp h
    obtain ⟨directories, -, h⟩ := Option.bind_eq_some_iff.mp h
    cases h
    rfl

theorem loadDirectories_end :
    (loadDirectories utf16ToUtf8 image (fuel + 1) path noOffset).isSome := by
  rw [loadDirectories, if_pos rfl]
  rfl

theorem loadDirectories_isSome (h : offset ≠ noOffset) :
    (loadDirectories utf16ToUtf8 image (fuel + 1) path offset).isSome ↔
      (loadDirectory utf16ToUtf8 image fuel path offset).isSome ∧
      (loadDirectories utf16ToUtf8 image fuel path
        (directoryMetadata image offset).nextSiblingOffset).isSome := by
  rw [loadDirectories, if_neg h]
  cases hdirectory : loadDirectory utf16ToUtf8 image fuel path offset with
  | none => simp
  | some r =>
    obtain ⟨directory, next⟩ := r
    have hnext := loadDirectory_next hdirectory
    subst hnext
    cases hrest : loadDirectories utf16ToUtf8 image fuel path
        (directoryMetadata image offset).nextSiblingOffset with
    | none => simp [hrest]
    | some directories => simp [hrest]

theorem loadDirectory_succ (fuel : Nat) :
    (∀ {path : List Byte} {offset : Offset},
      (loadDirectory utf16ToUtf8 image fuel path offset).isSome →
        (loadDirectory utf16ToUtf8 image (fuel + 1) path offset).isSome) ∧
    (∀ {path : List Byte} {offset : Offset},
      (loadDirectories utf16ToUtf8 image fuel path offset).isSome →
        (loadDirectories utf16ToUtf8 image (fuel + 1) path offset).isSome) := by
  induction fuel with
  | zero =>
    constructor
    · intro path offset h
      rw [loadDirectory] at h
      exact absurd h Bool.false_ne_true
    · intro path offset h
      rw [loadDirectories] at h
      exact absurd h Bool.false_ne_true
  | succ fuel ih =>
    obtain ⟨ihDirectory, ihDirectories⟩ := ih
    constructor
    · intro path offset h
      rw [loadDirectory_isSome] at h ⊢
      exact ⟨loadFiles_succ _ h.1, ihDirectories h.2⟩
    · intro path offset h
      by_cases hend : offset = noOffset
      · rw [hend]
        exact loadDirectories_end
      · rw [loadDirectories_isSome hend] at h ⊢
        exact ⟨ihDirectory h.1, ihDirectories h.2⟩

theorem loadDirectory_mono {fuel' : Nat} (hle : fuel ≤ fuel')
    (h : (loadDirectory utf16ToUtf8 image fuel path offset).isSome) :
    (loadDirectory utf16ToUtf8 image fuel' path offset).isSome := by
  induction hle with
  | refl => exact h
  | step _ ih => exact (loadDirectory_succ _).1 ih

theorem loadDirectories_mono {fuel' : Nat} (hle : fuel ≤ fuel')
    (h : (loadDirectories utf16ToUtf8 image fuel path offset).isSome) :
    (loadDirectories utf16ToUtf8 image fuel' path offset).isSome := by
  induction hle with
  | refl => exact h
  | step _ ih => exact (loadDirectory_succ _).2 ih

end Fuel

/-! ## Walks that end -/

section Walks

variable (utf16ToUtf8 : List (BitVec 16) → List Byte) {image : Nat → Byte} {offset : Offset}

theorem ends_noOffset : Ends (FileWalk image) noOffset :=
  ⟨_, fun _ h => absurd rfl h.1⟩

/-- The loop over the files ends when the walk over them does. -/
theorem loadFiles_of_ends (h : Ends (FileWalk image) offset) (path : List Byte) :
    ∃ fuel, (loadFiles utf16ToUtf8 image path fuel offset).isSome := by
  induction h with
  | intro offset _ ih =>
    by_cases hend : offset = noOffset
    · rw [hend]
      exact ⟨1, loadFiles_end⟩
    · by_cases hnext : (fileMetadata image offset).nextSiblingOffset = noOffset
      · refine ⟨2, (loadFiles_isSome hend).mpr ?_⟩
        rw [hnext]
        exact loadFiles_end
      · obtain ⟨fuel, hfuel⟩ := ih _ ⟨hend, hnext, rfl⟩
        exact ⟨fuel + 1, (loadFiles_isSome hend).mpr hfuel⟩

variable {utf16ToUtf8}

theorem ends_of_loadFiles (fuel : Nat) :
    ∀ {path : List Byte} {offset : Offset},
      (loadFiles utf16ToUtf8 image path fuel offset).isSome → Ends (FileWalk image) offset := by
  induction fuel with
  | zero => exact fun h => absurd h Bool.false_ne_true
  | succ fuel ih =>
    intro path offset h
    by_cases hend : offset = noOffset
    · rw [hend]
      exact ends_noOffset
    · have hnext := ih ((loadFiles_isSome hend).mp h)
      constructor
      rintro b ⟨-, -, rfl⟩
      exact hnext

/-- Everything that is loaded from a directory, its siblings and what is below them ends. -/
def TreeEnds (image : Nat → Byte) (offset : Offset) : Prop :=
  Ends (DirectoryWalk image) offset ∧
    ∀ b, ReflTransGen (DirectoryWalk image) offset b → b ≠ noOffset →
      Ends (FileWalk image) (directoryMetadata image b).firstFileOffset

theorem treeEnds_noOffset : TreeEnds image noOffset := by
  refine ⟨⟨_, fun _ h => absurd rfl h.1⟩, fun b hb hne => ?_⟩
  rcases ReflTransGen.cases_head hb with heq | ⟨c, hc, -⟩
  · exact absurd heq.symm hne
  · exact absurd rfl hc.1

theorem TreeEnds.step {b : Offset} (h : TreeEnds image offset)
    (hb : b = noOffset ∨ DirectoryWalk image offset b) : TreeEnds image b := by
  rcases hb with rfl | hb
  · exact treeEnds_noOffset
  · exact ⟨h.1.next hb, fun c hc => h.2 c (ReflTransGen.head hb hc)⟩

/-- A directory, by its files, its first child and its next sibling. -/
theorem treeEnds_iff (h : offset ≠ noOffset) :
    TreeEnds image offset ↔
      Ends (FileWalk image) (directoryMetadata image offset).firstFileOffset ∧
        TreeEnds image (directoryMetadata image offset).firstChildDirectoryOffset ∧
        TreeEnds image (directoryMetadata image offset).nextSiblingOffset := by
  constructor
  · intro htree
    refine ⟨htree.2 _ ReflTransGen.refl h, htree.step ?_, htree.step ?_⟩
    · by_cases hchild : (directoryMetadata image offset).firstChildDirectoryOffset = noOffset
      · exact .inl hchild
      · exact .inr ⟨h, hchild, .inl rfl⟩
    · by_cases hnext : (directoryMetadata image offset).nextSiblingOffset = noOffset
      · exact .inl hnext
      · exact .inr ⟨h, hnext, .inr rfl⟩
  · rintro ⟨hfiles, hchild, hnext⟩
    constructor
    · constructor
      rintro b ⟨-, -, rfl | rfl⟩
      · exact hchild.1
      · exact hnext.1
    · intro b hb hne
      rcases ReflTransGen.cases_head hb with rfl | ⟨c, ⟨-, -, rfl | rfl⟩, hcb⟩
      · exact hfiles
      · exact hchild.2 b hcb hne
      · exact hnext.2 b hcb hne

variable (utf16ToUtf8)

/-- A directory is loaded when its files and its first child are. -/
theorem loadDirectory_of_ends
    (hfiles : Ends (FileWalk image) (directoryMetadata image offset).firstFileOffset)
    {path : List Byte}
    (hchild : ∀ path, ∃ fuel, (loadDirectories utf16ToUtf8 image fuel path
      (directoryMetadata image offset).firstChildDirectoryOffset).isSome) :
    ∃ fuel, (loadDirectory utf16ToUtf8 image fuel path offset).isSome := by
  obtain ⟨fuel₁, h₁⟩ :=
    loadFiles_of_ends utf16ToUtf8 hfiles (directoryPath utf16ToUtf8 image path offset)
  obtain ⟨fuel₂, h₂⟩ := hchild (directoryPath utf16ToUtf8 image path offset)
  exact ⟨max fuel₁ fuel₂ + 1, loadDirectory_isSome.mpr
    ⟨loadFiles_mono (Nat.le_max_left _ _) h₁, loadDirectories_mono (Nat.le_max_right _ _) h₂⟩⟩

theorem loadDirectories_of_treeEnds (h : TreeEnds image offset) (path : List Byte) :
    ∃ fuel, (loadDirectories utf16ToUtf8 image fuel path offset).isSome := by
  obtain ⟨hends, -⟩ := id h
  induction hends generalizing path with
  | intro offset _ ih =>
    by_cases hend : offset = noOffset
    · rw [hend]
      exact ⟨1, loadDirectories_end⟩
    · obtain ⟨hfiles, hchild, hnext⟩ := (treeEnds_iff hend).mp h
      -- the children and the siblings, of which there may be none
      have hstep : ∀ b, (b = (directoryMetadata image offset).firstChildDirectoryOffset ∨
          b = (directoryMetadata image offset).nextSiblingOffset) → TreeEnds image b →
          ∀ path, ∃ fuel, (loadDirectories utf16ToUtf8 image fuel path b).isSome := by
        intro b hb htree path
        by_cases hnone : b = noOffset
        · rw [hnone]
          exact ⟨1, loadDirectories_end⟩
        · exact ih b ⟨hend, hnone, hb⟩ htree path
      obtain ⟨fuel₁, h₁⟩ := @loadDirectory_of_ends utf16ToUtf8 image offset hfiles path
        (hstep _ (.inl rfl) hchild)
      obtain ⟨fuel₂, h₂⟩ := hstep _ (.inr rfl) hnext path
      exact ⟨max fuel₁ fuel₂ + 1, (loadDirectories_isSome hend).mpr
        ⟨loadDirectory_mono (Nat.le_max_left _ _) h₁,
          loadDirectories_mono (Nat.le_max_right _ _) h₂⟩⟩

variable {utf16ToUtf8}

theorem treeEnds_of_loadDirectories (fuel : Nat) :
    (∀ {path : List Byte} {offset : Offset},
      (loadDirectory utf16ToUtf8 image fuel path offset).isSome →
        Ends (FileWalk image) (directoryMetadata image offset).firstFileOffset ∧
          TreeEnds image (directoryMetadata image offset).firstChildDirectoryOffset) ∧
    (∀ {path : List Byte} {offset : Offset},
      (loadDirectories utf16ToUtf8 image fuel path offset).isSome → TreeEnds image offset) := by
  induction fuel with
  | zero =>
    constructor
    · intro path offset h
      rw [loadDirectory] at h
      exact absurd h Bool.false_ne_true
    · intro path offset h
      rw [loadDirectories] at h
      exact absurd h Bool.false_ne_true
  | succ fuel ih =>
    obtain ⟨ihDirectory, ihDirectories⟩ := ih
    constructor
    · intro path offset h
      obtain ⟨hfiles, hchild⟩ := loadDirectory_isSome.mp h
      exact ⟨ends_of_loadFiles _ hfiles, ihDirectories hchild⟩
    · intro path offset h
      by_cases hend : offset = noOffset
      · rw [hend]
        exact treeEnds_noOffset
      · obtain ⟨hdirectory, hnext⟩ := (loadDirectories_isSome hend).mp h
        obtain ⟨hfiles, hchild⟩ := ihDirectory hdirectory
        exact (treeEnds_iff hend).mpr ⟨hfiles, hchild, ihDirectories hnext⟩

end Walks

/-! ## Termination -/

instance : Finite Offset := Finite.of_injective BitVec.toFin fun _ _ => BitVec.eq_of_toFin_eq

theorem treeLike_iff {image : Nat → Byte} : TreeLike image ↔
    Ends (FileWalk image) (directoryMetadata image 0).firstFileOffset ∧
      TreeEnds image (directoryMetadata image 0).firstChildDirectoryOffset := by
  unfold TreeLike FilesLinear TreeEnds
  simp only [ends_iff]
  refine and_congr_right fun _ => ⟨fun h => ⟨fun b hb => (h b hb).1, fun b hb => (h b hb).2⟩,
    fun h b hb => ⟨h.1 b hb, h.2 b hb⟩⟩

theorem load_isSome {utf16ToUtf8 : List (BitVec 16) → List Byte} {image : Nat → Byte} {fuel : Nat}
    (h : (readHeader image).headerLength = 0x28) :
    (load utf16ToUtf8 image fuel).isSome ↔
      (loadDirectory utf16ToUtf8 image fuel [] 0).isSome := by
  rw [load, if_neg (not_not.mpr h)]
  cases hroot : loadDirectory utf16ToUtf8 image fuel [] 0 with
  | none => simp
  | some r => simp

/-- For every image, the traversal of `Load` ends exactly when the header is refused, or no
directory below the root leads back to itself and no chain of files does. -/
theorem load_terminates_iff (utf16ToUtf8 : List (BitVec 16) → List Byte) (image : Nat → Byte) :
    (∃ fuel, (load utf16ToUtf8 image fuel).isSome) ↔
      (readHeader image).headerLength ≠ 0x28 ∨ TreeLike image := by
  rw [treeLike_iff]
  by_cases hheader : (readHeader image).headerLength = 0x28
  swap
  · refine iff_of_true ⟨0, ?_⟩ (.inl hheader)
    rw [load, if_pos hheader]
    rfl
  simp only [load_isSome hheader]
  constructor
  · rintro ⟨fuel, h⟩
    exact .inr ((treeEnds_of_loadDirectories fuel).1 h)
  · intro h
    obtain ⟨hfiles, hchild⟩ := h.resolve_left (not_not.mpr hheader)
    exact loadDirectory_of_ends utf16ToUtf8 hfiles fun path =>
      loadDirectories_of_treeEnds utf16ToUtf8 hchild path

/-- An image whose root has a file that is its own next sibling. -/
def ownSibling (position : Nat) : Byte :=
  if position = 0 ∨ position = 0x0C then 0x28
  else if position = 0x1C then 0x40
  else if 0x30 ≤ position ∧ position < 0x34 then 0xFF
  else 0

theorem ownSibling_runs : ¬∃ fuel, (load (fun _ => []) ownSibling fuel).isSome := by
  rintro ⟨fuel, hload⟩
  have hheader : (readHeader ownSibling).headerLength = 0x28 := by decide
  have hfile : (directoryMetadata ownSibling 0).firstFileOffset = 0 := by decide
  have hnext : (fileMetadata ownSibling 0).nextSiblingOffset = 0 := by decide
  have hback : FileWalk ownSibling 0 0 := ⟨by decide, by decide, hnext.symm⟩
  have hsome := (load_isSome hheader).mp hload
  have hends := ((treeEnds_of_loadDirectories fuel).1 hsome).1
  rw [hfile] at hends
  exact hends.not_back (TransGen.single hback)

end GbaStation.FileSys
