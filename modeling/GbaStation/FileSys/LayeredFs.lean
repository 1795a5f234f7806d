import GbaStation.Common.Checked
import GbaStation.Common.RingCells

/-!
# Layered file systems (`core/file_sys/layered_fs.cpp`)

`LayeredFS` lays out the files of a RomFS again, some of them replaced, patched or removed, and
reads them as one image: the metadata, and the data of each file, padded to 16 bytes.

- Offsets are `u64`. `std::map` is a list in the order of its keys, and an iterator is what is left
  of it.
- `readFile_slices`: reads are slices of the image exactly when some file has data. If none has,
  there is no entry of the map before the end that `ReadFile` could step back to.
-/

namespace GbaStation.FileSys

open RingCells (sub64)

/-! ## Files -/

/-- The types of `FileRelocationInfo`. -/
inductive RelocationType
  | none
  | replaced
  | patched
  | removed
deriving DecidableEq, Repr

structure FileRelocationInfo where
  type : RelocationType
  originalOffset : Nat := 0
  replaceFilePath : List Byte := []
  patchedFile : List Byte := []
  size : Nat

/-- `LayeredFS::File`, what its data depends on. -/
structure File where
  relocation : FileRelocationInfo

inductive Directory
  | mk (files : List File) (directories : List Directory)

/-- Where data comes from: the base RomFS, and the files of the host that can be opened. -/
structure Storage where
  romfs : List Byte
  replaceFile : List Byte → Option (List Byte)

/-- `Common::AlignUp` of a `u64`. -/
def alignUp64 (value size : Nat) : Nat :=
  let mod := value % size
  let value := value - mod
  if mod = 0 then value else (value + size) % 2 ^ 64

/-! ## The layout -/

mutual

/-- The files of `PrepareBuild`. -/
def prepareBuild : Directory → List File
  | .mk files directories =>
    files.filter (fun file => file.relocation.type ≠ .removed) ++ prepareBuilds directories

def prepareBuilds : List Directory → List File
  | [] => []
  | directory :: directories => prepareBuild directory ++ prepareBuilds directories

end

/-- `std::map::emplace`. -/
def emplace {α : Type} (key : Nat) (value : α) : List (Nat × α) → List (Nat × α)
  | [] => [(key, value)]
  | (k, v) :: map =>
    if key < k then (key, value) :: (k, v) :: map
    else if key = k then (k, v) :: map
    else (k, v) :: emplace key value map

/-- `--map.upper_bound(key)`: from the last entry on that is not behind the key. -/
def beforeUpperBound {α : Type} (key : Nat) : List (Nat × α) → Option (List (Nat × α))
  | [] => none
  | (k, v) :: map =>
    if key < k then none
    else
      match beforeUpperBound key map with
      | some it => some it
      | none => some ((k, v) :: map)

/-- What `BuildFiles` computes. -/
structure Layout where
  currentDataOffset : Nat := 0
  dataOffsetMap : List (Nat × File) := []
  /-- The `file_data_offset` of each file. -/
  fileOffsets : List (Nat × File) := []

/-- A turn of the loop of `BuildFiles`. -/
def buildFile (l : Layout) (file : File) : Layout where
  currentDataOffset := (l.currentDataOffset + alignUp64 file.relocation.size 16) % 2 ^ 64
  dataOffsetMap :=
    if file.relocation.size ≠ 0 then emplace l.currentDataOffset file l.dataOffsetMap
    else l.dataOffsetMap
  fileOffsets := l.fileOffsets ++ [(l.currentDataOffset, file)]

def buildFiles (files : List File) : Layout := files.foldl buildFile {}

structure LayeredFS where
  metadata : List Byte
  layout : Layout

/-- `RebuildMetadata` of a tree, with the metadata that it writes. It is not modelled that
`BuildDirectories` throws at a directory whose first file was removed: the `at` does not find it, and
there is no image then. -/
def LayeredFS.rebuild (metadata : List Byte) (root : Directory) : LayeredFS :=
  ⟨metadata, buildFiles (prepareBuild root)⟩

/-! ## Reading -/

/-- The bytes that `ReadFile` copies from where a file is. -/
def readRelocation (storage : Storage) (r : FileRelocationInfo) (relativeOffset toRead : Nat) :
    Except Fault (List Byte) :=
  match r.type with
  | .none => .ok (bytesAt storage.romfs ((r.originalOffset + relativeOffset) % 2 ^ 64) toRead)
  | .replaced =>
    match storage.replaceFile r.replaceFilePath with
    | some content => .ok (bytesAt content relativeOffset toRead)
    | none => .ok []
  -- nothing is read in the padding
  | .patched => if toRead = 0 then .ok [] else readAt r.patchedFile relativeOffset toRead
  | .removed => .error .unreachable

/-- The loop of `ReadFile`. -/
def readFiles (storage : Storage) (length : Nat) :
    List (Nat × File) → (offset readSize : Nat) → List Byte → Except Fault (Nat × List Byte)
  | [], _, readSize, buffer => if readSize < length then .error .read else .ok (readSize, buffer)
  | (first, file) :: it, offset, readSize, buffer =>
    if readSize < length then do
      let relativeOffset := sub64 offset first
      let size := file.relocation.size
      let toRead :=
        if size > relativeOffset then min (size - relativeOffset) (length - readSize) else 0
      let alignment :=
        sub64 (min (sub64 (alignUp64 size 16) relativeOffset) (length - readSize)) toRead
      let bytes ← readRelocation storage file.relocation relativeOffset toRead
      let buffer ← storeAt buffer readSize bytes
      let buffer ← storeAt buffer (readSize + toRead) (List.replicate alignment 0)
      readFiles storage length it ((offset + (toRead + alignment)) % 2 ^ 64)
        (readSize + (toRead + alignment)) buffer
    else .ok (readSize, buffer)

namespace LayeredFS

def getSize (fs : LayeredFS) : Nat := (fs.metadata.length + fs.layout.currentDataOffset) % 2 ^ 64

/-- `ReadFile`: the size that was read, and the buffer. -/
def readFile (storage : Storage) (fs : LayeredFS) (offset length : Nat) (buffer : List Byte) :
    Except Fault (Nat × List Byte) := do
  ensure ((offset + length) % 2 ^ 64 ≤ fs.getSize) .assertion
  let (readSize, offset, buffer) ←
    if offset < fs.metadata.length then do
      -- first read the metadata
      let toRead := min (fs.metadata.length - offset) length
      let buffer ← storeAt buffer 0 (← readAt fs.metadata offset toRead)
      pure (toRead, 0, buffer)
    else pure (0, offset - fs.metadata.length, buffer)
  match beforeUpperBound offset fs.layout.dataOffsetMap with
  | none => .error .read
  | some current => readFiles storage length current offset readSize buffer

end LayeredFS

/-! ## The image -/

/-- The size of a file with its padding. -/
def File.paddedSize (file : File) : Nat := (file.relocation.size + 15) / 16 * 16

/-- The data of a file. -/
def File.data (storage : Storage) (file : File) : List Byte :=
  match file.relocation.type with
  | .none => bytesAt storage.romfs file.relocation.originalOffset file.relocation.size
  | .replaced =>
    ((storage.replaceFile file.relocation.replaceFilePath).getD []).take file.relocation.size
  | .patched => file.relocation.patchedFile
  | .removed => []

/-- The data of a file is there: reads of the storage return the bytes that are requested. -/
def File.Backed (storage : Storage) (file : File) : Prop :=
  match file.relocation.type with
  | .none => file.relocation.originalOffset + file.relocation.size ≤ storage.romfs.length ∧
      storage.romfs.length < 2 ^ 64
  | .replaced => ∃ content, storage.replaceFile file.relocation.replaceFilePath = some content ∧
      file.relocation.size ≤ content.length
  | .patched => file.relocation.patchedFile.length = file.relocation.size
  | .removed => True

def File.paddedData (storage : Storage) (file : File) : List Byte :=
  file.data storage ++ List.replicate (file.paddedSize - file.relocation.size) 0

/-- The data of files one after the other. -/
def filesImage (storage : Storage) (files : List File) : List Byte :=
  files.flatMap (File.paddedData storage)

def filesSize (files : List File) : Nat := (files.map File.paddedSize).sum

/-- The metadata and the data of all files. -/
def image (storage : Storage) (metadata : List Byte) (root : Directory) : List Byte :=
  metadata ++ filesImage storage (prepareBuild root)

end GbaStation.FileSys
