import GbaStation.FileSys.TitleMetadata

/-!
# CIA containers (`core/file_sys/cia_container.cpp`)

A CIA is a header, which has the sizes of the sections behind it: certificates, a ticket, title
metadata, the contents, and metadata with an icon.

- What a file or a backend reads is what there is of the bytes. A file seeks to offsets of 63 bits
  only, and stays where it is otherwise.
-/

namespace GbaStation.FileSys

/-! ## Headers -/

structure CIAHeader where
  headerSize : BitVec 32
  type : BitVec 16
  version : BitVec 16
  certSize : BitVec 32
  tikSize : BitVec 32
  tmdSize : BitVec 32
  metaSize : BitVec 32
  contentSize : BitVec 64
  contentPresent : List Byte

/-- `CIA_HEADER_SIZE`. -/
def ciaHeaderSize : Nat := 0x2020

/-- `CIA_SECTION_ALIGNMENT`. -/
def ciaSectionAlignment : Nat := 0x40

/-- `sizeof(Metadata)`. -/
def ciaMetadataSize : Nat := 0x400

/-- `sizeof(Loader::SMDH)`. -/
def smdhSize : Nat := 0x36C0

namespace CIAHeader

/-- The fields of a header, which are little-endian. -/
def ofBytes (d : List Byte) : CIAHeader where
  headerSize := .ofNat 32 (littleEndian (bytesAt d 0 4))
  type := .ofNat 16 (littleEndian (bytesAt d 4 2))
  version := .ofNat 16 (littleEndian (bytesAt d 6 2))
  certSize := .ofNat 32 (littleEndian (bytesAt d 8 4))
  tikSize := .ofNat 32 (littleEndian (bytesAt d 0xC 4))
  tmdSize := .ofNat 32 (littleEndian (bytesAt d 0x10 4))
  metaSize := .ofNat 32 (littleEndian (bytesAt d 0x14 4))
  contentSize := .ofNat 64 (littleEndian (bytesAt d 0x18 8))
  contentPresent := bytesAt d 0x20 0x2000

variable (h : CIAHeader)

/-- `IsContentPresent`. The first bit of a byte is the highest one. -/
def isContentPresent (index : Nat) : Bool :=
  h.contentPresent.getD (index >>> 3) 0 &&& ((0x80 : Byte) >>> (index &&& 7)) ≠ 0

/-- `AlignUp` of a `u64` to a section. -/
def alignSection (value : Nat) : Nat := alignUp value ciaSectionAlignment % 2 ^ 64

/-- `GetCertificateOffset`. The size of the header is aligned as a `u32`. -/
def getCertificateOffset : Nat := alignUp h.headerSize.toNat ciaSectionAlignment % 2 ^ 32

def getTicketOffset : Nat := alignSection ((h.getCertificateOffset + h.certSize.toNat) % 2 ^ 64)

def getTitleMetadataOffset : Nat :=
  alignSection ((h.getTicketOffset + h.tikSize.toNat) % 2 ^ 64)

/-- `GetContentOffset` of the first content. -/
def getContentStart : Nat :=
  alignSection ((h.getTitleMetadataOffset + h.tmdSize.toNat) % 2 ^ 64)

def getMetadataOffset : Nat :=
  alignSection ((h.getContentStart + h.contentSize.toNat) % 2 ^ 64)

end CIAHeader

/-- `Metadata`, what is read of it. -/
structure CIAMetadata where
  dependencies : List Byte
  coreVersion : BitVec 32
deriving DecidableEq

def CIAMetadata.ofBytes (d : List Byte) : CIAMetadata where
  dependencies := bytesAt d 0 0x180
  coreVersion := .ofNat 32 (littleEndian (bytesAt d 0x300 4))

/-! ## Containers -/

structure CIAContainer where
  hasHeader : Bool
  header : CIAHeader
  metadata : CIAMetadata
  smdh : Option (List Byte)
  ticket : Ticket
  tmd : TitleMetadata

namespace CIAContainer

variable (c : CIAContainer)

def loadHeader (headerData : List Byte) (offset : Nat) :
    Except Fault (LoadStatus × CIAContainer) :=
  if sizeSub headerData.length offset < ciaHeaderSize then .ok (.error, c) else do
  let header ← readAt headerData 0 ciaHeaderSize
  .ok (.success, { c with hasHeader := true, header := .ofBytes header })

def loadTicket (ticketData : List Byte) (offset : Nat) :
    Except Fault (LoadStatus × CIAContainer) := do
  let r ← c.ticket.load ticketData offset
  .ok (r.1, { c with ticket := r.2 })

def loadTitleMetadata (tmdData : List Byte) (offset : Nat) :
    Except Fault (LoadStatus × CIAContainer) := do
  let r ← c.tmd.load tmdData offset
  .ok (r.1, { c with tmd := r.2 })

/-- `LoadMetadata`, which reads the first of the bytes whatever the offset is. -/
def loadMetadata (metaData : List Byte) (offset : Nat) :
    Except Fault (LoadStatus × CIAContainer) :=
  if sizeSub metaData.length offset < ciaMetadataSize then .ok (.error, c) else do
  let metadata ← readAt metaData 0 ciaMetadataSize
  .ok (.success, { c with metadata := .ofBytes metadata })

def loadSMDH (smdhData : List Byte) (offset : Nat) : Except Fault (LoadStatus × CIAContainer) :=
  if smdhData.length < smdhSize ∨ smdhData.length - smdhSize < offset then .ok (.error, c) else do
  let smdh ← readAt smdhData offset smdhSize
  .ok (.success, { c with smdh := some smdh })

/-! ## Loading -/

/-- Bytes, a place in them, and where a file goes on. -/
abbrev Fetched := List Byte × Nat × Nat

variable {c}

/-- A section is got, loaded, and followed by the next one. -/
def loadSection (fetched : Option Fetched) (c : CIAContainer)
    (load : List Byte → Nat → Except Fault (LoadStatus × CIAContainer))
    (next : CIAContainer → Nat → Except Fault (LoadStatus × CIAContainer)) :
    Except Fault (LoadStatus × CIAContainer) :=
  match fetched with
  | none => .ok (.error, c)
  | some (data, offset, position) => do
    let r ← load data offset
    if r.1 ≠ .success then .ok r else next r.2 position

/-- The metadata and the icon. -/
def loadMeta (fetch : Nat → Nat → Nat → Option Fetched) (c : CIAContainer) (position : Nat) :
    Except Fault (LoadStatus × CIAContainer) :=
  if c.header.metaSize = 0 then .ok (.success, c) else
  loadSection (fetch c.header.getMetadataOffset ciaMetadataSize position) c c.loadMetadata
    fun c position =>
  if c.header.metaSize.toNat < ciaMetadataSize + smdhSize then .ok (.success, c) else
  loadSection (fetch ((c.header.getMetadataOffset + ciaMetadataSize) % 2 ^ 64) smdhSize position) c
    c.loadSMDH fun c _ => .ok (.success, c)

/-- The walk over the sections, from the header on. `fetch` gets so many bytes at an offset. -/
def loadSections (header : Option Fetched) (fetch : Nat → Nat → Nat → Option Fetched)
    (c : CIAContainer) : Except Fault (LoadStatus × CIAContainer) :=
  loadSection header c c.loadHeader fun c position =>
  loadSection (fetch c.header.getTicketOffset c.header.tikSize.toNat position) c c.loadTicket
    fun c position =>
  loadSection (fetch c.header.getTitleMetadataOffset c.header.tmdSize.toNat position) c
    c.loadTitleMetadata fun c position =>
  loadMeta fetch c position

/-- `Load` of bytes: the sections are read in place, to the end of the bytes. -/
def loadSpan (d : List Byte) (c : CIAContainer) : Except Fault (LoadStatus × CIAContainer) :=
  c.loadSections (some (d, 0, 0)) fun offset _ position => some (d, offset, position)

/-- What a file or a backend reads has to have the size. -/
def readSection (d : List Byte) (offset size : Nat) : Option Fetched :=
  let bytes := bytesAt d offset size
  if bytes.length ≠ size then none else some (bytes, 0, offset + size)

/-- `Load` of a file, from its beginning on. `Seek` fails for an offset that is negative as
`s64`. -/
def loadFile (d : List Byte) (c : CIAContainer) : Except Fault (LoadStatus × CIAContainer) :=
  c.loadSections (readSection d 0 ciaHeaderSize) fun offset size position =>
    readSection d (if offset < 2 ^ 63 then offset else position) size

/-- `Load` of a backend that serves the bytes. -/
def loadBackend (d : List Byte) (c : CIAContainer) : Except Fault (LoadStatus × CIAContainer) :=
  c.loadSections (readSection d 0 ciaHeaderSize) fun offset size _ => readSection d offset size

/-! ## Contents -/

variable (c)

/-- `GetContentSize`. A content that is not there has no size. -/
def getContentSize (index : Nat) : BitVec 64 :=
  if ¬c.header.isContentPresent index then 0
  else (c.tmd.chunks[index]?.map ContentChunk.size).getD 0

/-- `GetContentOffset`. -/
def getContentOffset (index : Nat) : BitVec 64 :=
  (List.range index).foldl (fun offset i => offset + c.getContentSize i)
    (.ofNat 64 c.header.getContentStart)

end CIAContainer

/-- `GetCombinedContentSize`. -/
def TitleMetadata.getCombinedContentSize (t : TitleMetadata) (header : CIAHeader) : BitVec 64 :=
  t.chunks.foldl (fun totalSize chunk =>
    if ¬header.isContentPresent chunk.index.toNat then totalSize else totalSize + chunk.size) 0

end GbaStation.FileSys
