import GbaStation.Common.PagedMemory
import GbaStation.Common.StaticLRUCache

/-!
# The cache of remote files (`core/file_sys/artic_cache.cpp`)

`ArticCache` keeps pages of 4096 bytes, and whole reads of up to 1 MiB and 10 MiB, of a file on an
Artic server.

- The server is its file content. Any request of a call may fail: `fails` says which, the requests
  of a call being numbered in the order they are sent. A request that does not fail reads what the
  file has.
- `none` as a result is an error. Offsets are those of the protocol, which are `s64`.
- `chunk` is the most that a request carries, `GetServerRequestMaxSize() - 0x100`; `uninitialised`
  is what the memory of a new `std::vector<NoInitChar>` holds.
-/

namespace GbaStation.FileSys

open GbaStation.Common

/-! ## Constants -/

def cacheLineSize : Nat := 4 * 1024
def cacheLineCount : Nat := 256
def maxBreakupSize : Nat := 8 * 1024
def bigCacheSkip : Nat := 1 * 1024 * 1024
def bigCacheLines : Nat := 1024
def veryBigCacheSkip : Nat := 10 * 1024 * 1024
def veryBigCacheLines : Nat := 24

/-! ## The server -/

/-- What the server and the memory of the client are like. -/
structure Environment where
  chunk : Nat
  chunk_pos : 0 < chunk
  uninitialised : Nat → Byte

/-- The end of a `ReadFromArtic`: the bytes it wrote to its buffer, and the requests sent so far. -/
structure Fetch where
  bytes : List Byte
  failed : Bool
  requests : Nat

/-- The bytes of a file in a range, as far as the file goes. -/
def slice (content : List Byte) (offset length : Nat) : List Byte :=
  (content.drop offset).take length

/-- The loop of `ReadFromArtic`. Every turn but the last one reads something. -/
def readLoop (env : Environment) (content : List Byte) (fails : Nat → Bool) (len offset : Nat) :
    Nat → List Byte → Nat → Fetch
  | 0, done, requests => ⟨done, false, requests⟩
  | turns + 1, done, requests =>
    if done.length = len then ⟨done, false, requests⟩
    else
      let toRead := min env.chunk (len - done.length)
      if fails requests then ⟨done, true, requests + 1⟩
      else
        let bytes := slice content (offset + done.length) toRead
        if bytes.length ≠ toRead then ⟨done ++ bytes, false, requests + 1⟩
        else readLoop env content fails len offset turns (done ++ bytes) (requests + 1)

/-- `ArticCache::ReadFromArtic`. -/
def readFromArtic (env : Environment) (content : List Byte) (fails : Nat → Bool)
    (len offset requests : Nat) : Fetch :=
  readLoop env content fails len offset (len + 1) [] requests

/-- A buffer behind a fetch. -/
def overlay (bytes : List Byte) (buffer : Nat → Byte) (i : Nat) : Byte := bytes[i]?.getD (buffer i)

/-- What `memcpy` copies from a buffer. -/
def copy (buffer : Nat → Byte) (start amount : Nat) : List Byte :=
  (List.range amount).map fun i => buffer (start + i)

/-! ## The cache -/

structure ArticCache where
  cache : StaticLRUCache Nat (Nat → Byte)
  bigCache : StaticLRUCache (Nat × Nat) (Nat → Byte)
  veryBigCache : StaticLRUCache (Nat × Nat) (Nat → Byte)

namespace ArticCache

/-- The constructor. -/
def new : ArticCache :=
  ⟨⟨fun _ _ => 0, []⟩, ⟨fun _ _ => 0, []⟩, ⟨fun _ _ => 0, []⟩⟩

/-- `OffsetToPage`. -/
def offsetToPage (offset : Nat) : Nat := offset / cacheLineSize * cacheLineSize

/-- The loop of `BreakupRead`. Every turn but the last one covers something. -/
def breakupLoop : Nat → Nat → Nat → List (Nat × Nat)
  | 0, _, _ => []
  | turns + 1, offset, length =>
    if length = 0 then []
    else
      let nextPage := offsetToPage (offset + cacheLineSize)
      let pageLen := min length (nextPage - offset)
      (offset, pageLen) :: breakupLoop turns nextPage (length - pageLen)

/-- `BreakupRead`. -/
def breakupRead (offset length : Nat) : List (Nat × Nat) :=
  if length > maxBreakupSize then [(offset, length)] else breakupLoop (length + 1) offset length

def clear (a : ArticCache) : ArticCache :=
  ⟨a.cache.clear, a.bigCache.clear, a.veryBigCache.clear⟩

/-- The part of `Read` for reads that are cached as a whole, with the cache that is used. -/
def readWhole (env : Environment) (content : List Byte) (fails : Nat → Bool) (capacity : Nat)
    (c : StaticLRUCache (Nat × Nat) (Nat → Byte)) (offset length : Nat) :
    Option (List Byte) × StaticLRUCache (Nat × Nat) (Nat → Byte) :=
  match c.request capacity (offset, length) with
  | (true, i, c) => (some (copy (c.array i) 0 length), c)
  | (false, i, c) =>
    let fetch := readFromArtic env content fails length offset 0
    let c := c.store i (overlay fetch.bytes env.uninitialised)
    if fetch.failed then (none, c) else (some (copy (c.array i) 0 fetch.bytes.length), c)

/-- How much of a page is copied for a segment of a read. -/
def copyAmount (readSize into length : Nat) : Nat :=
  if readSize > into then min (into + length) readSize - into else 0

/-- One turn of the loop over the segments of a read. -/
def readSegment (env : Environment) (content : List Byte) (fails : Nat → Bool)
    (c : StaticLRUCache Nat (Nat → Byte)) (requests : Nat) (seg : Nat × Nat) :
    Option (List Byte) × StaticLRUCache Nat (Nat → Byte) × Nat :=
  let page := offsetToPage seg.1
  match c.request cacheLineCount page with
  | (true, i, c) =>
    (some (copy (c.array i) (seg.1 - page) (copyAmount cacheLineSize (seg.1 - page) seg.2)), c,
      requests)
  | (false, i, c) =>
    let fetch := readFromArtic env content fails cacheLineSize page requests
    let c := c.store i (overlay fetch.bytes (c.array i))
    if fetch.failed then (none, c, fetch.requests)
    else
      (some (copy (c.array i) (seg.1 - page)
        (copyAmount fetch.bytes.length (seg.1 - page) seg.2)), c, fetch.requests)

/-- The loop over the segments of a read. -/
def readSegments (env : Environment) (content : List Byte) (fails : Nat → Bool) :
    StaticLRUCache Nat (Nat → Byte) → Nat → List (Nat × Nat) →
      Option (List Byte) × StaticLRUCache Nat (Nat → Byte)
  | c, _, [] => (some [], c)
  | c, requests, seg :: rest =>
    match readSegment env content fails c requests seg with
    | (none, c, _) => (none, c)
    | (some bytes, c, requests) =>
      let (tail, c) := readSegments env content fails c requests rest
      (tail.map (bytes ++ ·), c)

/-- `ArticCache::Read`: the bytes that were read. -/
def read (env : Environment) (content : List Byte) (a : ArticCache) (fails : Nat → Bool)
    (offset length : Nat) : Option (List Byte) × ArticCache :=
  if length = 0 then (some [], a)
  else
    let segments := breakupRead offset length
    let first := (segments.head?.map Prod.snd).getD 0
    if segments.length = 1 ∧ first > cacheLineSize then
      if first < bigCacheSkip then
        let (result, c) := readWhole env content fails bigCacheLines a.bigCache offset length
        (result, { a with bigCache := c })
      else if first < veryBigCacheSkip then
        let (result, c) :=
          readWhole env content fails veryBigCacheLines a.veryBigCache offset length
        (result, { a with veryBigCache := c })
      else
        let fetch := readFromArtic env content fails length offset 0
        (if fetch.failed then none else some fetch.bytes, a)
    else
      let (result, c) := readSegments env content fails a.cache 0 segments
      (result, { a with cache := c })

/-! ## Writing -/

/-- What became of a write request: how many of its bytes reached the file, and the number that
came back, if an answer came. -/
structure WriteOutcome where
  applied : Nat
  response : Option Nat

/-- A file in which bytes were written from `offset` on. -/
def splice (content : List Byte) (offset : Nat) (bytes : List Byte) : List Byte :=
  if bytes = [] then content
  else (content.takeD offset 0) ++ bytes ++ content.drop (offset + bytes.length)

/-- The loop of `Write`: what it returns, and the file behind it. -/
def writeLoop (env : Environment) (outcomes : Nat → WriteOutcome) (offset : Nat)
    (buffer : List Byte) : Nat → Nat → Nat → List Byte → Option Nat × List Byte
  | 0, _, written, content => (some written, content)
  | turns + 1, requests, written, content =>
    if written = buffer.length then (some written, content)
    else
      let toWrite := min env.chunk (buffer.length - written)
      let outcome := outcomes requests
      let content := splice content (offset + written)
        ((slice buffer written toWrite).take outcome.applied)
      match outcome.response with
      | none => (none, content)
      | some actuallyWritten =>
        if actuallyWritten ≠ toWrite then (some (written + actuallyWritten), content)
        else writeLoop env outcomes offset buffer turns (requests + 1)
          (written + actuallyWritten) content

/-- `ArticCache::Write`. -/
def write (env : Environment) (content : List Byte) (a : ArticCache)
    (outcomes : Nat → WriteOutcome) (offset : Nat) (buffer : List Byte) :
    Option Nat × List Byte × ArticCache :=
  let (result, content) := writeLoop env outcomes offset buffer (buffer.length + 1) 0 0 content
  (result, content, a.clear)

/-! ## Runs -/

inductive Call
  | read (offset length : Nat) (fails : Nat → Bool)
  | write (offset : Nat) (buffer : List Byte) (outcomes : Nat → WriteOutcome)
  | clear

/-- The cache and the file behind a call. -/
def step (env : Environment) (a : ArticCache) (content : List Byte) :
    Call → ArticCache × List Byte
  | .read offset length fails => ((a.read env content fails offset length).2, content)
  | .write offset buffer outcomes =>
    let r := a.write env content outcomes offset buffer
    (r.2.2, r.2.1)
  | .clear => (a.clear, content)

/-- The states reached from an empty cache, for any file, by calls that all meet a condition. -/
inductive Reached (env : Environment) (Meets : ArticCache → List Byte → Call → Prop) :
    ArticCache → List Byte → Prop
  | new (content : List Byte) : Reached env Meets new content
  | call {a : ArticCache} {content : List Byte} {c : Call} (h : Reached env Meets a content)
      (hc : Meets a content c) : Reached env Meets (a.step env content c).1 (a.step env content c).2

end ArticCache

end GbaStation.FileSys
