import GbaStation.Common.RingCells
import GbaStation.FileSys.ArticTransparency

/-!
# The RomFS reader (`core/file_sys/romfs_reader.cpp`)

`DirectRomFSReader` reads a range of a file through a cache of sixteen lines of 8 KiB. A line that
the end of the file cuts off is cached with what an earlier page left behind that end, and a later
read of the page takes the whole line to be there. Reads inside the range never see it.

- A file is its bytes, and a read of it gives what is there up to its end.
- `readFile_transparent`: after any calls, a read that does not begin behind the range gives the
  bytes of the file. One that begins behind it is not cut off there, since the difference of the
  size and the offset wraps.
-/

namespace GbaStation.FileSys

open GbaStation.Common RingCells
open ArticCache (copyAmount copy_segment)

/-- `DirectRomFSReader`, with the file that it reads. -/
structure DirectRomFSReader where
  file : List Byte
  fileOffset : Nat
  dataSize : Nat
  cache : StaticLRUCache Nat (Nat → Byte)

namespace DirectRomFSReader

/-! ## The reader -/

/-- `cache_line_size`. -/
def lineSize : Nat := 8192

/-- `cache_line_count`. -/
def lineCount : Nat := 16

/-- `OffsetToPage`. -/
def offsetToPage (offset : Nat) : Nat := offset / lineSize * lineSize

/-- The loop of `BreakupRead`. Every turn but the last one covers something. -/
def breakupLoop : Nat → Nat → Nat → List (Nat × Nat)
  | 0, _, _ => []
  | turns + 1, currOffset, length =>
    if length = 0 then []
    else
      let nextPage := offsetToPage ((currOffset + lineSize) % 2 ^ 64)
      let currPageLen := min length (sub64 nextPage currOffset)
      (currOffset, currPageLen) :: breakupLoop turns nextPage (length - currPageLen)

/-- `BreakupRead`. -/
def breakupRead (offset length : Nat) : List (Nat × Nat) :=
  if length > lineSize then [(offset, length)] else breakupLoop (length + 1) offset length

/-- `ReadAtBytes` of the file. -/
def readAtBytes (r : DirectRomFSReader) (length offset : Nat) : List Byte :=
  slice r.file (offset % 2 ^ 64) length

/-- A turn of the loop over the segments. -/
def readSegment (r : DirectRomFSReader) (seg : Nat × Nat) : List Byte × DirectRomFSReader :=
  let page := offsetToPage seg.1
  match r.cache.request lineCount page with
  | (true, i, c) =>
    (copy (c.array i) (seg.1 - page) (copyAmount lineSize (seg.1 - page) seg.2),
      { r with cache := c })
  | (false, i, c) =>
    let bytes := r.readAtBytes lineSize (r.fileOffset + page)
    let c := c.store i (overlay bytes (c.array i))
    (copy (c.array i) (seg.1 - page) (copyAmount bytes.length (seg.1 - page) seg.2),
      { r with cache := c })

/-- The loop over the segments. -/
def readSegments (r : DirectRomFSReader) : List (Nat × Nat) → List Byte × DirectRomFSReader
  | [] => ([], r)
  | seg :: rest =>
    let (bytes, r) := r.readSegment seg
    let (tail, r) := r.readSegments rest
    (bytes ++ tail, r)

/-- `ReadFile`: the bytes that are read. -/
def readFile (r : DirectRomFSReader) (offset length : Nat) : List Byte × DirectRomFSReader :=
  let length := min length (sub64 r.dataSize offset)
  if length = 0 then ([], r)
  else
    let segments := breakupRead offset length
    -- skip the cache if the read is too big
    if segments.length = 1 ∧ (segments.head?.map Prod.snd).getD 0 > lineSize then
      (r.readAtBytes length (r.fileOffset + offset), r)
    else r.readSegments segments

/-- The readers that calls lead to from a new one, whose lines hold anything. -/
inductive Reached (file : List Byte) (fileOffset dataSize : Nat) : DirectRomFSReader → Prop
  | new (array : Nat → Nat → Byte) : Reached file fileOffset dataSize ⟨file, fileOffset, dataSize,
      ⟨array, []⟩⟩
  | readFile {r : DirectRomFSReader} (h : Reached file fileOffset dataSize r)
      (offset length : Nat) : Reached file fileOffset dataSize (r.readFile offset length).2

/-! ## Pages -/

theorem offsetToPage_le (offset : Nat) : offsetToPage offset ≤ offset := Nat.div_mul_le_self _ _

theorem lt_offsetToPage (offset : Nat) : offset < offsetToPage offset + lineSize :=
  Nat.lt_div_mul_add (by decide)

theorem offsetToPage_next (offset : Nat) :
    offsetToPage (offset + lineSize) = offsetToPage offset + lineSize := by
  unfold offsetToPage
  rw [Nat.add_div_right _ (by decide), Nat.succ_mul]

/-! ## Lines -/

/-- All of what is asked for is there. -/
theorem copyAmount_of_le {readSize into length : Nat} (h : into + length ≤ readSize) :
    copyAmount readSize into length = length := by
  unfold copyAmount
  split_ifs with hlt
  · rw [Nat.min_eq_left h, Nat.add_sub_cancel_left]
  · omega

/-- A line holds the bytes of its page, up to the end of the file. -/
def Line (r : DirectRomFSReader) (page : Nat) (line : Nat → Byte) : Prop :=
  copy line 0 (r.readAtBytes lineSize (r.fileOffset + page)).length =
    r.readAtBytes lineSize (r.fileOffset + page)

/-- The cache is well formed and has such lines only. -/
structure Lines (r : DirectRomFSReader) : Prop where
  wellFormed : r.cache.WellFormed lineCount
  line : ∀ page line, r.cache.lookup page = some line → r.Line page line

/-- Nothing but the cache is different. -/
structure SameFile (r r' : DirectRomFSReader) : Prop where
  file : r'.file = r.file
  fileOffset : r'.fileOffset = r.fileOffset
  dataSize : r'.dataSize = r.dataSize

theorem SameFile.refl (r : DirectRomFSReader) : SameFile r r := ⟨rfl, rfl, rfl⟩

theorem SameFile.trans {r r' r'' : DirectRomFSReader} (h : SameFile r r') (h' : SameFile r' r'') :
    SameFile r r'' :=
  ⟨h'.file.trans h.file, h'.fileOffset.trans h.fileOffset, h'.dataSize.trans h.dataSize⟩

variable {r : DirectRomFSReader}

/-- What a turn of the loop leaves and reads: a segment inside its page and the file is read from
the file, whether the page is cached or not. -/
theorem Lines.readSegment (h : r.Lines) (seg : Nat × Nat) :
    (r.readSegment seg).2.Lines ∧ SameFile r (r.readSegment seg).2 ∧
      (seg.1 + seg.2 ≤ offsetToPage seg.1 + lineSize →
        r.fileOffset + seg.1 + seg.2 ≤ r.file.length → r.file.length < 2 ^ 63 →
          (r.readSegment seg).1 = slice r.file (r.fileOffset + seg.1) seg.2) := by
  have hpage := offsetToPage_le seg.1
  -- a line of the page gives the bytes of the file
  have hcopy : ∀ line, r.Line (offsetToPage seg.1) line →
      seg.1 + seg.2 ≤ offsetToPage seg.1 + lineSize →
      r.fileOffset + seg.1 + seg.2 ≤ r.file.length → r.file.length < 2 ^ 63 →
      copy line (seg.1 - offsetToPage seg.1) (copyAmount
        (r.readAtBytes lineSize (r.fileOffset + offsetToPage seg.1)).length
        (seg.1 - offsetToPage seg.1) seg.2) = slice r.file (r.fileOffset + seg.1) seg.2 := by
    intro line hline hseg hfile hsize
    have hwrap : (r.fileOffset + offsetToPage seg.1) % 2 ^ 64 =
        r.fileOffset + offsetToPage seg.1 := Nat.mod_eq_of_lt (by omega)
    rw [Line, readAtBytes, hwrap] at hline
    rw [readAtBytes, hwrap, copy_segment rfl hline (by omega)]
    congr 1
    omega
  cases hlookup : r.cache.lookup (offsetToPage seg.1) with
  | some line =>
    obtain ⟨i, c, hreq, hc, rfl, hsame⟩ :=
      StaticLRUCache.request_of_lookup_eq_some h.wellFormed hlookup
    have hread : r.readSegment seg = (copy (c.array i) (seg.1 - offsetToPage seg.1)
        (copyAmount lineSize (seg.1 - offsetToPage seg.1) seg.2), { r with cache := c }) := by
      rw [DirectRomFSReader.readSegment, hreq]
    rw [hread]
    refine ⟨⟨hc, fun page line hl => h.line page line ((hsame page).symm.trans hl)⟩,
      ⟨rfl, rfl, rfl⟩, fun hseg hfile hsize => ?_⟩
    rw [← hcopy _ (h.line _ _ hlookup) hseg hfile hsize]
    -- the part of the line that is asked for is before the end of the file
    have hlen := length_slice r.file ((r.fileOffset + offsetToPage seg.1) % 2 ^ 64) lineSize
    rw [Nat.mod_eq_of_lt (show r.fileOffset + offsetToPage seg.1 < 2 ^ 64 by omega)] at hlen
    rw [readAtBytes, Nat.mod_eq_of_lt (show r.fileOffset + offsetToPage seg.1 < 2 ^ 64 by omega),
      hlen, copyAmount_of_le (by omega), copyAmount_of_le (by omega)]
  | none =>
    obtain ⟨i, c, hreq, hc, hstore⟩ :=
      StaticLRUCache.request_of_lookup_eq_none h.wellFormed (by decide) hlookup
    obtain ⟨bytes, hbytes⟩ : ∃ bytes, bytes =
        r.readAtBytes lineSize (r.fileOffset + offsetToPage seg.1) := ⟨_, rfl⟩
    obtain ⟨hself, hnew, hold⟩ := hstore (overlay bytes (c.array i))
    have hread : r.readSegment seg = (copy (overlay bytes (c.array i))
        (seg.1 - offsetToPage seg.1) (copyAmount bytes.length (seg.1 - offsetToPage seg.1) seg.2),
        { r with cache := c.store i (overlay bytes (c.array i)) }) := by
      rw [DirectRomFSReader.readSegment, hreq]
      simp only
      rw [← hbytes, hself]
    have hline : r.Line (offsetToPage seg.1) (overlay bytes (c.array i)) := by
      rw [Line, ← hbytes]
      exact copy_overlay bytes _
    rw [hread]
    refine ⟨⟨hc.store _ _, fun page line hl => ?_⟩, ⟨rfl, rfl, rfl⟩, fun hseg hfile hsize => ?_⟩
    · by_cases hkey : page = offsetToPage seg.1
      · subst hkey
        rw [hnew] at hl
        cases hl
        exact hline
      · exact h.line page line (hold page line hkey hl)
    · rw [hbytes] at hline ⊢
      exact hcopy _ hline hseg hfile hsize

/-- The loop over segments leaves lines that hold their pages. -/
theorem Lines.readSegments (segments : List (Nat × Nat)) :
    ∀ {r : DirectRomFSReader}, r.Lines →
      (r.readSegments segments).2.Lines ∧ SameFile r (r.readSegments segments).2 := by
  induction segments with
  | nil => exact fun h => ⟨h, SameFile.refl _⟩
  | cons seg rest ih =>
    intro r h
    obtain ⟨hlines, hsame, -⟩ := h.readSegment seg
    obtain ⟨hlines', hsame'⟩ := ih hlines
    exact ⟨hlines', hsame.trans hsame'⟩

/-- The segments of a read inside the file give the bytes of the file. -/
theorem Lines.readSegments_breakup (turns : Nat) :
    ∀ {r : DirectRomFSReader} {offset length : Nat}, r.Lines → length < turns →
      r.fileOffset + offset + length ≤ r.file.length → r.file.length < 2 ^ 63 →
      (r.readSegments (breakupLoop turns offset length)).1 =
        slice r.file (r.fileOffset + offset) length := by
  induction turns with
  | zero => exact fun _ h => absurd h (Nat.not_lt_zero _)
  | succ turns ih =>
    intro r offset length h hturns hfile hsize
    have hpage := offsetToPage_le offset
    have hlt := lt_offsetToPage offset
    have hline : lineSize = 8192 := rfl
    rw [breakupLoop]
    by_cases hzero : length = 0
    · rw [if_pos hzero, hzero]
      simp [DirectRomFSReader.readSegments, slice]
    have hsub : sub64 (offsetToPage offset + lineSize) offset =
        offsetToPage offset + lineSize - offset := by
      rw [sub64, Nat.mod_eq_of_lt (show offset < 2 ^ 64 by omega)]
      omega
    rw [if_neg hzero]
    dsimp only
    rw [Nat.mod_eq_of_lt (show offset + lineSize < 2 ^ 64 by omega), offsetToPage_next, hsub]
    obtain ⟨pageLen, hlen⟩ :
        ∃ pageLen, pageLen = min length (offsetToPage offset + lineSize - offset) := ⟨_, rfl⟩
    rw [← hlen, DirectRomFSReader.readSegments]
    obtain ⟨hlines, hsame, hbytes⟩ := h.readSegment (offset, pageLen)
    have hfirst := hbytes (show offset + pageLen ≤ offsetToPage offset + lineSize by omega)
      (show r.fileOffset + offset + pageLen ≤ r.file.length by omega) hsize
    simp only at hfirst ⊢
    rw [hfirst]
    by_cases hlast : length = pageLen
    · -- nothing is left for the rest of the loop
      have hrest : breakupLoop turns (offsetToPage offset + lineSize) (length - pageLen) = [] := by
        rw [hlast, Nat.sub_self]
        cases turns with
        | zero => rfl
        | succ turns => exact if_pos rfl
      rw [hrest, hlast]
      exact List.append_nil _
    · have hnext : offset + pageLen = offsetToPage offset + lineSize := by omega
      have hrest := @ih (r.readSegment (offset, pageLen)).2 (offsetToPage offset + lineSize)
        (length - pageLen) hlines (by omega)
        (by rw [hsame.file, hsame.fileOffset]; omega) (by rw [hsame.file]; exact hsize)
      rw [hrest, hsame.file, hsame.fileOffset]
      have hsum : length = pageLen + (length - pageLen) := by omega
      conv_rhs => rw [hsum, slice_add]
      rw [← hnext, Nat.add_assoc]

/-! ## Calls -/

theorem Lines.readFile (h : r.Lines) (offset length : Nat) :
    (r.readFile offset length).2.Lines ∧ SameFile r (r.readFile offset length).2 := by
  unfold DirectRomFSReader.readFile
  dsimp only
  split_ifs with hzero hbig
  · exact ⟨h, SameFile.refl r⟩
  · exact ⟨h, SameFile.refl r⟩
  · exact h.readSegments _

/-- What a read gives that does not begin behind the range. -/
theorem Lines.readFile_eq (h : r.Lines) (hdata : r.fileOffset + r.dataSize ≤ r.file.length)
    (hsize : r.file.length < 2 ^ 63) {offset length : Nat}
    (hoffset : offset ≤ r.dataSize ∨ length = 0) :
    (r.readFile offset length).1 =
      slice r.file (r.fileOffset + offset) (min length (r.dataSize - offset)) := by
  unfold DirectRomFSReader.readFile
  by_cases hle : offset ≤ r.dataSize
  swap
  · have hzero : length = 0 := hoffset.resolve_left hle
    rw [hzero, Nat.zero_min, Nat.zero_min, if_pos rfl]
    simp [slice]
  have hsub : sub64 r.dataSize offset = r.dataSize - offset := by
    rw [sub64, Nat.mod_eq_of_lt (show offset < 2 ^ 64 by omega)]
    omega
  rw [hsub]
  obtain ⟨amount, hamount⟩ : ∃ amount, amount = min length (r.dataSize - offset) := ⟨_, rfl⟩
  rw [← hamount]
  by_cases hzero : amount = 0
  · rw [if_pos hzero, hzero]
    simp [slice]
  rw [if_neg hzero]
  by_cases hbig : amount > lineSize
  · -- the read is one segment, and too big for the cache
    have hbreakup : breakupRead offset amount = [(offset, amount)] := if_pos hbig
    have hskip : (breakupRead offset amount).length = 1 ∧
        ((breakupRead offset amount).head?.map Prod.snd).getD 0 > lineSize := by
      rw [hbreakup]
      exact ⟨rfl, hbig⟩
    rw [if_pos hskip, readAtBytes, Nat.mod_eq_of_lt (by omega)]
  · have hbreakup : breakupRead offset amount = breakupLoop (amount + 1) offset amount :=
      if_neg hbig
    have hskip : ¬((breakupRead offset amount).length = 1 ∧
        ((breakupRead offset amount).head?.map Prod.snd).getD 0 > lineSize) := by
      rw [hbreakup, breakupLoop, if_neg hzero]
      rintro ⟨-, hfirst⟩
      exact hbig (hfirst.trans_le (Nat.min_le_left _ _))
    rw [if_neg hskip, hbreakup]
    exact h.readSegments_breakup _ (Nat.lt_succ_self _) (by omega) hsize

theorem Reached.lines {file : List Byte} {fileOffset dataSize : Nat}
    (h : Reached file fileOffset dataSize r) :
    r.Lines ∧ r.file = file ∧ r.fileOffset = fileOffset ∧ r.dataSize = dataSize := by
  induction h with
  | new array =>
    refine ⟨⟨⟨List.nodup_nil, List.Perm.nil, Nat.zero_le _⟩, fun page line hl => ?_⟩, rfl, rfl, rfl⟩
    cases hl
  | readFile h offset length ih =>
    obtain ⟨hlines, hfile, hoffset, hdata⟩ := ih
    obtain ⟨hlines', hsame⟩ := hlines.readFile offset length
    exact ⟨hlines', hsame.file.trans hfile, hsame.fileOffset.trans hoffset,
      hsame.dataSize.trans hdata⟩

/-- After any calls, the slots of the cache are each for one page and no more than its lines, and a
read that does not begin behind the range gives the bytes of the file that are in it. -/
theorem readFile_transparent {file : List Byte} {fileOffset dataSize : Nat}
    (hdata : fileOffset + dataSize ≤ file.length) (hsize : file.length < 2 ^ 63)
    (h : Reached file fileOffset dataSize r) :
    (r.cache.list.map Prod.fst).Nodup ∧ (r.cache.list.map Prod.snd).Nodup ∧
      r.cache.list.length ≤ lineCount ∧ (∀ e ∈ r.cache.list, e.2 < lineCount) ∧
      ∀ offset length, offset ≤ dataSize ∨ length = 0 →
        (r.readFile offset length).1 =
          slice file (fileOffset + offset) (min length (dataSize - offset)) ∧
        (r.readFile offset length).1.length = min length (dataSize - offset) := by
  obtain ⟨hlines, rfl, rfl, rfl⟩ := h.lines
  have hc := hlines.wellFormed
  refine ⟨hc.keys, hc.slots.nodup_iff.mpr List.nodup_range, hc.length_le, fun e he => ?_,
    fun offset length hoffset => ?_⟩
  · exact (hc.slot_lt he).trans_le hc.length_le
  · have hread := hlines.readFile_eq hdata hsize hoffset
    refine ⟨hread, ?_⟩
    rw [hread, length_slice]
    omega

/-- A reader of one byte of a file of three, where a read of the third byte finds it. -/
theorem readFile_behind :
    (readFile ⟨[1, 2, 3], 0, 1, ⟨fun _ _ => 0, []⟩⟩ 2 1).1 = [3] := rfl

/-- Two pages are read, and then a range that begins in one and ends in the other. -/
theorem readFile_transparent_pages :
    let file : List Byte := List.replicate 9000 7
    let r : DirectRomFSReader := ⟨file, 1, 8500, ⟨fun _ _ => 0, []⟩⟩
    let r := ((r.readFile 8000 1).2.readFile 8200 1).2
    (r.readFile 8000 400).1 = slice file 8001 400 ∧ (r.readFile 8000 400).1.length = 400 := by
  intro file _ r
  have hdata : 1 + 8500 ≤ file.length := by
    rw [List.length_replicate]
    decide
  have hsize : file.length < 2 ^ 63 := by
    rw [List.length_replicate]
    decide
  have hreached : Reached file 1 8500 r :=
    ((Reached.new fun _ _ => 0).readFile 8000 1).readFile 8200 1
  exact (readFile_transparent hdata hsize hreached).2.2.2.2 8000 400 (.inl (by decide))

end DirectRomFSReader

end GbaStation.FileSys
