import GbaStation.FileSys.LayeredFs

/-!
# Reads of a layered file system are slices of its image

The entries of `data_offset_map` are the files that have data, each behind the padded data of those
before it. `ReadFile` steps to the entry that an offset is in, and takes from it and the next ones
what is asked for.

- `readFile_slices`: the reads of a whole image.
-/

namespace GbaStation.FileSys

open RingCells (sub64)
open LayeredFS (rebuild readFile)
open List (length_drop nil_append replicate forall_mem_cons append_nil)

variable {storage : Storage}

/-! ## Slices -/

variable {offset size : Nat}

theorem bytesAt_append_of_le {xs ys : List Byte} (h : offset ≤ xs.length) :
    bytesAt (xs ++ ys) offset size =
      bytesAt xs offset size ++ bytesAt ys 0 (size - (xs.length - offset)) := by
  rw [bytesAt, bytesAt, bytesAt, List.drop_append_of_le_length h, List.take_append,
    length_drop, List.drop_zero]

theorem bytesAt_append_of_ge {xs ys : List Byte} (h : xs.length ≤ offset) :
    bytesAt (xs ++ ys) offset size = bytesAt ys (offset - xs.length) size := by
  rw [bytesAt, bytesAt, List.drop_append, List.drop_eq_nil_of_le h, nil_append]

theorem bytesAt_bytesAt {data : List Byte} {start amount : Nat} (h : start + amount ≤ size) :
    bytesAt (bytesAt data offset size) start amount = bytesAt data (offset + start) amount := by
  rw [bytesAt, bytesAt, bytesAt, List.drop_take, List.take_take, List.drop_drop,
    Nat.min_eq_left (by omega)]

theorem bytesAt_add (data : List Byte) (offset a b : Nat) :
    bytesAt data offset (a + b) = bytesAt data offset a ++ bytesAt data (offset + a) b := by
  rw [bytesAt, bytesAt, bytesAt, List.take_add, List.drop_drop]

/-- What is asked for behind the end makes no difference. -/
theorem bytesAt_min (data : List Byte) (offset size : Nat) :
    bytesAt data offset size = bytesAt data offset (min (data.length - offset) size) := by
  rw [bytesAt, bytesAt, ← length_drop, List.take_eq_take_min, Nat.min_comm]

theorem bytesAt_replicate (n offset size : Nat) :
    bytesAt (replicate n 0) offset size = replicate (min size (n - offset)) 0 := by
  rw [bytesAt, List.drop_replicate, List.take_replicate]

/-- Bytes that are stored in a buffer behind those that were stored before. -/
theorem storeAt_append {done rest bytes : List Byte} (h : bytes.length ≤ rest.length) :
    storeAt (done ++ rest) done.length bytes = .ok (done ++ bytes ++ rest.drop bytes.length) := by
  rw [storeAt_inside (by rw [List.length_append]; omega), splice, List.take_left,
    List.drop_length_add_append]

/-! ## Sizes -/

theorem alignUp64_eq {file : File} (h : file.paddedSize < 2 ^ 64) :
    alignUp64 file.relocation.size 16 = file.paddedSize := by
  rw [File.paddedSize] at h ⊢
  unfold alignUp64
  dsimp only
  split_ifs with hmod
  · omega
  · omega

theorem File.size_le_paddedSize (file : File) : file.relocation.size ≤ file.paddedSize := by
  rw [File.paddedSize]
  omega

theorem File.paddedSize_eq_zero {file : File} : file.paddedSize = 0 ↔ file.relocation.size = 0 := by
  rw [File.paddedSize]
  omega

theorem filesSize_cons (file : File) (files : List File) :
    filesSize (file :: files) = file.paddedSize + filesSize files := by
  rw [filesSize, List.map_cons, List.sum_cons]
  rfl

theorem filesSize_append (xs ys : List File) :
    filesSize (xs ++ ys) = filesSize xs + filesSize ys := by
  rw [filesSize, List.map_append, List.sum_append]
  rfl

theorem filesSize_eq_zero {files : List File} (h : ∀ f ∈ files, f.relocation.size = 0) :
    filesSize files = 0 := by
  induction files with
  | nil => rfl
  | cons file files ih =>
    obtain ⟨hfile, hfiles⟩ := forall_mem_cons.mp h
    rw [filesSize_cons, ih hfiles, File.paddedSize_eq_zero.mpr hfile]

/-! ## The data of files -/

/-- A file of the layout whose data is there. -/
structure File.Readable (storage : Storage) (file : File) : Prop where
  backed : file.Backed storage
  kept : file.relocation.type ≠ .removed

variable {file : File} {files : List File}

theorem File.Readable.length_data (h : file.Readable storage) :
    (file.data storage).length = file.relocation.size := by
  obtain ⟨hbacked, hkept⟩ := h
  unfold File.Backed at hbacked
  unfold File.data
  split at hbacked
  · exact length_bytesAt hbacked.1
  · obtain ⟨content, hcontent, hlen⟩ := hbacked
    rw [hcontent, Option.getD_some, List.length_take, Nat.min_eq_left hlen]
  · exact hbacked
  · next htype => exact absurd htype hkept

/-- A read inside the data of a file, or of nothing. -/
theorem readRelocation_eq (h : file.Readable storage) {relativeOffset toRead : Nat}
    (hinside : toRead = 0 ∨ relativeOffset + toRead ≤ file.relocation.size) :
    readRelocation storage file.relocation relativeOffset toRead =
      .ok (bytesAt (file.data storage) relativeOffset toRead) := by
  have hlen := h.length_data
  by_cases hzero : toRead = 0
  · obtain ⟨hbacked, hkept⟩ := h
    subst hzero
    unfold File.Backed at hbacked
    unfold readRelocation
    split at hbacked
    · rfl
    · obtain ⟨content, hcontent, -⟩ := hbacked
      rw [hcontent]
      rfl
    · exact if_pos rfl
    · next htype => exact absurd htype hkept
  have hinside := hinside.resolve_left hzero
  obtain ⟨hbacked, hkept⟩ := h
  unfold File.Backed at hbacked
  unfold File.data at hlen ⊢
  unfold readRelocation
  split at hbacked
  · rw [Nat.mod_eq_of_lt (by omega), bytesAt_bytesAt hinside]
  · obtain ⟨content, hcontent, -⟩ := hbacked
    rw [hcontent]
    simp only [Option.getD_some]
    rw [show content.take file.relocation.size = bytesAt content 0 file.relocation.size from rfl,
      bytesAt_bytesAt hinside, Nat.zero_add]
  · rw [if_neg hzero]
    exact readAt_inside (by omega)
  · next htype => exact absurd htype hkept

theorem File.Readable.length_paddedData (h : file.Readable storage) :
    (file.paddedData storage).length = file.paddedSize := by
  have hle := file.size_le_paddedSize
  rw [File.paddedData, List.length_append, List.length_replicate, h.length_data]
  omega

theorem length_filesImage (h : ∀ f ∈ files, f.Readable storage) :
    (filesImage storage files).length = filesSize files := by
  induction files with
  | nil => rfl
  | cons file files ih =>
    obtain ⟨hfile, hfiles⟩ := forall_mem_cons.mp h
    rw [filesImage, List.flatMap_cons, List.length_append, hfile.length_paddedData, filesSize_cons,
      ← ih hfiles]
    rfl

/-- A part of the padded data: data, and zeros behind it. -/
theorem bytesAt_paddedData (h : file.Readable storage) (hinside : offset + size ≤ file.paddedSize) :
    bytesAt (file.paddedData storage) offset size =
      bytesAt (file.data storage) offset (min (file.relocation.size - offset) size) ++
        replicate (size - min (file.relocation.size - offset) size) 0 := by
  have hlen := h.length_data
  by_cases hle : offset ≤ file.relocation.size
  · rw [File.paddedData, bytesAt_append_of_le (by omega), bytesAt_min, hlen, bytesAt_replicate]
    congr 2
    omega
  · rw [File.paddedData, bytesAt_append_of_ge (by omega), bytesAt_replicate, hlen,
      show min (file.relocation.size - offset) size = 0 by omega]
    show _ = [] ++ _
    rw [nil_append]
    congr 1
    omega

/-! ## The layout -/

/-- The entries of `data_offset_map` for files from an offset on. -/
def entries : Nat → List File → List (Nat × File)
  | _, [] => []
  | base, file :: files =>
    if file.relocation.size = 0 then entries (base + file.paddedSize) files
    else (base, file) :: entries (base + file.paddedSize) files

/-- The offsets of files from an offset on. -/
def offsets : Nat → List File → List (Nat × File)
  | _, [] => []
  | base, file :: files => (base, file) :: offsets (base + file.paddedSize) files

theorem emplace_eq_append {α : Type} {key : Nat} {value : α} {map : List (Nat × α)}
    (h : ∀ e ∈ map, e.1 < key) : emplace key value map = map ++ [(key, value)] := by
  induction map with
  | nil => rfl
  | cons e map ih =>
    obtain ⟨he, hmap⟩ := forall_mem_cons.mp h
    rw [emplace, if_neg (Nat.not_lt.mpr (Nat.le_of_lt he)), if_neg (Nat.ne_of_gt he), ih hmap]
    rfl

/-- The loop of `BuildFiles`, when the sizes fit. -/
theorem foldl_buildFile (files : List File) :
    ∀ {l : Layout}, (∀ e ∈ l.dataOffsetMap, e.1 < l.currentDataOffset) →
      l.currentDataOffset + filesSize files < 2 ^ 64 →
      files.foldl buildFile l =
        { currentDataOffset := l.currentDataOffset + filesSize files
          dataOffsetMap := l.dataOffsetMap ++ entries l.currentDataOffset files
          fileOffsets := l.fileOffsets ++ offsets l.currentDataOffset files } := by
  induction files with
  | nil =>
    intro l _ _
    rw [List.foldl_nil, entries, offsets, append_nil, append_nil]
    rfl
  | cons file files ih =>
    intro l hkeys hsize
    rw [filesSize_cons] at hsize
    have hnext : (l.currentDataOffset + alignUp64 file.relocation.size 16) % 2 ^ 64 =
        l.currentDataOffset + file.paddedSize := by
      rw [alignUp64_eq (by omega), Nat.mod_eq_of_lt (by omega)]
    rw [List.foldl_cons, buildFile, hnext, filesSize_cons, entries, offsets]
    by_cases hzero : file.relocation.size = 0
    · have hpadded := File.paddedSize_eq_zero.mpr hzero
      rw [if_neg (not_not.mpr hzero), if_pos hzero, ih (by simpa [hpadded] using hkeys)
        (by simp only; omega)]
      simp [Nat.add_assoc]
    · have hpadded : 0 < file.paddedSize :=
        Nat.pos_of_ne_zero fun h => hzero (File.paddedSize_eq_zero.mp h)
      rw [if_pos hzero, if_neg hzero, emplace_eq_append hkeys, ih ?_ (by simp only; omega)]
      · simp [Nat.add_assoc]
      · intro e he
        rcases List.mem_append.mp he with he | he
        · exact (hkeys e he).trans_le (Nat.le_add_right _ _)
        · rw [List.mem_singleton] at he
          subst he
          exact Nat.lt_add_of_pos_right hpadded

theorem buildFiles_eq (h : filesSize files < 2 ^ 64) :
    buildFiles files = ⟨filesSize files, entries 0 files, offsets 0 files⟩ := by
  rw [buildFiles, foldl_buildFile files (by simp) (by simpa using h)]
  simp

/-- At its offset is the data of a file. -/
theorem bytesAt_offsets (h : ∀ f ∈ files, f.Readable storage) :
    ∀ {base : Nat} {e : Nat × File}, e ∈ offsets base files → base ≤ e.1 ∧
      bytesAt (filesImage storage files) (e.1 - base) e.2.relocation.size = e.2.data storage := by
  induction files with
  | nil => exact fun he => absurd he List.not_mem_nil
  | cons file files ih =>
    intro base e he
    obtain ⟨hfile, hfiles⟩ := forall_mem_cons.mp h
    have hle := file.size_le_paddedSize
    have himage : filesImage storage (file :: files) =
        file.paddedData storage ++ filesImage storage files := by
      rw [filesImage, List.flatMap_cons]
      rfl
    have hlen := hfile.length_paddedData
    rw [himage]
    rcases List.mem_cons.mp he with rfl | he
    · refine ⟨Nat.le_refl _, ?_⟩
      rw [Nat.sub_self, bytesAt_append_of_le (Nat.zero_le _), hlen,
        bytesAt_paddedData hfile (by simpa using hle), Nat.sub_zero, Nat.min_self, Nat.sub_self,
        ← hfile.length_data]
      simp only [bytesAt, List.drop_zero, List.take_length, List.replicate_zero, append_nil]
      rw [hfile.length_data, Nat.sub_eq_zero_of_le (by omega), List.take_zero, append_nil]
    · obtain ⟨hbase, hdata⟩ := ih hfiles he
      refine ⟨by omega, ?_⟩
      rw [bytesAt_append_of_ge (by omega), hlen, ← hdata]
      congr 1
      omega

theorem entries_nil (h : ∀ f ∈ files, f.relocation.size = 0) :
    ∀ {base : Nat}, entries base files = [] := by
  induction files with
  | nil => exact fun {_} => rfl
  | cons file files ih =>
    intro base
    obtain ⟨hfile, hfiles⟩ := forall_mem_cons.mp h
    rw [entries, if_pos hfile, ih hfiles]

theorem beforeUpperBound_before (files : List File) :
    ∀ {base offset : Nat}, offset < base → beforeUpperBound offset (entries base files) = none := by
  induction files with
  | nil => exact fun _ => rfl
  | cons file files ih =>
    intro base offset hlt
    rw [entries]
    split_ifs with hzero
    · exact ih (by omega)
    · exact if_pos hlt

/-- Stepping back from behind an offset to the entry that it is in, or to the last one. -/
theorem beforeUpperBound_entries (files : List File) :
    ∀ {base offset : Nat}, base ≤ offset → (∃ f ∈ files, f.relocation.size ≠ 0) →
      ∃ before file behind, files = before ++ file :: behind ∧ file.relocation.size ≠ 0 ∧
        beforeUpperBound offset (entries base files) =
          some (entries (base + filesSize before) (file :: behind)) ∧
        base + filesSize before ≤ offset ∧
        (offset ≤ base + filesSize before + file.paddedSize ∨
          ∀ g ∈ behind, g.relocation.size = 0) := by
  induction files with
  | nil => exact fun _ h => absurd h (by simp)
  | cons file files ih =>
    intro base offset hbase hdata
    rw [entries]
    by_cases hzero : file.relocation.size = 0
    · -- a file without data has no entry
      obtain ⟨f, hf, hne⟩ := hdata
      have hfiles : f ∈ files := (List.mem_cons.mp hf).resolve_left fun heq => hne (heq ▸ hzero)
      have hpadded := File.paddedSize_eq_zero.mpr hzero
      obtain ⟨before, g, behind, rfl, hg, hit, hle, hin⟩ :=
        @ih (base + file.paddedSize) offset (by omega) ⟨f, hfiles, hne⟩
      refine ⟨file :: before, g, behind, rfl, hg, ?_, ?_, ?_⟩
      · rw [if_pos hzero, hit, filesSize_cons, Nat.add_assoc]
      · rw [filesSize_cons]
        omega
      · rw [filesSize_cons]
        exact hin.imp_left fun h => by omega
    · rw [if_neg hzero, beforeUpperBound, if_neg (Nat.not_lt.mpr hbase)]
      by_cases hnext : base + file.paddedSize ≤ offset ∧ ∃ f ∈ files, f.relocation.size ≠ 0
      · obtain ⟨before, g, behind, rfl, hg, hit, hle, hin⟩ := ih hnext.1 hnext.2
        refine ⟨file :: before, g, behind, rfl, hg, ?_, ?_, ?_⟩
        · rw [hit, filesSize_cons, Nat.add_assoc]
        · rw [filesSize_cons]
          omega
        · rw [filesSize_cons]
          exact hin.imp_left fun h => by omega
      · have hnone : beforeUpperBound offset (entries (base + file.paddedSize) files) = none := by
          rcases not_and_or.mp hnext with hlt | hempty
          · exact beforeUpperBound_before files (Nat.not_le.mp hlt)
          · push Not at hempty
            rw [entries_nil hempty]
            rfl
        refine ⟨[], file, files, rfl, hzero, ?_, hbase, ?_⟩
        · rw [hnone, show base + filesSize [] = base from rfl, entries, if_neg hzero]
        · rcases not_and_or.mp hnext with hlt | hempty
          · exact .inl (Nat.le_of_lt (Nat.not_le.mp hlt))
          · push Not at hempty
            exact .inr hempty

/-! ## The loop of `ReadFile` -/

theorem readFiles_done {length readSize : Nat} {it : List (Nat × File)} {buffer : List Byte}
    (h : length ≤ readSize) :
    readFiles storage length it offset readSize buffer = .ok (readSize, buffer) := by
  cases it with
  | nil => exact if_neg (Nat.not_lt.mpr h)
  | cons e it => exact if_neg (Nat.not_lt.mpr h)

/-- A turn of the loop inside an entry: it takes what the padded data has of what is asked for. -/
theorem readFiles_entry (h : file.Readable storage) {base : Nat} {it : List (Nat × File)}
    {done rest : List Byte} (hrest : rest ≠ []) (hsize : base + file.paddedSize < 2 ^ 64)
    (hbase : base ≤ offset) (hoffset : offset ≤ base + file.paddedSize) :
    readFiles storage (done.length + rest.length) ((base, file) :: it) offset done.length
        (done ++ rest) =
      readFiles storage (done.length + rest.length) it
        (offset + min (base + file.paddedSize - offset) rest.length)
        (done.length + min (base + file.paddedSize - offset) rest.length)
        (done ++ bytesAt (file.paddedData storage) (offset - base)
            (min (base + file.paddedSize - offset) rest.length) ++
          rest.drop (min (base + file.paddedSize - offset) rest.length)) := by
  have hpos : 0 < rest.length := List.length_pos_iff.mpr hrest
  have hle := file.size_le_paddedSize
  have hdata := h.length_data
  obtain ⟨relative, hrelative⟩ : ∃ relative, relative = offset - base := ⟨_, rfl⟩
  obtain ⟨amount, hamount⟩ :
      ∃ amount, amount = min (base + file.paddedSize - offset) rest.length := ⟨_, rfl⟩
  obtain ⟨toRead, htoRead⟩ :
      ∃ toRead, toRead = min (file.relocation.size - relative) amount := ⟨_, rfl⟩
  have hsub : sub64 offset base = relative := by
    rw [sub64, Nat.mod_eq_of_lt (show base < 2 ^ 64 by omega)]
    omega
  have hsubPadded : sub64 (alignUp64 file.relocation.size 16) relative =
      file.paddedSize - relative := by
    rw [alignUp64_eq (by omega), sub64, Nat.mod_eq_of_lt (show relative < 2 ^ 64 by omega)]
    omega
  have hread : (if file.relocation.size > relative then
      min (file.relocation.size - relative) (done.length + rest.length - done.length) else 0) =
        toRead := by
    split_ifs with hlt <;> omega
  have halignment : sub64 (min (file.paddedSize - relative)
      (done.length + rest.length - done.length)) toRead = amount - toRead := by
    rw [sub64, Nat.mod_eq_of_lt (show toRead < 2 ^ 64 by omega)]
    omega
  have hbytes : readRelocation storage file.relocation relative toRead =
      .ok (bytesAt (file.data storage) relative toRead) := readRelocation_eq h (by omega)
  have hlength : (bytesAt (file.data storage) relative toRead).length = toRead := by
    rw [bytesAt, List.length_take, length_drop]
    omega
  have hpadded : bytesAt (file.paddedData storage) relative amount =
      bytesAt (file.data storage) relative toRead ++ replicate (amount - toRead) 0 := by
    rw [bytesAt_paddedData h (by omega), ← htoRead]
  have hstoreBytes : storeAt (done ++ rest) done.length
      (bytesAt (file.data storage) relative toRead) =
        .ok (done ++ bytesAt (file.data storage) relative toRead ++ rest.drop toRead) := by
    rw [storeAt_append (by omega), hlength]
  have hstoreZeros : storeAt (done ++ bytesAt (file.data storage) relative toRead ++
      rest.drop toRead) (done.length + toRead) (replicate (amount - toRead) 0) =
        .ok (done ++ bytesAt (file.paddedData storage) relative amount ++ rest.drop amount) := by
    have hdone : (done ++ bytesAt (file.data storage) relative toRead).length =
        done.length + toRead := by rw [List.length_append, hlength]
    rw [← hdone, storeAt_append (by rw [List.length_replicate, length_drop]; omega), hpadded,
      List.length_replicate, List.drop_drop, show toRead + (amount - toRead) = amount by omega,
      List.append_assoc done]
  rw [readFiles, if_pos (by omega), hsub]
  dsimp only
  rw [hread, hsubPadded, halignment, hbytes]
  simp only [bind, Except.bind]
  rw [hstoreBytes]
  simp only
  rw [hstoreZeros, ← hamount, ← hrelative, show toRead + (amount - toRead) = amount by omega,
    Nat.mod_eq_of_lt (by omega)]

/-- The loop from inside the first entry, or from the end of all of them. -/
theorem readFiles_entries (files : List File) :
    ∀ {base offset : Nat} {done rest : List Byte}, (∀ f ∈ files, f.Readable storage) →
      base + filesSize files < 2 ^ 64 → base ≤ offset →
      offset + rest.length ≤ base + filesSize files →
      (offset = base ∨ ∃ file behind, files = file :: behind ∧ offset ≤ base + file.paddedSize) →
      readFiles storage (done.length + rest.length) (entries base files) offset done.length
          (done ++ rest) =
        .ok (done.length + rest.length,
          done ++ bytesAt (filesImage storage files) (offset - base) rest.length) := by
  induction files with
  | nil =>
    intro base offset done rest _ _ hbase hend _
    have hrest : rest = [] := by
      rw [show filesSize [] = 0 from rfl] at hend
      exact List.length_eq_zero_iff.mp (by omega)
    subst hrest
    rw [readFiles_done (by simp)]
    rfl
  | cons file files ih =>
    intro base offset done rest hall hsize hbase hend hstart
    obtain ⟨hfile, hfiles⟩ := forall_mem_cons.mp hall
    rw [filesSize_cons] at hsize hend
    have hlen := hfile.length_paddedData
    have himage : filesImage storage (file :: files) =
        file.paddedData storage ++ filesImage storage files := by
      rw [filesImage, List.flatMap_cons]
      rfl
    have hoffset : offset ≤ base + file.paddedSize := by
      rcases hstart with rfl | ⟨f, behind, heq, hle⟩
      · omega
      · cases heq
        exact hle
    rw [entries, himage]
    by_cases hzero : file.relocation.size = 0
    · have hpadded := File.paddedSize_eq_zero.mpr hzero
      have hnil : file.paddedData storage = [] := List.length_eq_zero_iff.mp (hlen.trans hpadded)
      rw [if_pos hzero, ih hfiles (by omega) (by omega) (by omega) (.inl (by omega)), hnil, hpadded,
        Nat.add_zero, nil_append]
    rw [if_neg hzero]
    by_cases hrest : rest = []
    · subst hrest
      rw [readFiles_done (by simp)]
      simp [bytesAt]
    rw [readFiles_entry hfile hrest (by omega) hbase hoffset, bytesAt_append_of_le (by omega), hlen]
    obtain ⟨amount, hamount⟩ :
        ∃ amount, amount = min (base + file.paddedSize - offset) rest.length := ⟨_, rfl⟩
    rw [← hamount]
    obtain ⟨chunk, hchunk⟩ :
        ∃ chunk, chunk = bytesAt (file.paddedData storage) (offset - base) amount := ⟨_, rfl⟩
    have hchunkLen : chunk.length = amount := by
      rw [hchunk, length_bytesAt (by omega)]
    have hfirst : bytesAt (file.paddedData storage) (offset - base) rest.length = chunk := by
      rw [hchunk, bytesAt_min, hlen]
      congr 1
      omega
    have hdone : (done ++ chunk).length = done.length + amount := by
      rw [List.length_append, hchunkLen]
    have hleft : (rest.drop amount).length = rest.length - amount := length_drop
    have htotal : done.length + rest.length =
        (done ++ chunk).length + (rest.drop amount).length := by omega
    rw [← hchunk, hfirst, ← hdone]
    by_cases hmore : base + file.paddedSize - offset ≤ rest.length
    · -- the entry is read to its end
      rw [htotal, ih hfiles (by omega) (by omega) (by omega) (.inl (by omega)), hleft,
        List.append_assoc, show offset + amount - (base + file.paddedSize) = 0 by omega,
        show file.paddedSize - (offset - base) = amount by omega]
    · have hall : amount = rest.length := by omega
      rw [readFiles_done (by omega), hdone, hall, List.drop_length, append_nil,
        show rest.length - (file.paddedSize - (offset - base)) = 0 by omega]
      simp [bytesAt]

/-! ## Whole reads -/

mutual

/-- Removed files are not laid out. -/
theorem prepareBuild_kept :
    ∀ (root : Directory), ∀ f ∈ prepareBuild root, f.relocation.type ≠ .removed
  | .mk files directories, f, hf => by
    rw [prepareBuild] at hf
    rcases List.mem_append.mp hf with hf | hf
    · exact of_decide_eq_true (List.mem_filter.mp hf).2
    · exact prepareBuilds_kept directories f hf

theorem prepareBuilds_kept :
    ∀ (directories : List Directory), ∀ f ∈ prepareBuilds directories,
      f.relocation.type ≠ .removed
  | [], f, hf => absurd hf List.not_mem_nil
  | directory :: directories, f, hf => by
    rw [prepareBuilds] at hf
    rcases List.mem_append.mp hf with hf | hf
    · exact prepareBuild_kept directory f hf
    · exact prepareBuilds_kept directories f hf

end

/-- The part of a read behind the metadata. -/
theorem readFiles_found (hall : ∀ f ∈ files, f.Readable storage)
    (hdata : ∃ f ∈ files, f.relocation.size ≠ 0) (hsize : filesSize files < 2 ^ 64) {offset : Nat}
    {done rest : List Byte} (hend : offset + rest.length ≤ filesSize files) :
    ∃ current, beforeUpperBound offset (entries 0 files) = some current ∧
      readFiles storage (done.length + rest.length) current offset done.length (done ++ rest) =
        .ok (done.length + rest.length,
          done ++ bytesAt (filesImage storage files) offset rest.length) := by
  obtain ⟨before, file, behind, rfl, hfile, hit, hbase, hin⟩ :=
    beforeUpperBound_entries files (Nat.zero_le offset) hdata
  rw [Nat.zero_add] at hit hbase hin
  rw [filesSize_append, filesSize_cons] at hsize hend
  have hbefore : ∀ f ∈ before, f.Readable storage := fun f hf => hall f (List.mem_append_left _ hf)
  have hafter : ∀ f ∈ file :: behind, f.Readable storage :=
    fun f hf => hall f (List.mem_append_right _ hf)
  have hoffset : offset ≤ filesSize before + file.paddedSize := by
    rcases hin with hle | hempty
    · exact hle
    · rw [filesSize_eq_zero hempty] at hend
      omega
  have himage : filesImage storage (before ++ file :: behind) =
      filesImage storage before ++ filesImage storage (file :: behind) := by
    rw [filesImage, List.flatMap_append]
    rfl
  refine ⟨_, hit, ?_⟩
  rw [readFiles_entries _ hafter (by rw [filesSize_cons]; omega) hbase
      (by rw [filesSize_cons]; omega) (.inr ⟨file, behind, rfl, hoffset⟩), himage,
    bytesAt_append_of_ge (by rw [length_filesImage hbefore]; exact hbase),
    length_filesImage hbefore]

/-- Reads return slices of the image, also in two pieces, and the data of each file is at its
`file_data_offset`. -/
structure ReadsSlices (storage : Storage) (metadata : List Byte) (root : Directory) : Prop where
  slice : ∀ offset length buffer, buffer.length = length →
    offset + length ≤ (rebuild metadata root).getSize →
      (rebuild metadata root).readFile storage offset length buffer =
        .ok (length, bytesAt (image storage metadata root) offset length)
  pieces : ∀ offset a b whole left right, whole.length = a + b → left.length = a →
    right.length = b → offset + (a + b) ≤ (rebuild metadata root).getSize →
      ∃ xs ys, (rebuild metadata root).readFile storage offset a left = .ok (a, xs) ∧
        (rebuild metadata root).readFile storage (offset + a) b right = .ok (b, ys) ∧
        (rebuild metadata root).readFile storage offset (a + b) whole =
          .ok (a + b, xs ++ ys)
  offsets : ∀ e ∈ (rebuild metadata root).layout.fileOffsets,
    bytesAt (image storage metadata root) (metadata.length + e.1) e.2.relocation.size =
      e.2.data storage

section Rebuilt

variable {metadata : List Byte} {root : Directory}

theorem rebuild_layout (hsize : metadata.length + filesSize (prepareBuild root) < 2 ^ 64) :
    (rebuild metadata root).layout =
        ⟨filesSize (prepareBuild root), entries 0 (prepareBuild root),
          offsets 0 (prepareBuild root)⟩ ∧
      (rebuild metadata root).getSize =
        metadata.length + filesSize (prepareBuild root) := by
  have hlayout : (rebuild metadata root).layout =
      ⟨filesSize (prepareBuild root), entries 0 (prepareBuild root),
        offsets 0 (prepareBuild root)⟩ := buildFiles_eq (by omega)
  refine ⟨hlayout, ?_⟩
  rw [LayeredFS.getSize, hlayout]
  exact Nat.mod_eq_of_lt hsize

variable (hall : ∀ f ∈ prepareBuild root, f.Readable storage)
  (hsize : metadata.length + filesSize (prepareBuild root) < 2 ^ 64)
include hall hsize

theorem readFile_eq (hdata : ∃ f ∈ prepareBuild root, f.relocation.size ≠ 0) {length : Nat}
    {buffer : List Byte} (hbuffer : buffer.length = length)
    (hend : offset + length ≤ (rebuild metadata root).getSize) :
    (rebuild metadata root).readFile storage offset length buffer =
      .ok (length, bytesAt (image storage metadata root) offset length) := by
  obtain ⟨hlayout, hgetSize⟩ := @rebuild_layout metadata root hsize
  have hmetadata : (rebuild metadata root).metadata = metadata := rfl
  rw [readFile, ensure, if_pos (by omega), hlayout, hmetadata]
  rw [hgetSize] at hend
  simp only [bind, Except.bind]
  by_cases hin : offset < metadata.length
  · -- first the metadata, then the files from their first byte on
    obtain ⟨toRead, htoRead⟩ : ∃ toRead, toRead = min (metadata.length - offset) length := ⟨_, rfl⟩
    obtain ⟨bytes, hbytes⟩ : ∃ bytes, bytes = bytesAt metadata offset toRead := ⟨_, rfl⟩
    have hlen : bytes.length = toRead := by rw [hbytes, length_bytesAt (by omega)]
    have hstore : storeAt buffer 0 bytes = .ok (bytes ++ buffer.drop toRead) := by
      have hfits : bytes.length ≤ buffer.length := by omega
      rw [← hlen]
      exact @storeAt_append [] _ _ hfits
    have hleft : (buffer.drop toRead).length = length - toRead := by
      rw [length_drop, hbuffer]
    obtain ⟨current, hcurrent, hread⟩ := @readFiles_found storage _ hall hdata (by omega) 0 bytes
      (buffer.drop toRead) (by omega)
    rw [show bytes.length + (buffer.drop toRead).length = length by omega, hleft, hlen] at hread
    rw [if_pos hin, ← htoRead, readAt_inside (by omega), ← hbytes]
    simp only
    rw [hstore]
    simp only [pure, Except.pure]
    rw [hcurrent]
    simp only
    rw [hread, image, bytesAt_append_of_le (Nat.le_of_lt hin), bytesAt_min metadata, ← htoRead,
      ← hbytes, show length - (metadata.length - offset) = length - toRead by omega]
  · obtain ⟨current, hcurrent, hread⟩ := @readFiles_found storage _ hall hdata (by omega)
      (offset - metadata.length) [] buffer (by omega)
    rw [List.length_nil, Nat.zero_add, nil_append, nil_append, hbuffer] at hread
    rw [if_neg hin]
    simp only [pure, Except.pure]
    rw [hcurrent]
    simp only
    rw [hread, image, bytesAt_append_of_ge (Nat.not_lt.mp hin)]

end Rebuilt

/-- For every tree of files and every metadata whose image has a size in `u64`: reads are slices of
the image exactly when some file has data. -/
theorem readFile_slices {metadata : List Byte} {root : Directory}
    (hbacked : ∀ f ∈ prepareBuild root, f.Backed storage)
    (hsize : metadata.length + filesSize (prepareBuild root) < 2 ^ 64) :
    ReadsSlices storage metadata root ↔ ∃ f ∈ prepareBuild root, f.relocation.size ≠ 0 := by
  obtain ⟨hlayout, hgetSize⟩ := @rebuild_layout metadata root hsize
  have hall : ∀ f ∈ prepareBuild root, f.Readable storage :=
    fun f hf => ⟨hbacked f hf, prepareBuild_kept root f hf⟩
  constructor
  · -- without data there is no entry to step back to
    intro h
    by_contra hempty
    push Not at hempty
    have hread := h.slice 0 0 [] rfl (Nat.zero_le _)
    have hinside : (0 + 0) % 2 ^ 64 ≤ (rebuild metadata root).getSize := Nat.zero_le _
    have hmetadata : readAt (rebuild metadata root).metadata 0 0 = .ok [] :=
      readAt_inside (Nat.zero_le _)
    rw [readFile, ensure, if_pos hinside, hlayout, entries_nil hempty] at hread
    simp only [bind, Except.bind, Nat.min_zero, hmetadata] at hread
    split_ifs at hread
    · cases hread
    · cases hread
  · intro hdata
    refine ⟨fun offset length buffer hbuffer hend => readFile_eq hall hsize hdata hbuffer hend,
      fun offset a b whole left right hwhole hleft hright hend => ?_, fun e he => ?_⟩
    · refine ⟨_, _, readFile_eq hall hsize hdata hleft (by omega),
        readFile_eq hall hsize hdata hright (by omega), ?_⟩
      rw [readFile_eq hall hsize hdata hwhole hend, bytesAt_add]
    · rw [hlayout] at he
      obtain ⟨-, hbytes⟩ := bytesAt_offsets hall he
      rw [image, bytesAt_append_of_ge (Nat.le_add_right _ _), Nat.add_sub_cancel_left, ← hbytes,
        Nat.sub_zero]

/-- A tree with a file of two bytes and an empty one. -/
def twoFiles : Directory :=
  .mk [⟨.patched, 0, [], [5, 6], 2⟩] [.mk [⟨.patched, 0, [], [], 0⟩] []]

theorem twoFiles_slices : ReadsSlices ⟨[], fun _ => none⟩ [1, 2] twoFiles := by
  have hfiles : prepareBuild twoFiles =
      [⟨.patched, 0, [], [5, 6], 2⟩, ⟨.patched, 0, [], [], 0⟩] := by
    simp [twoFiles, prepareBuild, prepareBuilds]
  refine (readFile_slices ?_ ?_).mpr ?_
  · rw [hfiles]
    simp [File.Backed]
  · rw [hfiles]
    decide
  · rw [hfiles]
    exact ⟨_, List.mem_cons_self, by decide⟩

/-- No file has data, and not even the metadata can be read. -/
theorem readFile_without_data :
    (rebuild [1, 2] (.mk [] [])).readFile ⟨[], fun _ => none⟩ 0 2 [0, 0] =
      .error .read := rfl

end GbaStation.FileSys
