import GbaStation.Common.Checked

/-!
# IPS patches (`core/file_sys/patch.cpp`)

`ApplyIpsPatch` walks over the records of a patch and writes their bytes to the buffer. It compares
every record with the size of the buffer, but not with the end of the patch, so a patch that is cut
off inside a record is read past its end.

- `applyIpsPatch_iff`: the patches for which no access is outside. Those made of records are among
  them, and are applied.
-/

namespace GbaStation.FileSys

open List (replicate length_append append_assoc)

/-- `Loader::ResultStatus`, the values that the patches end with. -/
inductive ResultStatus
  | success
  | errorPatches
  | errorPatchesInvalidTitle
deriving DecidableEq, Repr

/-! ## The function -/

/-- The difference of two `std::size_t`. -/
def sizeSub (a b : Nat) : Nat := if b ≤ a then a - b else a + 2 ^ 64 - b

/-- The characters of "PATCH". -/
def ipsMagic : List Byte := [0x50, 0x41, 0x54, 0x43, 0x48]

/-- The characters of "EOF". -/
def ipsEof : List Byte := [0x45, 0x4F, 0x46]

/-- What a turn of the loop does: the function returns, or goes on at a cursor. -/
inductive IpsTurn
  | returned (status : ResultStatus) (buffer : List Byte)
  | next (cursor : Nat) (buffer : List Byte)

/-- The loop over the bytes of an RLE record, from byte `i` on. -/
def fillRle (ips : List Byte) (cursor offset : Nat) :
    Nat → Nat → List Byte → Except Fault (List Byte)
  | 0, _, buffer => .ok buffer
  | n + 1, i, buffer => do
    let value ← byteAt ips (cursor + 7)
    let buffer ← storeByte buffer (offset + i) value
    fillRle ips cursor offset n (i + 1) buffer

/-- A turn of the loop of `ApplyIpsPatch`. -/
def applyIpsRecord (ips : List Byte) (cursor : Nat) (buffer : List Byte) :
    Except Fault IpsTurn := do
  let eofCheck ← readAt ips cursor 3
  if eofCheck = ipsEof then .ok (.returned .success buffer) else
  let offset := bigEndian (← readAt ips cursor 3)
  let length := bigEndian (← readAt ips (cursor + 3) 2)
  -- check for an rle record
  if length = 0 then
    let length := bigEndian (← readAt ips (cursor + 5) 2)
    if buffer.length < offset + length then .ok (.returned .errorPatches buffer) else
    let buffer ← fillRle ips cursor offset length 0 buffer
    .ok (.next (cursor + 8) buffer)
  else if buffer.length < offset + length then .ok (.returned .errorPatches buffer) else
  let buffer ← storeAt buffer offset (← readAt ips (cursor + 5) length)
  .ok (.next (cursor + (length + 5)) buffer)

/-- The loop of `ApplyIpsPatch`. -/
def applyIpsRecords (ips : List Byte) (patchLength : Nat) :
    Nat → Nat → List Byte → Except Fault (ResultStatus × List Byte)
  | 0, _, _ => .error .unreachable
  | fuel + 1, cursor, buffer =>
    if patchLength ≤ cursor then .ok (.success, buffer) else do
    match ← applyIpsRecord ips cursor buffer with
    | .returned status buffer => .ok (status, buffer)
    | .next cursor buffer => applyIpsRecords ips patchLength fuel cursor buffer

/-- `ApplyIpsPatch`: the status and the buffer that it leaves. -/
def applyIpsPatch (ips buffer : List Byte) : Except Fault (ResultStatus × List Byte) := do
  let patchLength := sizeSub ips.length 3
  let ipsHeader ← readAt ips 0 5
  if ipsHeader ≠ ipsMagic then .ok (.errorPatches, buffer) else
  applyIpsRecords ips patchLength (ips.length + 1) 5 buffer

/-! ## Records that are complete -/

/-- From a record on, up to the mark of the end, the last three bytes or a record that does not fit
the buffer, every record has its bytes. -/
def recordsComplete (ips : List Byte) (bufferSize : Nat) : Nat → Nat → Bool
  | 0, _ => true
  | fuel + 1, cursor =>
    if ips.length ≤ cursor + 3 ∨ bytesAt ips cursor 3 = ipsEof then true
    else if ips.length < cursor + 5 then false
    else
      let offset := bigEndian (bytesAt ips cursor 3)
      let length := bigEndian (bytesAt ips (cursor + 3) 2)
      if length = 0 then
        if ips.length < cursor + 7 then false
        else
          let length := bigEndian (bytesAt ips (cursor + 5) 2)
          if bufferSize < offset + length then true
          else if length ≠ 0 ∧ ips.length < cursor + 8 then false
          else recordsComplete ips bufferSize fuel (cursor + 8)
      else if bufferSize < offset + length then true
      else if ips.length < cursor + 5 + length then false
      else recordsComplete ips bufferSize fuel (cursor + (length + 5))

/-- The header is there, and when it is that of a patch, so are all its records. -/
def IpsComplete (ips : List Byte) (bufferSize : Nat) : Prop :=
  5 ≤ ips.length ∧ (bytesAt ips 0 5 = ipsMagic → recordsComplete ips bufferSize ips.length 5 = true)

/-! ## The loop -/

/-- The bytes of an RLE record, where its value is there to be read. -/
theorem fillRle_eq {ips buffer : List Byte} {cursor offset : Nat} {value : Byte}
    (hvalue : byteAt ips (cursor + 7) = .ok value) (n : Nat) :
    ∀ {i : Nat}, offset + i + n ≤ buffer.length →
      fillRle ips cursor offset n i (splice buffer offset (replicate i value)) =
        .ok (splice buffer offset (replicate (i + n) value)) := by
  induction n with
  | zero => exact fun _ => rfl
  | succ n ih =>
    intro i hi
    have hlen : (replicate i value).length = i := List.length_replicate
    have hsplice : (splice buffer offset (replicate i value)).length = buffer.length :=
      length_splice (by omega)
    have hset : (splice buffer offset (replicate i value)).set
        (offset + (replicate i value).length) value =
          splice buffer offset (replicate i value ++ [value]) := splice_snoc (by omega)
    rw [hlen] at hset
    rw [fillRle, hvalue]
    simp only [bind, Except.bind]
    rw [storeByte_inside value (by omega), hset, ← List.replicate_succ']
    rw [show i + (n + 1) = i + 1 + n by omega]
    exact ih (by omega)

variable {ips buffer : List Byte} {cursor : Nat}

/-- The offset of a record. -/
def recordOffset (ips : List Byte) (cursor : Nat) : Nat := bigEndian (bytesAt ips cursor 3)

/-- The length of a record, zero for one of a repeated byte. -/
def recordLength (ips : List Byte) (cursor : Nat) : Nat := bigEndian (bytesAt ips (cursor + 3) 2)

/-- The length of a record of a repeated byte. -/
def rleLength (ips : List Byte) (cursor : Nat) : Nat := bigEndian (bytesAt ips (cursor + 5) 2)

theorem applyIpsRecord_eof (hcursor : cursor + 3 ≤ ips.length)
    (heof : bytesAt ips cursor 3 = ipsEof) :
    applyIpsRecord ips cursor buffer = .ok (.returned .success buffer) := by
  simp only [applyIpsRecord, bind, Except.bind, readAt_inside hcursor, heof, if_true]

/-- A record that is cut off in its length. -/
theorem applyIpsRecord_short (hcursor : cursor + 3 ≤ ips.length)
    (heof : bytesAt ips cursor 3 ≠ ipsEof) (hshort : ips.length < cursor + 5) :
    applyIpsRecord ips cursor buffer = .error .read := by
  have hlength : readAt ips (cursor + 3) 2 = .error .read := readAt_outside (by omega)
  simp only [applyIpsRecord, bind, Except.bind, readAt_inside hcursor, if_neg heof, hlength]

theorem applyIpsRecord_rle_short (hcursor : cursor + 5 ≤ ips.length)
    (heof : bytesAt ips cursor 3 ≠ ipsEof) (hlength : recordLength ips cursor = 0)
    (hshort : ips.length < cursor + 7) :
    applyIpsRecord ips cursor buffer = .error .read := by
  have hoffset : readAt ips cursor 3 = .ok (bytesAt ips cursor 3) := readAt_inside (by omega)
  have hzero : readAt ips (cursor + 3) 2 = .ok (bytesAt ips (cursor + 3) 2) :=
    readAt_inside (by omega)
  have hrle : readAt ips (cursor + 5) 2 = .error .read := readAt_outside (by omega)
  rw [recordLength] at hlength
  simp only [applyIpsRecord, bind, Except.bind, hoffset, hzero, if_neg heof, if_pos hlength, hrle]

/-- A record of a repeated byte, from its length on. -/
theorem applyIpsRecord_rle (hcursor : cursor + 7 ≤ ips.length)
    (heof : bytesAt ips cursor 3 ≠ ipsEof) (hlength : recordLength ips cursor = 0) :
    applyIpsRecord ips cursor buffer =
      if buffer.length < recordOffset ips cursor + rleLength ips cursor then
        .ok (.returned .errorPatches buffer)
      else
        (fillRle ips cursor (recordOffset ips cursor) (rleLength ips cursor) 0 buffer).bind
          fun buffer => .ok (.next (cursor + 8) buffer) := by
  have hoffset : readAt ips cursor 3 = .ok (bytesAt ips cursor 3) := readAt_inside (by omega)
  have hzero : readAt ips (cursor + 3) 2 = .ok (bytesAt ips (cursor + 3) 2) :=
    readAt_inside (by omega)
  have hrle : readAt ips (cursor + 5) 2 = .ok (bytesAt ips (cursor + 5) 2) :=
    readAt_inside (by omega)
  rw [recordLength] at hlength
  simp only [applyIpsRecord, bind, Except.bind, hoffset, hzero, if_neg heof, if_pos hlength, hrle]
  rfl

/-- A record of bytes, from its length on. -/
theorem applyIpsRecord_literal (hcursor : cursor + 5 ≤ ips.length)
    (heof : bytesAt ips cursor 3 ≠ ipsEof) (hlength : recordLength ips cursor ≠ 0) :
    applyIpsRecord ips cursor buffer =
      if buffer.length < recordOffset ips cursor + recordLength ips cursor then
        .ok (.returned .errorPatches buffer)
      else
        (readAt ips (cursor + 5) (recordLength ips cursor)).bind fun bytes =>
          (storeAt buffer (recordOffset ips cursor) bytes).bind fun buffer =>
            .ok (.next (cursor + (recordLength ips cursor + 5)) buffer) := by
  have hoffset : readAt ips cursor 3 = .ok (bytesAt ips cursor 3) := readAt_inside (by omega)
  have hread : readAt ips (cursor + 3) 2 = .ok (bytesAt ips (cursor + 3) 2) :=
    readAt_inside (by omega)
  rw [recordLength] at hlength
  simp only [applyIpsRecord, bind, Except.bind, hoffset, hread, if_neg heof, if_neg hlength]
  rfl

/-- The bytes of a complete record of a repeated byte. -/
theorem fillRle_complete {value : Byte} {offset n : Nat}
    (hvalue : n = 0 ∨ byteAt ips (cursor + 7) = .ok value) (hfits : offset + n ≤ buffer.length) :
    fillRle ips cursor offset n 0 buffer = .ok (splice buffer offset (replicate n value)) := by
  rcases hvalue with rfl | hvalue
  · rw [fillRle, List.replicate_zero, splice_nil]
  · have hfill : fillRle ips cursor offset n 0 (splice buffer offset (replicate 0 value)) =
        .ok (splice buffer offset (replicate (0 + n) value)) :=
      fillRle_eq hvalue n (by omega)
    rwa [List.replicate_zero, splice_nil, Nat.zero_add] at hfill

/-- A turn of the loop at a record: it is cut off, the function returns, or the loop goes on behind
the record with a buffer of the same size. -/
theorem applyIpsRecord_cases (hcursor : cursor + 3 < ips.length) (fuel : Nat) :
    (¬Safe (applyIpsRecord ips cursor buffer) ∧
        recordsComplete ips buffer.length (fuel + 1) cursor = false) ∨
      (∃ status, applyIpsRecord ips cursor buffer = .ok (.returned status buffer) ∧
        recordsComplete ips buffer.length (fuel + 1) cursor = true) ∨
      ∃ cursor' buffer', applyIpsRecord ips cursor buffer = .ok (.next cursor' buffer') ∧
        cursor < cursor' ∧ buffer'.length = buffer.length ∧
        recordsComplete ips buffer.length (fuel + 1) cursor =
          recordsComplete ips buffer.length fuel cursor' := by
  rw [recordsComplete]
  by_cases heof : bytesAt ips cursor 3 = ipsEof
  · right; left
    exact ⟨_, applyIpsRecord_eof (by omega) heof, if_pos (.inr heof)⟩
  rw [if_neg (by rintro (h | h); exacts [by omega, heof h])]
  by_cases hshort : ips.length < cursor + 5
  · left
    rw [applyIpsRecord_short (by omega) heof hshort, if_pos hshort]
    exact ⟨by simp, rfl⟩
  rw [if_neg hshort]
  by_cases hlength : recordLength ips cursor = 0
  · rw [if_pos (show bigEndian (bytesAt ips (cursor + 3) 2) = 0 from hlength)]
    by_cases hrle : ips.length < cursor + 7
    · left
      rw [applyIpsRecord_rle_short (by omega) heof hlength hrle, if_pos hrle]
      exact ⟨by simp, rfl⟩
    rw [if_neg hrle, applyIpsRecord_rle (by omega) heof hlength]
    by_cases hfits : buffer.length < recordOffset ips cursor + rleLength ips cursor
    · right; left
      rw [if_pos hfits]
      exact ⟨_, rfl, if_pos hfits⟩
    rw [if_neg hfits, if_neg (show ¬buffer.length < bigEndian (bytesAt ips cursor 3) +
      bigEndian (bytesAt ips (cursor + 5) 2) from hfits)]
    by_cases hvalue : rleLength ips cursor ≠ 0 ∧ ips.length < cursor + 8
    · left
      rw [if_pos (show bigEndian (bytesAt ips (cursor + 5) 2) ≠ 0 ∧ _ from hvalue)]
      refine ⟨?_, rfl⟩
      obtain ⟨n, hn⟩ := Nat.exists_eq_succ_of_ne_zero hvalue.1
      rw [hn, fillRle, byteAt_outside (by omega)]
      simp [bind, Except.bind]
    · right; right
      rw [if_neg (show ¬(bigEndian (bytesAt ips (cursor + 5) 2) ≠ 0 ∧ _) from hvalue)]
      obtain ⟨value, hvalue⟩ :
          ∃ value, rleLength ips cursor = 0 ∨ byteAt ips (cursor + 7) = .ok value := by
        rcases not_and_or.mp hvalue with hzero | hlen
        · exact ⟨0, .inl (not_not.mp hzero)⟩
        · exact ⟨_, .inr (byteAt_inside (by omega))⟩
      rw [fillRle_complete hvalue (by omega)]
      exact ⟨_, _, rfl, by omega, length_splice (by rw [List.length_replicate]; omega), rfl⟩
  · rw [if_neg (show ¬bigEndian (bytesAt ips (cursor + 3) 2) = 0 from hlength),
      applyIpsRecord_literal (by omega) heof hlength]
    by_cases hfits : buffer.length < recordOffset ips cursor + recordLength ips cursor
    · right; left
      rw [if_pos hfits]
      exact ⟨_, rfl, if_pos hfits⟩
    rw [if_neg hfits, if_neg (show ¬buffer.length < bigEndian (bytesAt ips cursor 3) +
      bigEndian (bytesAt ips (cursor + 3) 2) from hfits)]
    by_cases hbytes : ips.length < cursor + 5 + recordLength ips cursor
    · left
      rw [if_pos (show ips.length < cursor + 5 + bigEndian (bytesAt ips (cursor + 3) 2)
        from hbytes),
        readAt_outside hbytes]
      exact ⟨by simp [Except.bind], rfl⟩
    · right; right
      rw [if_neg (show ¬ips.length < cursor + 5 + bigEndian (bytesAt ips (cursor + 3) 2)
        from hbytes), readAt_inside (Nat.not_lt.mp hbytes)]
      have hlen := length_bytesAt (Nat.not_lt.mp hbytes)
      have hstore : storeAt buffer (recordOffset ips cursor)
          (bytesAt ips (cursor + 5) (recordLength ips cursor)) = .ok _ :=
        storeAt_inside (by omega)
      simp only [Except.bind, hstore]
      exact ⟨_, _, rfl, by omega, length_splice (by omega), rfl⟩

/-- The loop accesses nothing outside exactly when the records are complete. -/
theorem safe_applyIpsRecords (hlen : 3 ≤ ips.length) (fuel : Nat) :
    ∀ {cursor : Nat} {buffer : List Byte}, ips.length ≤ cursor + fuel →
      (Safe (applyIpsRecords ips (ips.length - 3) (fuel + 1) cursor buffer) ↔
        recordsComplete ips buffer.length fuel cursor = true) := by
  induction fuel with
  | zero =>
    intro cursor buffer hfuel
    rw [applyIpsRecords, if_pos (by omega)]
    exact iff_of_true ⟨_, rfl⟩ rfl
  | succ fuel ih =>
    intro cursor buffer hfuel
    rw [applyIpsRecords]
    by_cases hcursor : ips.length - 3 ≤ cursor
    · rw [if_pos hcursor, recordsComplete, if_pos (.inl (by omega))]
      exact iff_of_true ⟨_, rfl⟩ rfl
    rw [if_neg hcursor]
    have hrecord : cursor + 3 < ips.length := by omega
    rcases @applyIpsRecord_cases ips buffer cursor hrecord fuel with ⟨hbad, hcomplete⟩ |
        ⟨status, hturn, hcomplete⟩ | ⟨cursor', buffer', hturn, hlt, hlength, hcomplete⟩
    · rw [hcomplete]
      refine iff_of_false (fun h => ?_) Bool.false_ne_true
      obtain ⟨turn, hturn, -⟩ := safe_bind.mp h
      exact hbad ⟨turn, hturn⟩
    · rw [hcomplete, hturn]
      exact iff_of_true ⟨_, rfl⟩ rfl
    · rw [hcomplete, hturn, ← hlength]
      exact ih (by omega)

theorem safe_applyIpsPatch : Safe (applyIpsPatch ips buffer) ↔ IpsComplete ips buffer.length := by
  unfold applyIpsPatch IpsComplete
  rw [readAt_bind]
  refine and_congr_right fun hlen => ?_
  by_cases hmagic : bytesAt ips 0 5 = ipsMagic
  · rw [if_neg (not_not.mpr hmagic), sizeSub, if_pos (by omega),
      safe_applyIpsRecords (by omega) _ (by omega)]
    exact ⟨fun h _ => h, fun h => h hmagic⟩
  · rw [if_pos hmagic]
    exact iff_of_true ⟨_, rfl⟩ fun h => absurd h hmagic

/-! ## Patches that are made of records -/

/-- A record: bytes for an offset, or a byte that is repeated there. -/
inductive IpsRecord
  | literal (offset : Nat) (data : List Byte)
  | rle (offset length : Nat) (value : Byte)
deriving DecidableEq, Repr

namespace IpsRecord

def offset : IpsRecord → Nat
  | literal offset _ => offset
  | rle offset _ _ => offset

/-- What a record writes. -/
def data : IpsRecord → List Byte
  | literal _ data => data
  | rle _ length value => replicate length value

/-- The buffer after a record. -/
def apply (buffer : List Byte) (r : IpsRecord) : List Byte := splice buffer r.offset r.data

/-- The three bytes of an offset. -/
def offsetBytes (offset : Nat) : List Byte := .ofNat 8 (offset / 0x10000) :: bigEndianBytes offset

def encode : IpsRecord → List Byte
  | literal offset data => offsetBytes offset ++ (bigEndianBytes data.length ++ data)
  | rle offset length value =>
    offsetBytes offset ++ (bigEndianBytes 0 ++ (bigEndianBytes length ++ [value]))

/-- The numbers of the record have room in its fields, its offset is not the mark of the end, and
its bytes fit a buffer. -/
structure WellFormed (bufferSize : Nat) (r : IpsRecord) : Prop where
  offset_lt : r.offset < 2 ^ 24
  not_eof : r.offset ≠ 0x454F46
  length_lt : r.data.length < 2 ^ 16
  fits : r.offset + r.data.length ≤ bufferSize
  /-- A length of zero marks a repeated byte. -/
  literal_pos : ∀ offset data, r = literal offset data → data ≠ []

theorem bigEndian_offsetBytes {offset : Nat} (h : offset < 2 ^ 24) :
    bigEndian (offsetBytes offset) = offset := by
  show littleEndian [BitVec.ofNat 8 offset, BitVec.ofNat 8 (offset / 0x100),
    BitVec.ofNat 8 (offset / 0x10000)] = _
  simp only [littleEndian, BitVec.toNat_ofNat]
  omega

theorem offsetBytes_ne_eof {offset : Nat} (h : offset < 2 ^ 24) (hne : offset ≠ 0x454F46) :
    offsetBytes offset ≠ ipsEof := by
  intro heq
  have hvalue := congrArg bigEndian heq
  rw [bigEndian_offsetBytes h] at hvalue
  exact hne (hvalue.trans (by decide))

theorem length_apply {r : IpsRecord} (h : r.WellFormed buffer.length) :
    (apply buffer r).length = buffer.length :=
  length_splice h.fits

end IpsRecord

open IpsRecord (encode offsetBytes apply)

/-- The bytes of a patch. -/
def encodeIps (records : List IpsRecord) : List Byte :=
  ipsMagic ++ (records.flatMap encode ++ ipsEof)

/-- The turn of the loop at a well-formed record. -/
theorem applyIpsRecord_encode {pre post : List Byte} {r : IpsRecord}
    (h : r.WellFormed buffer.length) (hips : ips = pre ++ (r.encode ++ post)) :
    applyIpsRecord ips pre.length buffer =
      .ok (.next (pre.length + r.encode.length) (r.apply buffer)) := by
  have hlen : ips.length = pre.length + (r.encode.length + post.length) := by
    rw [hips, length_append, length_append]
  have hne := IpsRecord.offsetBytes_ne_eof h.offset_lt h.not_eof
  cases r with
  | literal offset data =>
    have hdata : data.length ≠ 0 :=
      fun hzero => h.literal_pos offset data rfl (List.length_eq_zero_iff.mp hzero)
    have hlt : data.length < 2 ^ 16 := h.length_lt
    have hsize : (IpsRecord.literal offset data).encode.length = data.length + 5 := by
      simp only [encode, offsetBytes, bigEndianBytes, length_append,
        List.length_cons, List.length_nil]
      omega
    have hoffset : bytesAt ips pre.length 3 = offsetBytes offset := by
      rw [hips, encode, append_assoc]
      exact bytesAt_prefix rfl rfl
    have hlength : bytesAt ips (pre.length + 3) 2 = bigEndianBytes data.length := by
      rw [hips, encode, append_assoc, append_assoc, ← append_assoc]
      exact bytesAt_prefix (by simp [offsetBytes, bigEndianBytes]) rfl
    have hbytes : bytesAt ips (pre.length + 5) data.length = data := by
      rw [hips, encode, append_assoc, append_assoc, ← append_assoc,
        ← append_assoc]
      exact bytesAt_prefix (by simp [offsetBytes, bigEndianBytes]) rfl
    have hrecordOffset : recordOffset ips pre.length = offset := by
      rw [recordOffset, hoffset]
      exact IpsRecord.bigEndian_offsetBytes h.offset_lt
    have hrecordLength : recordLength ips pre.length = data.length := by
      rw [recordLength, hlength, bigEndian_bytes, Nat.mod_eq_of_lt hlt]
    have hfits : offset + data.length ≤ buffer.length := h.fits
    rw [applyIpsRecord_literal (by omega) (by rwa [hoffset]) (by omega), hrecordOffset,
      hrecordLength, if_neg (by omega), readAt_inside (by omega), hbytes]
    simp only [Except.bind, storeAt_inside hfits]
    rw [hsize]
    rfl
  | rle offset length value =>
    have hlt : length < 2 ^ 16 := by simpa [IpsRecord.data] using h.length_lt
    have hsize : (IpsRecord.rle offset length value).encode.length = 8 := rfl
    have hoffset : bytesAt ips pre.length 3 = offsetBytes offset := by
      rw [hips, encode, append_assoc]
      exact bytesAt_prefix rfl rfl
    have hlength : bytesAt ips (pre.length + 3) 2 = bigEndianBytes 0 := by
      rw [hips, encode, append_assoc, append_assoc, ← append_assoc]
      exact bytesAt_prefix (by simp [offsetBytes, bigEndianBytes]) rfl
    have hrle : bytesAt ips (pre.length + 5) 2 = bigEndianBytes length := by
      rw [hips, encode, append_assoc, append_assoc, append_assoc,
        ← append_assoc, ← append_assoc]
      exact bytesAt_prefix (by simp [offsetBytes, bigEndianBytes]) rfl
    have hvalue : byteAt ips (pre.length + 7) = .ok value := by
      rw [byteAt, hips, encode, append_assoc, append_assoc, append_assoc,
        ← append_assoc, ← append_assoc, ← append_assoc,
        List.getElem?_append_right (by simp [offsetBytes, bigEndianBytes])]
      simp [offsetBytes, bigEndianBytes]
    have hrecordOffset : recordOffset ips pre.length = offset := by
      rw [recordOffset, hoffset]
      exact IpsRecord.bigEndian_offsetBytes h.offset_lt
    have hrecordLength : recordLength ips pre.length = 0 := by
      rw [recordLength, hlength]
      rfl
    have hrleLength : rleLength ips pre.length = length := by
      rw [rleLength, hrle, bigEndian_bytes, Nat.mod_eq_of_lt hlt]
    have hfits : offset + length ≤ buffer.length := by
      simpa [IpsRecord.data, IpsRecord.offset] using h.fits
    rw [applyIpsRecord_rle (by omega) (by rwa [hoffset]) hrecordLength, hrecordOffset, hrleLength,
      if_neg (by omega), fillRle_complete (.inr hvalue) hfits]
    rfl

theorem IpsRecord.length_encode_pos (r : IpsRecord) : 0 < r.encode.length := by
  cases r with
  | literal offset data => simp [encode, offsetBytes]
  | rle offset length value => simp [encode, offsetBytes]

/-- The loop applies the records that are left, one after the other. -/
theorem applyIpsRecords_encode (records : List IpsRecord) :
    ∀ {pre buffer : List Byte} {fuel : Nat},
      ips = pre ++ (records.flatMap encode ++ ipsEof) →
      (∀ r ∈ records, r.WellFormed buffer.length) → records.length < fuel →
      applyIpsRecords ips (ips.length - 3) fuel pre.length buffer =
        .ok (.success, records.foldl apply buffer) := by
  induction records with
  | nil =>
    intro pre buffer fuel hips _ hfuel
    obtain ⟨fuel, rfl⟩ := Nat.exists_eq_succ_of_ne_zero (Nat.ne_of_gt hfuel)
    have hlen : ips.length = pre.length + 3 := by rw [hips]; simp [ipsEof]
    rw [applyIpsRecords, if_pos (by omega)]
    rfl
  | cons r records ih =>
    intro pre buffer fuel hips hall hfuel
    obtain ⟨hr, hall⟩ := List.forall_mem_cons.mp hall
    obtain ⟨fuel, rfl⟩ := Nat.exists_eq_succ_of_ne_zero (Nat.ne_of_gt (Nat.zero_lt_of_lt hfuel))
    rw [List.flatMap_cons, append_assoc] at hips
    have hpos := r.length_encode_pos
    have hlen : ips.length = pre.length + (r.encode.length +
        ((records.flatMap encode).length + 3)) := by
      rw [hips, length_append, length_append, length_append]
      rfl
    rw [applyIpsRecords, if_neg (by omega), applyIpsRecord_encode hr hips]
    have hnext : ips = (pre ++ r.encode) ++ (records.flatMap encode ++ ipsEof) := by
      rw [hips, append_assoc]
    have hrest := ih hnext (fun r' hr' => by rw [IpsRecord.length_apply hr]; exact hall r' hr')
      (Nat.lt_of_succ_lt_succ hfuel)
    rw [length_append] at hrest
    exact hrest

/-- The records of a patch are applied in their order. -/
theorem applyIpsPatch_encode {records : List IpsRecord}
    (h : ∀ r ∈ records, r.WellFormed buffer.length) :
    applyIpsPatch (encodeIps records) buffer = .ok (.success, records.foldl apply buffer) := by
  have hlen : (encodeIps records).length =
      5 + ((records.flatMap encode).length + 3) := by
    simp [encodeIps, ipsMagic, ipsEof]
    omega
  have hcount : records.length ≤ (records.flatMap encode).length := by
    clear hlen
    induction records with
    | nil => exact Nat.le_refl _
    | cons r records ih =>
      have hpos := r.length_encode_pos
      have hrest := ih fun r' hr' => h r' (List.mem_cons_of_mem _ hr')
      rw [List.flatMap_cons, length_append, List.length_cons]
      omega
  have hmagic : bytesAt (encodeIps records) 0 5 = ipsMagic := by
    show bytesAt ([] ++ (ipsMagic ++ _)) 0 5 = ipsMagic
    exact bytesAt_prefix rfl rfl
  have hloop : applyIpsRecords (encodeIps records) ((encodeIps records).length - 3)
      ((encodeIps records).length + 1) ipsMagic.length buffer =
        .ok (.success, records.foldl apply buffer) :=
    applyIpsRecords_encode records rfl h (by omega)
  unfold applyIpsPatch
  rw [readAt_inside (by omega), hmagic, sizeSub, if_pos (by omega)]
  exact hloop

/-- For every patch and buffer, all accesses are inside and the loop ends, and a well-formed patch
is applied, exactly when the records of the patch are complete. -/
theorem applyIpsPatch_iff (ips buffer : List Byte) :
    (Safe (applyIpsPatch ips buffer) ∧
        ∀ records : List IpsRecord, ips = encodeIps records →
          (∀ r ∈ records, r.WellFormed buffer.length) →
            applyIpsPatch ips buffer = .ok (.success, records.foldl apply buffer)) ↔
      IpsComplete ips buffer.length := by
  rw [safe_applyIpsPatch]
  refine and_iff_left ?_
  rintro records rfl h
  exact applyIpsPatch_encode h

/-- A patch that ends in the offset of a record. -/
theorem applyIpsPatch_cut :
    applyIpsPatch (ipsMagic ++ [0, 0, 0, 0]) [0] = .error .read :=
  rfl

end GbaStation.FileSys
