import GbaStation.FileSys.Ticket

/-!
# Title metadata (`core/file_sys/title_metadata.cpp`)

Title metadata is signed as a ticket is. Its body has the number of the content chunks behind it.
-/

namespace GbaStation.FileSys

open Ticket (bodyStart typeOf)

/-- `ContentChunk`. -/
structure ContentChunk where
  id : BitVec 32
  index : BitVec 16
  type : BitVec 16
  size : BitVec 64
  hash : List Byte

namespace ContentChunk

/-- `sizeof(ContentChunk)`. -/
def bytes : Nat := 0x30

/-- The fields of a chunk, which are big-endian. -/
def ofBytes (d : List Byte) : ContentChunk where
  id := .ofNat 32 (bigEndian (bytesAt d 0 4))
  index := .ofNat 16 (bigEndian (bytesAt d 4 2))
  type := .ofNat 16 (bigEndian (bytesAt d 6 2))
  size := .ofNat 64 (bigEndian (bytesAt d 8 8))
  hash := bytesAt d 16 0x20

end ContentChunk

open ContentChunk (bytes)

structure TitleMetadata where
  signatureType : BitVec 32
  signature : List Byte
  body : List Byte
  chunks : List ContentChunk

namespace TitleMetadata

/-- `sizeof(Body)`. -/
def bodySize : Nat := 0x9C4

/-- `content_count` of a body. -/
def contentCount (body : List Byte) : Nat := bigEndian (bytesAt body 0x9E 2)

/-- A turn of the loop of `Load`. -/
def pushChunk (data : List Byte) (start : Nat) (chunks : List ContentChunk) (i : Nat) :
    Except Fault (List ContentChunk) := do
  let chunk ← readAt data (start + i * bytes) bytes
  .ok (chunks ++ [.ofBytes chunk])

/-- `Load` of a file. What was read before an error stays, and so do chunks from before. -/
def load (t : TitleMetadata) (data : List Byte) (offset : Nat) :
    Except Fault (LoadStatus × TitleMetadata) :=
  let totalSize := sizeSub data.length offset
  if totalSize < 4 then .ok (.error, t) else do
  let signatureType := .ofNat 32 (bigEndian (← readAt data offset 4))
  let t := { t with signatureType }
  let signatureSize := getSignatureSize signatureType
  if signatureSize = 0 then .ok (.error, t) else
  let bodyStart := alignUp (signatureSize + 4) 0x40
  let bodyEnd := bodyStart + bodySize
  if totalSize < bodyEnd then .ok (.error, t) else
  let signature ← readAt data (offset + 4) signatureSize
  let body ← readAt data (offset + bodyStart) bodySize
  let t := { t with signature, body }
  let expectedSize := bodyStart + bodySize + contentCount body * bytes
  if totalSize < expectedSize then .ok (.errorInvalidFormat, t) else
  let chunks ← (List.range (contentCount body)).foldlM (pushChunk data (offset + bodyEnd)) t.chunks
  .ok (.success, { t with chunks })

/-! ## Loading -/

def bodyEnd (signatureType : BitVec 32) : Nat := bodyStart signatureType + bodySize

/-- A body is in the bytes. -/
def HoldsBody (d : List Byte) : Prop :=
  4 ≤ d.length ∧ getSignatureSize (typeOf d) ≠ 0 ∧ bodyEnd (typeOf d) ≤ d.length

/-- The body of title metadata. -/
def bodyOf (d : List Byte) : List Byte := bytesAt d (bodyStart (typeOf d)) bodySize

/-- Where title metadata ends. -/
def endOf (d : List Byte) : Nat := bodyEnd (typeOf d) + contentCount (bodyOf d) * bytes

/-- Title metadata is in the bytes, with its chunks. -/
def HoldsChunks (d : List Byte) : Prop := HoldsBody d ∧ endOf d ≤ d.length

instance (d : List Byte) : Decidable (HoldsBody d) :=
  inferInstanceAs (Decidable (4 ≤ d.length ∧ getSignatureSize (typeOf d) ≠ 0 ∧
    bodyEnd (typeOf d) ≤ d.length))

instance (d : List Byte) : Decidable (HoldsChunks d) :=
  inferInstanceAs (Decidable (HoldsBody d ∧ endOf d ≤ d.length))

/-- How bytes are loaded. -/
def statusOf (d : List Byte) : LoadStatus :=
  if ¬HoldsBody d then .error else if ¬HoldsChunks d then .errorInvalidFormat else .success

/-- The chunks of title metadata. -/
def chunksOf (d : List Byte) : List ContentChunk :=
  (List.range (contentCount (bodyOf d))).map fun i =>
    .ofBytes (bytesAt d (bodyEnd (typeOf d) + i * bytes) bytes)

/-- What is loaded, behind the chunks from before. -/
def loaded (t : TitleMetadata) (d : List Byte) : TitleMetadata where
  signatureType := typeOf d
  signature := bytesAt d 4 (getSignatureSize (typeOf d))
  body := bodyOf d
  chunks := t.chunks ++ chunksOf d

variable {t : TitleMetadata} {data d : List Byte} {offset : Nat}

theorem foldlM_pushChunk {start : Nat} (chunks : List ContentChunk) :
    ∀ n, start + n * bytes ≤ data.length →
      (List.range n).foldlM (pushChunk data start) chunks =
        .ok (chunks ++ (List.range n).map fun i =>
          .ofBytes (bytesAt data (start + i * bytes) bytes)) := by
  intro n
  induction n with
  | zero => exact fun _ => by simp [pure, Except.pure]
  | succ n ih =>
    intro h
    rw [Nat.add_one_mul] at h
    rw [List.range_succ, List.foldlM_append, ih (by omega)]
    have hchunk : readAt data (start + n * bytes) bytes =
        .ok (bytesAt data (start + n * bytes) bytes) :=
      readAt_inside (by omega)
    simp [bind, Except.bind, pure, Except.pure, pushChunk, hchunk]

/-- How title metadata is loaded from a place in the file. -/
theorem load_inside (t : TitleMetadata) (hoffset : offset ≤ data.length) :
    ∃ t', t.load data offset = .ok (statusOf (data.drop offset), t') ∧
      (statusOf (data.drop offset) = .success → t' = t.loaded (data.drop offset)) := by
  obtain ⟨htotal, hread, hfirst⟩ := Ticket.reads_drop hoffset
  have hchunks : offset + bodyEnd (typeOf (data.drop offset)) +
      contentCount (bodyOf (data.drop offset)) * bytes ≤ data.length →
      (List.range (contentCount (bodyOf (data.drop offset)))).foldlM
        (pushChunk data (offset + bodyEnd (typeOf (data.drop offset)))) t.chunks =
        .ok (t.chunks ++ chunksOf (data.drop offset)) := by
    intro h
    rw [foldlM_pushChunk _ _ h, chunksOf]
    simp only [Nat.add_assoc offset, bytesAt_drop]
  have hlength := List.length_drop (i := offset) (l := data)
  rw [load, htotal]
  generalize data.drop offset = d at *
  have hlow := Ticket.getSignatureSize_add_four_le (typeOf d)
  have hstart : alignUp (getSignatureSize (typeOf d) + 4) 0x40 = bodyStart (typeOf d) := rfl
  have hend : bodyStart (typeOf d) + bodySize = bodyEnd (typeOf d) := rfl
  have htype : BitVec.ofNat 32 (bigEndian (bytesAt d 0 4)) = typeOf d := rfl
  have hbodyOf : bytesAt d (bodyStart (typeOf d)) bodySize = bodyOf d := rfl
  rw [statusOf]
  by_cases hbody : HoldsBody d
  · obtain ⟨hword, hknown, hfits⟩ := id hbody
    rw [if_neg (not_not.mpr hbody), if_neg (by omega), hfirst hword]
    simp only [bind, Except.bind, htype, if_neg hknown, hstart, hend, if_neg (Nat.not_lt.mpr hfits)]
    simp only [hread 4 (getSignatureSize (typeOf d)) (by omega),
      hread (bodyStart (typeOf d)) bodySize (by omega), hbodyOf]
    by_cases hfits' : endOf d ≤ d.length
    · rw [if_neg (not_not.mpr ⟨hbody, hfits'⟩)]
      rw [endOf] at hfits'
      simp only [if_neg (Nat.not_lt.mpr hfits')]
      rw [hchunks (by omega)]
      exact ⟨_, rfl, fun _ => rfl⟩
    · rw [if_pos fun h => hfits' h.2]
      rw [endOf] at hfits'
      simp only [if_pos (Nat.not_le.mp hfits')]
      exact ⟨_, rfl, fun h => by cases h⟩
  · rw [if_pos hbody]
    by_cases hword : d.length < 4
    · rw [if_pos hword]
      exact ⟨_, rfl, fun h => by cases h⟩
    rw [if_neg hword, hfirst (by omega)]
    simp only [bind, Except.bind, htype, hstart, hend]
    by_cases hknown : getSignatureSize (typeOf d) = 0
    · rw [if_pos hknown]
      exact ⟨_, rfl, fun h => by cases h⟩
    · have hfits : d.length < bodyEnd (typeOf d) :=
        Nat.not_le.mp fun h => hbody ⟨by omega, hknown, h⟩
      rw [if_neg hknown, if_pos hfits]
      exact ⟨_, rfl, fun h => by cases h⟩

/-! ## The first of the bytes -/

/-- A body that is in the first bytes. -/
theorem HoldsBody.of_take {n : Nat} (h : HoldsBody (d.take n)) :
    HoldsBody d ∧ typeOf (d.take n) = typeOf d ∧ bodyOf (d.take n) = bodyOf d := by
  obtain ⟨hword, hknown, hfits⟩ := h
  rw [List.length_take] at hword hfits
  have htype : typeOf (d.take n) = typeOf d := by
    rw [typeOf, bytesAt_take (by omega), typeOf]
  rw [htype] at hknown hfits
  refine ⟨⟨by omega, hknown, by omega⟩, htype, ?_⟩
  rw [bodyOf, htype, bytesAt_take (by rw [← bodyEnd]; omega), bodyOf]

theorem HoldsBody.endOf_take {n : Nat} (h : HoldsBody (d.take n)) : endOf (d.take n) = endOf d := by
  rw [endOf, endOf, h.of_take.2.1, h.of_take.2.2]

/-- Chunks that are in the first bytes. -/
theorem HoldsChunks.of_take {n : Nat} (h : HoldsChunks (d.take n)) :
    HoldsChunks d ∧ ∀ t, loaded t (d.take n) = loaded t d := by
  obtain ⟨hbody, hfits⟩ := h
  obtain ⟨hbody', htype, hbodyOf⟩ := hbody.of_take
  have hsigned := hbody.2.2
  rw [hbody.endOf_take, List.length_take] at hfits
  rw [htype, List.length_take] at hsigned
  refine ⟨⟨hbody', by omega⟩, fun t => ?_⟩
  have hlow := Ticket.getSignatureSize_add_four_le (typeOf d)
  have hchunks : chunksOf (d.take n) = chunksOf d := by
    rw [chunksOf, chunksOf, htype, hbodyOf]
    refine List.map_congr_left fun i hi => ?_
    have hi := List.mem_range.mp hi
    have hle : (i + 1) * bytes ≤ contentCount (bodyOf d) * bytes :=
      Nat.mul_le_mul_right _ hi
    rw [Nat.add_one_mul] at hle
    rw [endOf] at hfits
    rw [bytesAt_take (by omega)]
  rw [loaded, htype, hbodyOf, hchunks, loaded, bytesAt_take (by rw [bodyEnd] at hsigned; omega)]

theorem statusOf_eq_success : statusOf d = .success ↔ HoldsChunks d := by
  rw [statusOf]
  split_ifs with hbody hchunks
  · exact iff_of_true rfl hchunks
  · exact iff_of_false (by simp) hchunks
  · exact iff_of_false (by simp) fun h => hbody h.1

theorem statusOf_eq_error : statusOf d = .error ↔ ¬HoldsBody d := by
  rw [statusOf]
  split_ifs with hbody hchunks
  · exact iff_of_false (by simp) (not_not.mpr hbody)
  · exact iff_of_false (by simp) (not_not.mpr hbody)
  · exact iff_of_true rfl hbody

/-- The first bytes are loaded as a success only if the bytes are. -/
theorem statusOf_take_success {n : Nat} (h : statusOf (d.take n) = .success) :
    statusOf d = .success ∧ ∀ t, loaded t (d.take n) = loaded t d := by
  have hchunks := (statusOf_eq_success.mp h).of_take
  exact ⟨statusOf_eq_success.mpr hchunks.1, hchunks.2⟩

/-- Bytes without a body have none in the first of them. -/
theorem statusOf_take_error (n : Nat) (h : statusOf d = .error) :
    statusOf (d.take n) = .error :=
  statusOf_eq_error.mpr fun hbody => statusOf_eq_error.mp h hbody.of_take.1

end TitleMetadata

end GbaStation.FileSys
