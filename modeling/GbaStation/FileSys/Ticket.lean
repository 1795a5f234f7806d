import GbaStation.FileSys.IpsPatch

/-!
# Tickets (`core/file_sys/ticket.cpp`)

A ticket is a signature, a body at the next multiple of `0x40`, and a content index, whose second
word is its size. The content index says which contents the ticket has rights to.

- `ticket_iff`: which offsets are inside of the file, which tickets are restored from their bytes,
  and which content indices are read inside of their bytes.
-/

namespace GbaStation.FileSys

open List (replicate length_replicate length_append)

/-- `Common::AlignUp`. -/
def alignUp (value size : Nat) : Nat :=
  let mod := value % size
  if mod = 0 then value - mod else value - mod + size

/-- The bytes of a `u32_be`. -/
def wordBytes (w : BitVec 32) : List Byte :=
  [w.extractLsb' 24 8, w.extractLsb' 16 8, w.extractLsb' 8 8, w.extractLsb' 0 8]

/-- `GetSignatureSize`. -/
def getSignatureSize (signatureType : BitVec 32) : Nat :=
  if signatureType = 0x10000 ∨ signatureType = 0x10003 then 0x200
  else if signatureType = 0x10001 ∨ signatureType = 0x10004 then 0x100
  else if signatureType = 0x10002 ∨ signatureType = 0x10005 then 0x3C
  else 0

/-! ## The content index -/

/-- `RightsField`. -/
structure RightsField where
  startIndex : Nat
  rights : List Byte
  length_rights : rights.length = 0x80

/-- `ContentIndex`. It has a parent, which is used for messages only. -/
structure ContentIndex where
  initialized : Bool
  contentIndex : List Byte
  rights : List RightsField

namespace ContentIndex

/-- A `u16_be` or `u32_be` in the content index. -/
def readField (data : List Byte) (offset size : Nat) : Except Fault Nat :=
  (readAt data offset size).map bigEndian

/-- A turn of the inner loop of `Initialize`. The offset of a field is a product of words. -/
def pushField (data : List Byte) (header entrySize : Nat) (rights : List RightsField) (j : Nat) :
    Except Fault (List RightsField) := do
  let dataOffset ← readField data header 4
  let field ← readAt data (dataOffset + entrySize * j % 2 ^ 32) 0x84
  if h : (field.drop 4).length = 0x80 then
    .ok (rights ++ [⟨bigEndian ((field.drop 2).take 2), field.drop 4, h⟩])
  else .error .unreachable

/-- A turn of the outer loop of `Initialize`. -/
def pushFields (data : List Byte) (rights : List RightsField) (header : Nat) :
    Except Fault (List RightsField) := do
  let type ← readField data (header + 16) 2
  if type ≠ 3 then .ok rights else
  let entrySize ← readField data (header + 8) 4
  if entrySize ≠ 0x84 then .ok rights else
  let entryCount ← readField data (header + 4) 4
  (List.range entryCount).foldlM (pushField data header entrySize) rights

/-- `Initialize`. -/
def initializeRights (c : ContentIndex) : Except Fault ContentIndex :=
  if c.initialized then .ok c
  else if c.contentIndex.length < 0x14 then .ok c
  else do
  let always1 ← readField c.contentIndex 0 2
  let headerSize ← readField c.contentIndex 2 2
  let contextIndexSize ← readField c.contentIndex 4 4
  let indexHeaderSize ← readField c.contentIndex 14 2
  if always1 ≠ 1 ∨ headerSize ≠ 0x14 ∨ contextIndexSize ≠ c.contentIndex.length ∨
      indexHeaderSize ≠ 0x14 then .ok c else
  let indexHeadersOffset ← readField c.contentIndex 8 4
  let indexHeadersCount ← readField c.contentIndex 12 2
  let rights ← (List.range indexHeadersCount).foldlM
    (fun rights i =>
      pushFields c.contentIndex rights (indexHeadersOffset + indexHeaderSize * i % 2 ^ 32)) c.rights
  .ok { c with initialized := true, rights }

/-- The loop of `HasRights`. -/
def searchRights (contentIndex : Nat) : List RightsField → Except Fault Bool
  | [] => .ok false
  | field :: fields =>
    if contentIndex < field.startIndex then .ok false
    else
      let bitPos := contentIndex - field.startIndex
      if 1024 ≤ bitPos then searchRights contentIndex fields
      else do
      let byte ← byteAt field.rights (bitPos / 8)
      if byte.getLsbD (bitPos % 8) then .ok true else searchRights contentIndex fields

/-- `HasRights`. -/
def hasRights (c : ContentIndex) (contentIndex : Nat) : Except Fault (Bool × ContentIndex) := do
  let c ← c.initializeRights
  if ¬c.initialized then .ok (false, c)
  else if c.rights.isEmpty then .ok (contentIndex < 256, c)
  else
    let found ← searchRights contentIndex c.rights
    .ok (found, c)

end ContentIndex

/-! ## Tickets -/

/-- The size of a `Body`. -/
def bodySize : Nat := 0x164

structure Ticket where
  signatureType : BitVec 32
  signature : List Byte
  body : List Byte
  contentIndex : ContentIndex
  serializedSize : Nat

/-- `Loader::ResultStatus`, the values that tickets, title metadata and CIAs are loaded with. -/
inductive LoadStatus where
  | success
  | error
  | errorInvalidFormat
deriving DecidableEq, Repr

namespace Ticket

/-- `Load` of a file. What was read before an error stays. -/
def load (t : Ticket) (data : List Byte) (offset : Nat) : Except Fault (LoadStatus × Ticket) :=
  let totalSize := sizeSub data.length offset
  let t := { t with serializedSize := totalSize }
  if totalSize < 4 then .ok (.error, t) else do
  let signatureType := .ofNat 32 (bigEndian (← readAt data offset 4))
  let t := { t with signatureType }
  let signatureSize := getSignatureSize signatureType
  if signatureSize = 0 then .ok (.error, t) else
  let bodyStart := alignUp (signatureSize + 4) 0x40
  let bodyEnd := bodyStart + bodySize
  if totalSize < bodyEnd then .ok (.error, t) else
  let signature ← readAt data (offset + 4) signatureSize
  let body ← readAt data (offset + bodyStart) bodySize
  let t := { t with signature, body }
  if totalSize < bodyEnd + 8 then .ok (.error, t) else
  let contentIndexSize := bigEndian (← readAt data (offset + bodyEnd + 4) 4)
  if totalSize < bodyEnd + contentIndexSize then .ok (.error, t) else
  let contentIndex ← readAt data (offset + bodyEnd) contentIndexSize
  .ok (.success, { t with contentIndex := { t.contentIndex with contentIndex } })

/-- `Serialize`. -/
def serialize (t : Ticket) : List Byte :=
  let ret := wordBytes t.signatureType ++ t.signature
  let padding := 0x40 - ret.length % 0x40
  ret ++ (replicate padding 0 ++ (t.body ++ t.contentIndex.contentIndex))

/-! ## Loading -/

/-- Where the body of a type begins. -/
def bodyStart (signatureType : BitVec 32) : Nat := alignUp (getSignatureSize signatureType + 4) 0x40

def bodyEnd (signatureType : BitVec 32) : Nat := bodyStart signatureType + bodySize

/-- The size of the content index behind a body. -/
def contentIndexSize (d : List Byte) (signatureType : BitVec 32) : Nat :=
  bigEndian (bytesAt d (bodyEnd signatureType + 4) 4)

/-- A ticket is in the first of the bytes. -/
structure Parses (d : List Byte) (t : Ticket) : Prop where
  type : t.signatureType = .ofNat 32 (bigEndian (bytesAt d 0 4))
  known : getSignatureSize t.signatureType ≠ 0
  signature : t.signature = bytesAt d 4 (getSignatureSize t.signatureType)
  body : t.body = bytesAt d (bodyStart t.signatureType) bodySize
  header : bodyEnd t.signatureType + 8 ≤ d.length
  fits : bodyEnd t.signatureType + contentIndexSize d t.signatureType ≤ d.length
  contentIndex : t.contentIndex.contentIndex =
    bytesAt d (bodyEnd t.signatureType) (contentIndexSize d t.signatureType)

variable {t t' : Ticket} {data d : List Byte} {offset : Nat}

theorem getSignatureSize_add_four_le (signatureType : BitVec 32) :
    getSignatureSize signatureType + 4 ≤ bodyStart signatureType := by
  rw [bodyStart, alignUp]
  split_ifs <;> omega

/-- What is behind a place in the file, and how it is read from there. -/
theorem reads_drop (hoffset : offset ≤ data.length) :
    sizeSub data.length offset = (data.drop offset).length ∧
      (∀ k size, k + size ≤ (data.drop offset).length →
        readAt data (offset + k) size = .ok (bytesAt (data.drop offset) k size)) ∧
      (4 ≤ (data.drop offset).length →
        readAt data offset 4 = .ok (bytesAt (data.drop offset) 0 4)) := by
  have hread : ∀ k size, k + size ≤ (data.drop offset).length →
      readAt data (offset + k) size = .ok (bytesAt (data.drop offset) k size) := by
    intro k size h
    rw [List.length_drop] at h
    rw [readAt_inside (by omega), bytesAt, bytesAt, List.drop_drop]
  refine ⟨?_, hread, fun h => hread 0 4 (by omega)⟩
  rw [sizeSub, if_pos hoffset, List.length_drop]

/-- A ticket that is loaded from a place in the file. -/
theorem load_inside (t : Ticket) (hoffset : offset ≤ data.length) :
    ∃ r, t.load data offset = .ok r ∧ r.1 ≠ .errorInvalidFormat ∧ ∀ t', r = (.success, t') ↔
      Parses (data.drop offset) t' ∧
        t'.contentIndex.initialized = t.contentIndex.initialized ∧
        t'.contentIndex.rights = t.contentIndex.rights ∧
        t'.serializedSize = (data.drop offset).length := by
  obtain ⟨htotal, hread, hfirst⟩ := reads_drop hoffset
  rw [load, htotal]
  generalize data.drop offset = d at *
  by_cases hword : d.length < 4
  · rw [if_pos hword]
    refine ⟨_, rfl, LoadStatus.noConfusion,
      fun t' => iff_of_false (fun h => by cases h) fun h => ?_⟩
    have hheader := h.1.header
    omega
  rw [if_neg hword, hfirst (by omega)]
  simp only [bind, Except.bind]
  generalize htype : BitVec.ofNat 32 (bigEndian (bytesAt d 0 4)) = type
  have hstart : alignUp (getSignatureSize type + 4) 0x40 = bodyStart type := rfl
  have hend : bodyStart type + bodySize = bodyEnd type := rfl
  have hlow := getSignatureSize_add_four_le type
  -- the type of a ticket that parses is the one that was read
  have hparses : ∀ {t'}, Parses d t' → t'.signatureType = type := fun h => h.type.trans htype
  simp only [hstart, hend]
  by_cases hknown : getSignatureSize type = 0
  · rw [if_pos hknown]
    refine ⟨_, rfl, LoadStatus.noConfusion,
      fun t' => iff_of_false (fun h => by cases h) fun h => h.1.known ?_⟩
    rw [hparses h.1, hknown]
  rw [if_neg hknown]
  by_cases hbody : d.length < bodyEnd type
  · rw [if_pos hbody]
    refine ⟨_, rfl, LoadStatus.noConfusion,
      fun t' => iff_of_false (fun h => by cases h) fun h => ?_⟩
    have hheader := h.1.header
    rw [hparses h.1] at hheader
    omega
  simp only [if_neg hbody, hread 4 (getSignatureSize type) (by omega),
    hread (bodyStart type) bodySize (by omega)]
  by_cases hheader : d.length < bodyEnd type + 8
  · rw [if_pos hheader]
    refine ⟨_, rfl, LoadStatus.noConfusion,
      fun t' => iff_of_false (fun h => by cases h) fun h => ?_⟩
    have hheader' := h.1.header
    rw [hparses h.1] at hheader'
    omega
  have hsize : bigEndian (bytesAt d (bodyEnd type + 4) 4) = contentIndexSize d type := rfl
  simp only [if_neg hheader, Nat.add_assoc offset, hread (bodyEnd type + 4) 4 (by omega), hsize]
  by_cases hfits : d.length < bodyEnd type + contentIndexSize d type
  · rw [if_pos hfits]
    refine ⟨_, rfl, LoadStatus.noConfusion,
      fun t' => iff_of_false (fun h => by cases h) fun h => ?_⟩
    have hfits' := h.1.fits
    rw [hparses h.1] at hfits'
    omega
  rw [if_neg hfits, hread (bodyEnd type) _ (by omega)]
  refine ⟨_, rfl, LoadStatus.noConfusion, fun t' => ?_⟩
  constructor
  · intro h
    cases h
    exact ⟨⟨htype.symm, hknown, rfl, rfl, Nat.not_lt.mp hheader, Nat.not_lt.mp hfits, rfl⟩,
      rfl, rfl, rfl⟩
  · rintro ⟨h, hinitialized, hrights, htotal⟩
    obtain ⟨signatureType, signature, body, ⟨initialized, contentIndex, rights⟩, total⟩ := t'
    have hsame : signatureType = type := hparses h
    have hsignature : signature = _ := h.signature
    have hbody' : body = _ := h.body
    have hcontent : contentIndex = _ := h.contentIndex
    have hinitialized : initialized = _ := hinitialized
    have hrights : rights = _ := hrights
    have htotal : total = _ := htotal
    rw [hsignature, hbody', hcontent, hinitialized, hrights, hsame, htotal]

/-- Load reads inside of the file, unless the offset is behind it and what is left wraps around. -/
theorem safe_load_iff (t : Ticket) (data : List Byte) (offset : Nat) :
    Safe (t.load data offset) ↔ offset ≤ data.length ∨ data.length + 2 ^ 64 - offset < 4 := by
  by_cases hoffset : offset ≤ data.length
  · obtain ⟨r, hr, -⟩ := load_inside t hoffset
    exact iff_of_true ⟨r, hr⟩ (.inl hoffset)
  · rw [load, sizeSub, if_neg hoffset, or_iff_right hoffset]
    by_cases hsmall : data.length + 2 ^ 64 - offset < 4
    · exact iff_of_true ⟨_, if_pos hsmall⟩ hsmall
    · rw [if_neg hsmall, readAt_outside (by omega)]
      exact iff_of_false (safe_error _).mp hsmall

/-- What a successful load leaves. -/
theorem load_success_iff :
    t.load data offset = .ok (.success, t') ↔
      offset ≤ data.length ∧ Parses (data.drop offset) t' ∧
        t'.contentIndex.initialized = t.contentIndex.initialized ∧
        t'.contentIndex.rights = t.contentIndex.rights ∧
        t'.serializedSize = (data.drop offset).length := by
  by_cases hoffset : offset ≤ data.length
  · obtain ⟨r, hr, -, hsuccess⟩ := load_inside t hoffset
    rw [hr, Except.ok.injEq, hsuccess, and_iff_right hoffset]
  · refine iff_of_false (fun h => ?_) fun h => hoffset h.1
    have hsmall := ((safe_load_iff t data offset).mp ⟨_, h⟩).resolve_left hoffset
    rw [load, sizeSub, if_neg hoffset, if_pos hsmall] at h
    cases h

/-- The type of a signature. -/
def typeOf (d : List Byte) : BitVec 32 := .ofNat 32 (bigEndian (bytesAt d 0 4))

/-- A ticket is in the bytes. -/
def Holds (d : List Byte) : Prop :=
  getSignatureSize (typeOf d) ≠ 0 ∧ bodyEnd (typeOf d) + 8 ≤ d.length ∧
    bodyEnd (typeOf d) + contentIndexSize d (typeOf d) ≤ d.length

instance (d : List Byte) : Decidable (Holds d) :=
  inferInstanceAs (Decidable (getSignatureSize (typeOf d) ≠ 0 ∧
    bodyEnd (typeOf d) + 8 ≤ d.length ∧
    bodyEnd (typeOf d) + contentIndexSize d (typeOf d) ≤ d.length))

/-- How bytes are loaded. -/
def statusOf (d : List Byte) : LoadStatus := if Holds d then .success else .error

/-- What is loaded. -/
def loaded (t : Ticket) (d : List Byte) : Ticket where
  signatureType := typeOf d
  signature := bytesAt d 4 (getSignatureSize (typeOf d))
  body := bytesAt d (bodyStart (typeOf d)) bodySize
  contentIndex :=
    { t.contentIndex with
      contentIndex := bytesAt d (bodyEnd (typeOf d)) (contentIndexSize d (typeOf d)) }
  serializedSize := d.length

/-- A ticket, with no look at how many bytes it was loaded from. -/
def withoutSize (t : Ticket) : Ticket := { t with serializedSize := 0 }

/-- A ticket that is in the first bytes. -/
theorem Holds.of_take {n : Nat} (h : Holds (d.take n)) :
    Holds d ∧ ∀ t, (loaded t (d.take n)).withoutSize = (loaded t d).withoutSize := by
  obtain ⟨hknown, hheader, hfits⟩ := h
  rw [List.length_take] at hheader hfits
  have htype : typeOf (d.take n) = typeOf d := by
    rw [typeOf, bytesAt_take (by omega), typeOf]
  rw [htype] at hknown hheader hfits
  have hsize : contentIndexSize (d.take n) (typeOf d) = contentIndexSize d (typeOf d) := by
    rw [contentIndexSize, bytesAt_take (by omega), contentIndexSize]
  rw [hsize] at hfits
  have hlow := getSignatureSize_add_four_le (typeOf d)
  have hend : bodyEnd (typeOf d) = bodyStart (typeOf d) + bodySize := rfl
  refine ⟨⟨hknown, by omega, by omega⟩, fun t => ?_⟩
  rw [loaded, htype, hsize, bytesAt_take (by omega), bytesAt_take (by omega),
    bytesAt_take (by omega)]
  rfl

theorem statusOf_eq_success : statusOf d = .success ↔ Holds d := by
  rw [statusOf]
  split_ifs with hholds
  · exact iff_of_true rfl hholds
  · exact iff_of_false (by simp) hholds

/-- The first bytes are loaded as a success only if the bytes are. -/
theorem statusOf_take_success {n : Nat} (h : statusOf (d.take n) = .success) :
    statusOf d = .success ∧ ∀ t, (loaded t (d.take n)).withoutSize = (loaded t d).withoutSize := by
  have hholds := (statusOf_eq_success.mp h).of_take
  exact ⟨statusOf_eq_success.mpr hholds.1, hholds.2⟩

/-- How a ticket is loaded from a place in the file. -/
theorem load_status (t : Ticket) (hoffset : offset ≤ data.length) :
    ∃ t', t.load data offset = .ok (statusOf (data.drop offset), t') ∧
      (statusOf (data.drop offset) = .success → t' = t.loaded (data.drop offset)) := by
  obtain ⟨⟨status, t'⟩, hload, hformat, hsuccess⟩ := load_inside t hoffset
  rw [hload, statusOf]
  by_cases hholds : Holds (data.drop offset)
  · have hparses : Parses (data.drop offset) (t.loaded (data.drop offset)) :=
      ⟨rfl, hholds.1, rfl, rfl, hholds.2.1, hholds.2.2, rfl⟩
    cases (hsuccess _).mpr ⟨hparses, rfl, rfl, rfl⟩
    exact ⟨_, by rw [if_pos hholds], fun _ => rfl⟩
  · rw [if_neg hholds]
    cases status with
    | success =>
      obtain ⟨h, -⟩ := (hsuccess t').mp rfl
      have htype : t'.signatureType = typeOf (data.drop offset) := h.type
      exact absurd ⟨htype ▸ h.known, htype ▸ h.header, htype ▸ h.fits⟩ hholds
    | error => exact ⟨_, rfl, fun h => by cases h⟩
    | errorInvalidFormat => exact absurd rfl hformat

/-! ## Restoring a ticket -/

/-- The fields that a file has. -/
structure SameFields (t t' : Ticket) : Prop where
  signatureType : t'.signatureType = t.signatureType
  signature : t'.signature = t.signature
  body : t'.body = t.body
  contentIndex : t'.contentIndex.contentIndex = t.contentIndex.contentIndex

/-- What was serialized is loaded as the same ticket. -/
def RoundTrips (t : Ticket) : Prop :=
  ∀ t₀ : Ticket, ∃ t', t₀.load t.serialize 0 = .ok (.success, t') ∧ t.SameFields t'

/-- The types of signatures on elliptic curves, which end at a multiple of `0x40`. -/
def IsElliptic (t : Ticket) : Prop := t.signatureType = 0x10002 ∨ t.signatureType = 0x10005

instance (t : Ticket) : Decidable t.IsElliptic :=
  inferInstanceAs (Decidable (t.signatureType = 0x10002 ∨ t.signatureType = 0x10005))

/-- The second word of the content index is there; behind an elliptic signature there are zeros. -/
def Restorable (t : Ticket) : Prop :=
  (¬t.IsElliptic ∧ 8 ≤ t.contentIndex.contentIndex.length) ∨
  (t.IsElliptic ∧ t.body = replicate bodySize 0 ∧ t.contentIndex.contentIndex = [])

theorem SameFields.parses (h : t.SameFields t') : Parses d t' ↔ Parses d t := by
  obtain ⟨signatureType, signature, body, ⟨initialized, contentIndex, rights⟩, total⟩ := t
  obtain ⟨rfl, rfl, rfl, rfl⟩ := h
  exact ⟨fun ⟨h₁, h₂, h₃, h₄, h₅, h₆, h₇⟩ => ⟨h₁, h₂, h₃, h₄, h₅, h₆, h₇⟩,
    fun ⟨h₁, h₂, h₃, h₄, h₅, h₆, h₇⟩ => ⟨h₁, h₂, h₃, h₄, h₅, h₆, h₇⟩⟩

theorem roundTrips_iff_parses : t.RoundTrips ↔ Parses t.serialize t := by
  constructor
  · intro h
    obtain ⟨t', hload, hsame⟩ := h t
    exact hsame.parses.mp (load_success_iff.mp hload).2.1
  · intro h t₀
    have hsame : t.SameFields { t with
        contentIndex := { t₀.contentIndex with contentIndex := t.contentIndex.contentIndex }
        serializedSize := t.serialize.length } := ⟨rfl, rfl, rfl, rfl⟩
    exact ⟨_, load_success_iff.mpr ⟨Nat.zero_le _, hsame.parses.mpr h, rfl, rfl, rfl⟩, hsame⟩

theorem ofNat_bigEndian_wordBytes (w : BitVec 32) :
    BitVec.ofNat 32 (bigEndian (wordBytes w)) = w := by
  apply BitVec.eq_of_toNat_eq
  simp only [bigEndian, wordBytes, List.reverse_cons, List.reverse_nil, List.nil_append,
    List.cons_append, littleEndian, BitVec.extractLsb'_toNat, Nat.shiftRight_eq_div_pow,
    BitVec.toNat_ofNat]
  omega

/-- The sizes of the signatures that there are. -/
theorem getSignatureSize_cases (h : getSignatureSize t.signatureType ≠ 0) :
    (t.IsElliptic ∧ getSignatureSize t.signatureType = 0x3C) ∨
    (¬t.IsElliptic ∧ (getSignatureSize t.signatureType = 0x100 ∨
      getSignatureSize t.signatureType = 0x200)) := by
  obtain ⟨type, _, _, _, _⟩ := t
  simp only [getSignatureSize, IsElliptic] at *
  split_ifs at * with h₁ h₂ h₃
  · refine .inr ⟨?_, .inr rfl⟩
    rcases h₁ with rfl | rfl <;> decide
  · refine .inr ⟨?_, .inl rfl⟩
    rcases h₂ with rfl | rfl <;> decide
  · exact .inl ⟨h₃, rfl⟩
  · exact absurd rfl h

/-- What is read behind a beginning. -/
theorem bytesAt_append_add {xs ys : List Byte} {n k size : Nat} (h : xs.length = n) :
    bytesAt (xs ++ ys) (n + k) size = bytesAt ys k size := by
  subst h
  rw [bytesAt, ← List.drop_drop, List.drop_left, bytesAt]

/-- A list that is moved into itself has zeros only. -/
theorem eq_replicate_of_shift {l : List Byte} {n k : Nat} (hlength : l.length = n) (hk : 0 < k)
    (h : l = replicate k 0 ++ l.take (n - k)) : l = replicate n 0 := by
  have hzero : ∀ i, (hi : i < l.length) → l[i] = 0 := by
    intro i
    induction i using Nat.strong_induction_on with
    | _ i ih =>
      intro hi
      have hget : l[i]? = (replicate k 0 ++ l.take (n - k))[i]? := congrArg (·[i]?) h
      by_cases hik : i < k
      · rw [List.getElem?_append_left (by simpa using hik), List.getElem?_replicate_of_lt hik,
          List.getElem?_eq_getElem hi] at hget
        exact Option.some.inj hget
      · rw [List.getElem?_append_right (by simpa using hik), length_replicate,
          List.getElem?_take_of_lt (by omega), List.getElem?_eq_getElem hi,
          List.getElem?_eq_getElem (by omega)] at hget
        rw [Option.some.inj hget]
        exact ih (i - k) (by omega) (by omega)
  refine List.eq_replicate_iff.mpr ⟨hlength, fun b hb => ?_⟩
  obtain ⟨i, hi, rfl⟩ := List.mem_iff_getElem.mp hb
  exact hzero i hi

/-- What is in front of the body, without the zeros. -/
theorem Parses.length_prefix (h : Parses d t) :
    (wordBytes t.signatureType ++ t.signature).length = getSignatureSize t.signatureType + 4 := by
  have hheader := h.header
  have hlow := getSignatureSize_add_four_le t.signatureType
  rw [length_append, h.signature, length_bytesAt (by rw [bodyEnd] at hheader; omega)]
  exact Nat.add_comm _ _

theorem Parses.length_body (h : Parses d t) : t.body.length = bodySize := by
  have hheader := h.header
  rw [h.body, length_bytesAt (by rw [bodyEnd] at hheader; omega)]

theorem Parses.length_contentIndex (h : Parses d t) :
    t.contentIndex.contentIndex.length = contentIndexSize d t.signatureType := by
  rw [h.contentIndex, length_bytesAt h.fits]

/-- The type and the signature are where they are read. -/
theorem Parses.serialize_iff (h : Parses d t) :
    Parses t.serialize t ↔
      t.body = bytesAt t.serialize (bodyStart t.signatureType) bodySize ∧
      bodyEnd t.signatureType + 8 ≤ t.serialize.length ∧
      bodyEnd t.signatureType + contentIndexSize t.serialize t.signatureType ≤ t.serialize.length ∧
      t.contentIndex.contentIndex = bytesAt t.serialize (bodyEnd t.signatureType)
        (contentIndexSize t.serialize t.signatureType) := by
  have hlength := h.length_prefix
  rw [length_append] at hlength
  have htype : bytesAt t.serialize 0 4 = wordBytes t.signatureType := by
    rfl
  have hsignature : bytesAt t.serialize 4 (getSignatureSize t.signatureType) = t.signature := by
    have hword : (wordBytes t.signatureType).length = 4 := rfl
    rw [serialize, List.append_assoc]
    exact bytesAt_prefix hword (by omega)
  constructor
  · exact fun h' => ⟨h'.body, h'.header, h'.fits, h'.contentIndex⟩
  · rintro ⟨hbody, hheader, hfits, hcontent⟩
    refine ⟨?_, h.known, hsignature.symm, hbody, hheader, hfits, hcontent⟩
    rw [htype, ofNat_bigEndian_wordBytes]

/-- Behind a signature that is padded, the body is where it is read. -/
theorem Parses.serialize_padded (h : Parses d t) (hsize : getSignatureSize t.signatureType = 0x100 ∨
    getSignatureSize t.signatureType = 0x200) :
    Parses t.serialize t ↔ 8 ≤ t.contentIndex.contentIndex.length := by
  have hsigned := h.length_prefix
  have hbody := h.length_body
  have hcontent := h.length_contentIndex
  obtain ⟨pre, hpre, hserialize⟩ : ∃ pre : List Byte, pre.length = bodyStart t.signatureType ∧
      t.serialize = pre ++ (t.body ++ t.contentIndex.contentIndex) := by
    refine ⟨_, ?_, (List.append_assoc _ _ _).symm⟩
    rw [length_append, length_replicate, hsigned, bodyStart]
    rcases hsize with hsize | hsize <;> rw [hsize] <;> rfl
  have hlength : t.serialize.length =
      bodyEnd t.signatureType + t.contentIndex.contentIndex.length := by
    rw [hserialize, length_append, length_append, hpre, hbody, bodyEnd, Nat.add_assoc]
  have hbehind : ∀ k size, bytesAt t.serialize (bodyEnd t.signatureType + k) size =
      bytesAt t.contentIndex.contentIndex k size := by
    intro k size
    rw [hserialize, bodyEnd, Nat.add_assoc, bytesAt_append_add hpre, bytesAt_append_add hbody]
  rw [h.serialize_iff, hlength]
  constructor
  · rintro ⟨-, hheader, -⟩
    omega
  · intro hheader
    -- the size is in the first two words of the content index
    have hfield : contentIndexSize t.serialize t.signatureType =
        t.contentIndex.contentIndex.length := by
      have hheader' : bytesAt t.contentIndex.contentIndex 4 4 =
          bytesAt d (bodyEnd t.signatureType + 4) 4 := by
        rw [h.contentIndex, ← hcontent]
        simp only [bytesAt]
        rw [List.drop_take, List.drop_drop, List.take_take]
        congr 1
        omega
      rw [contentIndexSize, hbehind, hheader', hcontent, contentIndexSize]
    rw [hfield]
    refine ⟨?_, by omega, Nat.le_refl _, ?_⟩
    · rw [hserialize, bytesAt_prefix hpre hbody]
    · have hall := hbehind 0 t.contentIndex.contentIndex.length
      rw [Nat.add_zero] at hall
      rw [hall, bytesAt, List.drop_zero, List.take_length]

/-- Behind a signature that ends at a multiple of `0x40`, the body is moved. -/
theorem Parses.serialize_moved (h : Parses d t) (hsize : getSignatureSize t.signatureType = 0x3C) :
    Parses t.serialize t ↔
      t.body = replicate bodySize 0 ∧ t.contentIndex.contentIndex = [] := by
  have hsigned := h.length_prefix
  have hbody := h.length_body
  have hstart : bodyStart t.signatureType = 0x40 := by
    rw [bodyStart, hsize]
    rfl
  have hserialize : t.serialize = (wordBytes t.signatureType ++ t.signature) ++
      (replicate 0x40 0 ++ (t.body ++ t.contentIndex.contentIndex)) := by
    rw [serialize, hsigned, hsize]
  rw [hsize] at hsigned
  have hlength : t.serialize.length =
      0x80 + bodySize + t.contentIndex.contentIndex.length := by
    simp only [hserialize, length_append] at hsigned ⊢
    rw [hsigned, length_replicate, hbody]
    omega
  have hbehind : ∀ k size, bytesAt t.serialize (bodyStart t.signatureType + k) size =
      bytesAt (replicate 0x40 0 ++ (t.body ++ t.contentIndex.contentIndex)) k size := by
    intro k size
    rw [hserialize, hstart, bytesAt_append_add hsigned]
  -- the body that is read ends in the body that was written
  have hread : bytesAt t.serialize (bodyStart t.signatureType) bodySize =
      replicate 0x40 0 ++ t.body.take (bodySize - 0x40) := by
    have hall := hbehind 0 bodySize
    rw [Nat.add_zero] at hall
    rw [hall, bytesAt, List.drop_zero, List.take_append, List.take_of_length_le (by decide),
      length_replicate, List.take_append_of_le_length (by rw [hbody]; decide)]
  have hfield : t.body = replicate bodySize 0 →
      contentIndexSize t.serialize t.signatureType = 0 := by
    intro hzero
    rw [contentIndexSize, bodyEnd, Nat.add_assoc, hbehind, hzero, ← List.append_assoc,
      List.replicate_append_replicate, bytesAt,
      List.drop_append_of_le_length (by rw [length_replicate]; decide), List.drop_replicate,
      List.take_append_of_le_length (by rw [length_replicate]; decide), List.take_replicate]
    rfl
  rw [h.serialize_iff, hlength, hread]
  constructor
  · rintro ⟨hshift, -, -, hcontent⟩
    have hzero := eq_replicate_of_shift hbody (by decide) hshift
    refine ⟨hzero, ?_⟩
    rw [hcontent, hfield hzero]
    exact List.take_zero
  · rintro ⟨hzero, hcontent⟩
    rw [hfield hzero, hcontent, bodyEnd, hstart, hzero, List.take_replicate,
      List.replicate_append_replicate]
    exact ⟨rfl, by decide, by decide, List.take_zero.symm⟩

theorem Parses.restorable_iff (h : Parses d t) : t.RoundTrips ↔ t.Restorable := by
  rw [roundTrips_iff_parses, Restorable]
  rcases getSignatureSize_cases h.known with ⟨helliptic, hsize⟩ | ⟨hother, hsize⟩
  · rw [h.serialize_moved hsize, and_iff_right helliptic, or_iff_right fun h => h.1 helliptic]
  · rw [h.serialize_padded hsize, and_iff_right hother, or_iff_left fun h => hother h.1]

end Ticket

/-! ## Reading the rights -/

namespace ContentIndex

/-- The value of a `u16_be` or `u32_be`. -/
def field (data : List Byte) (offset size : Nat) : Nat := bigEndian (bytesAt data offset size)

/-- The header of a content index, with which its rights are read. -/
def HeaderExpected (data : List Byte) : Prop :=
  0x14 ≤ data.length ∧ field data 0 2 = 1 ∧ field data 2 2 = 0x14 ∧
    field data 4 4 = data.length ∧ field data 14 2 = 0x14

/-- An index header is inside of the content index, and so are its rights, where it has some. -/
def FieldsInside (data : List Byte) (header : Nat) : Prop :=
  header + 18 ≤ data.length ∧ (field data (header + 16) 2 = 3 → field data (header + 8) 4 = 0x84 →
    field data (header + 4) 4 = 0 ∨
      field data header 4 + 0x84 * field data (header + 4) 4 ≤ data.length)

/-- What is still to be read is inside of the content index. -/
def RightsInside (c : ContentIndex) : Prop :=
  c.initialized = true ∨ (HeaderExpected c.contentIndex → ∀ i < field c.contentIndex 12 2,
    FieldsInside c.contentIndex (field c.contentIndex 8 4 + 0x14 * i))

variable {c : ContentIndex} {data : List Byte}

theorem bigEndian_lt (bytes : List Byte) : bigEndian bytes < 256 ^ bytes.length := by
  have hlittle : ∀ bytes : List Byte, littleEndian bytes < 256 ^ bytes.length := by
    intro bytes
    induction bytes with
    | nil => exact Nat.one_pos
    | cons b bytes ih =>
      rw [littleEndian, List.length_cons, Nat.pow_succ]
      omega
  rw [bigEndian, ← List.length_reverse]
  exact hlittle _

theorem readField_bind {β : Type} {offset size : Nat} {f : Nat → Except Fault β} :
    Safe (readField data offset size >>= f) ↔
      offset + size ≤ data.length ∧ Safe (f (field data offset size)) := by
  rw [readField, readAt]
  split_ifs with h
  · exact ⟨fun hf => ⟨h, hf⟩, And.right⟩
  · exact iff_of_false (safe_error .read).mp fun hf => h hf.1

/-- The rights of an index header are behind each other, as a product that wraps around would be
outside. -/
theorem fields_inside_iff {offset n : Nat} (hsmall : data.length < 2 ^ 32) :
    (∀ j < n, offset + 0x84 * j % 2 ^ 32 + 0x84 ≤ data.length) ↔
      n = 0 ∨ offset + 0x84 * n ≤ data.length := by
  constructor
  · intro h
    refine or_iff_not_imp_left.mpr fun hn => ?_
    by_cases hwrap : 0x84 * (n - 1) < 2 ^ 32
    · have hlast := h (n - 1) (by omega)
      rw [Nat.mod_eq_of_lt hwrap] at hlast
      omega
    · have hedge := h ((2 ^ 32 - 1) / 0x84) (by omega)
      omega
  · intro h j hj
    have hle : 0x84 * j + 0x84 ≤ 0x84 * n := by omega
    rw [Nat.mod_eq_of_lt (by omega)]
    omega

theorem safe_pushField_iff (data : List Byte) (header entrySize : Nat)
    (rights : List RightsField) (j : Nat) :
    Safe (pushField data header entrySize rights j) ↔
      header + 4 ≤ data.length ∧
        field data header 4 + entrySize * j % 2 ^ 32 + 0x84 ≤ data.length := by
  rw [pushField, readField_bind, readAt_bind]
  refine and_congr_right fun _ => and_iff_left_of_imp fun h => ?_
  have hlength : ((bytesAt data (field data header 4 + entrySize * j % 2 ^ 32) 0x84).drop
      4).length = 0x80 := by
    rw [List.length_drop, length_bytesAt h]
  rw [dif_pos hlength]
  exact (safe_ok _).mpr trivial

theorem safe_pushFields_iff (hsmall : data.length < 2 ^ 32) (rights : List RightsField)
    (header : Nat) : Safe (pushFields data rights header) ↔ FieldsInside data header := by
  rw [pushFields, readField_bind, FieldsInside, Nat.add_assoc]
  refine and_congr_right fun hheader => ?_
  by_cases htype : field data (header + 16) 2 = 3
  · rw [if_neg (not_not.mpr htype), readField_bind, and_iff_right (by omega)]
    by_cases hsize : field data (header + 8) 4 = 0x84
    · rw [if_neg (not_not.mpr hsize), readField_bind, and_iff_right (by omega),
        safe_foldlM (safe_pushField_iff data header _)]
      simp only [List.mem_range, hsize, true_imp_iff, htype]
      rw [← fields_inside_iff hsmall]
      exact forall₂_congr fun j _ => and_iff_right (by omega)
    · rw [if_pos hsize]
      exact iff_of_true ((safe_ok _).mpr trivial) fun _ h => absurd h hsize
  · rw [if_pos htype]
    exact iff_of_true ((safe_ok _).mpr trivial) fun h => absurd h htype

/-- Rights are searched in the fields that were read. -/
theorem safe_searchRights (contentIndex : Nat) (fields : List RightsField) :
    Safe (searchRights contentIndex fields) := by
  induction fields with
  | nil => exact (safe_ok _).mpr trivial
  | cons field fields ih =>
    simp only [searchRights]
    split_ifs with hstart hbehind
    · exact (safe_ok _).mpr trivial
    · exact ih
    · have hbyte : (contentIndex - field.startIndex) / 8 < field.rights.length := by
        rw [field.length_rights]
        omega
      rw [byteAt_inside hbyte]
      refine safe_bind.mpr ⟨_, rfl, ?_⟩
      split_ifs
      · exact (safe_ok _).mpr trivial
      · exact ih

theorem safe_initializeRights_iff : Safe c.initializeRights ↔ c.RightsInside := by
  rw [initializeRights, RightsInside]
  by_cases hinitialized : c.initialized = true
  · rw [if_pos hinitialized]
    exact iff_of_true ((safe_ok _).mpr trivial) (.inl hinitialized)
  rw [if_neg hinitialized, or_iff_right hinitialized]
  by_cases hsmall : c.contentIndex.length < 0x14
  · rw [if_pos hsmall]
    exact iff_of_true ((safe_ok _).mpr trivial) fun h => absurd h.1 (by omega)
  rw [if_neg hsmall, readField_bind, and_iff_right (by omega), readField_bind,
    and_iff_right (by omega), readField_bind, and_iff_right (by omega), readField_bind,
    and_iff_right (by omega)]
  by_cases hexpected : HeaderExpected c.contentIndex
  · rw [imp_iff_right hexpected]
    obtain ⟨hlength, halways1, hheaderSize, hcontextSize, hindexSize⟩ := hexpected
    have hcount : field c.contentIndex 12 2 < 2 ^ 16 := by
      have hlt := bigEndian_lt (bytesAt c.contentIndex 12 2)
      rwa [length_bytesAt (by omega)] at hlt
    have hwords : c.contentIndex.length < 2 ^ 32 := by
      have hlt := bigEndian_lt (bytesAt c.contentIndex 4 4)
      rw [length_bytesAt (by omega)] at hlt
      exact hcontextSize ▸ hlt
    rw [if_neg (by simp [halways1, hheaderSize, hcontextSize, hindexSize]), readField_bind,
      and_iff_right (by omega), readField_bind, and_iff_right (by omega), safe_bind]
    simp only [safe_ok, and_true]
    have hturns := safe_foldlM (fun rights i => safe_pushFields_iff hwords rights
      (field c.contentIndex 8 4 + field c.contentIndex 14 2 * i % 2 ^ 32))
      (List.range (field c.contentIndex 12 2)) c.rights
    refine hturns.trans ?_
    simp only [List.mem_range, hindexSize]
    refine forall₂_congr fun i hi => ?_
    rw [Nat.mod_eq_of_lt (by omega)]
  · rw [if_pos]
    · exact iff_of_true ((safe_ok _).mpr trivial) fun h => absurd h hexpected
    · by_contra hnone
      simp only [not_or, not_not] at hnone
      exact hexpected ⟨by omega, hnone⟩

theorem safe_hasRights_iff (contentIndex : Nat) :
    Safe (c.hasRights contentIndex) ↔ c.RightsInside := by
  rw [hasRights, safe_bind, ← safe_initializeRights_iff]
  constructor
  · rintro ⟨c', hc', -⟩
    exact ⟨c', hc'⟩
  · rintro ⟨c', hc'⟩
    refine ⟨c', hc', ?_⟩
    by_cases hinitialized : c'.initialized = true
    · rw [if_neg (not_not.mpr hinitialized)]
      split_ifs
      · exact (safe_ok _).mpr trivial
      · obtain ⟨found, hfound⟩ := safe_searchRights contentIndex c'.rights
        exact safe_bind.mpr ⟨found, hfound, (safe_ok _).mpr trivial⟩
    · rw [if_pos hinitialized]
      exact (safe_ok _).mpr trivial

end ContentIndex

/-! ## Tickets and their rights -/

/-- Load reads inside of the file exactly if the offset is not behind it, but for the last three
offsets. A ticket that was loaded is restored exactly if its signature is not on an elliptic curve
and its content index has a size, or if there is nothing to be moved. Rights are read inside of the
content index exactly if its headers say so. -/
theorem ticket_iff (t : Ticket) (data : List Byte) (offset : Nat) (c : ContentIndex)
    (contentIndex : Nat) :
    (Safe (t.load data offset) ↔ offset ≤ data.length ∨ data.length + 2 ^ 64 - offset < 4) ∧
    (∀ t' : Ticket, t.load data offset = .ok (.success, t') → (t'.RoundTrips ↔ t'.Restorable)) ∧
    (Safe (c.hasRights contentIndex) ↔ c.RightsInside) :=
  ⟨t.safe_load_iff data offset,
    fun _ hload => (Ticket.load_success_iff.mp hload).2.1.restorable_iff,
    ContentIndex.safe_hasRights_iff contentIndex⟩

/-- A ticket with an RSA-2048 signature, and a content index that has a size only. -/
def shortTicket (size : Byte) : List Byte :=
  [0, 1, 0, 1] ++ (replicate 0x13C 0 ++
    (replicate 0x164 0 ++ [0, 0, 0, 0, 0, 0, 0, size]))

/-- What is loaded of it. -/
def shortTicketLoaded (size : Byte) : Ticket where
  signatureType := 0x10001
  signature := replicate 0x100 0
  body := replicate 0x164 0
  contentIndex := ⟨false, ([0, 0, 0, 0, 0, 0, 0, size] : List Byte).take size.toNat, []⟩
  serializedSize := 0x2AC

set_option maxRecDepth 8000 in
/-- A content index of eight bytes is restored. -/
theorem ticket_restored : (shortTicketLoaded 8).RoundTrips := by
  have hload : (shortTicketLoaded 0).load (shortTicket 8) 0 =
      .ok (.success, shortTicketLoaded 8) := by
    rfl
  exact ((ticket_iff _ _ _ ⟨false, [], []⟩ 0).2.1 _ hload).mpr (.inl ⟨by decide, by decide⟩)

/-- A content index with one header, which is behind it. -/
def headerBehind : List Byte :=
  [0, 1, 0, 0x14, 0, 0, 0, 0x14, 0, 0, 0, 0x14, 0, 1, 0, 0x14, 0, 0, 0, 0]

set_option maxRecDepth 8000 in
/-- An offset behind the file, a content index without a size, and one with a header outside. -/
theorem ticket_not_restored :
    ¬Safe ((shortTicketLoaded 0).load [] 1) ∧
    ((shortTicketLoaded 0).load (shortTicket 0) 0 = .ok (.success, shortTicketLoaded 0) ∧
      ¬(shortTicketLoaded 0).RoundTrips) ∧
    ¬Safe ((ContentIndex.mk false headerBehind []).hasRights 0) := by
  have hload : (shortTicketLoaded 0).load (shortTicket 0) 0 =
      .ok (.success, shortTicketLoaded 0) := by
    rfl
  refine ⟨?_, ⟨hload, ?_⟩, ?_⟩
  · rw [Ticket.safe_load_iff]
    decide
  · have hparses := (Ticket.load_success_iff.mp hload).2.1
    rw [hparses.restorable_iff]
    rintro (⟨-, hsize⟩ | ⟨helliptic, -⟩)
    · exact absurd hsize (by decide)
    · exact absurd helliptic (by decide)
  · rw [ContentIndex.safe_hasRights_iff]
    rintro (hinitialized | hinside)
    · exact absurd hinitialized (by decide)
    · have hfirst := hinside ⟨by decide, by decide, by decide, by decide, by decide⟩ 0 (by decide)
      exact absurd hfirst.1 (by decide)

end GbaStation.FileSys
