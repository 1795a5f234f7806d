import GbaStation.FileSys.CiaContainer

/-!
# The loaders of CIA containers (`core/file_sys/cia_container.cpp`)

A CIA can be loaded from bytes, from a file and from a backend. From bytes, a ticket and title
metadata may go on behind the size that the header has for them, and metadata is the first of the
bytes.
-/

namespace GbaStation.FileSys

/-! ## What the bytes have -/

namespace CIAHeader

variable (d : List Byte)

/-- The header of the bytes. -/
def of : CIAHeader := .ofBytes (bytesAt d 0 ciaHeaderSize)

/-- How a ticket is loaded that may go on to the end of the bytes. -/
def ticketStatus : LoadStatus := Ticket.statusOf (d.drop (of d).getTicketOffset)

/-- How it is loaded in its size. -/
def sizedTicketStatus : LoadStatus :=
  if d.length < (of d).getTicketOffset + (of d).tikSize.toNat then .error
  else Ticket.statusOf (bytesAt d (of d).getTicketOffset (of d).tikSize.toNat)

def tmdStatus : LoadStatus := TitleMetadata.statusOf (d.drop (of d).getTitleMetadataOffset)

def sizedTmdStatus : LoadStatus :=
  if d.length < (of d).getTitleMetadataOffset + (of d).tmdSize.toNat then .error
  else TitleMetadata.statusOf (bytesAt d (of d).getTitleMetadataOffset (of d).tmdSize.toNat)

/-- Where an icon is. -/
def smdhOffset : Nat := ((of d).getMetadataOffset + ciaMetadataSize) % 2 ^ 64

/-- There is to be an icon, and it is not inside of the bytes. -/
def SmdhMissing : Prop :=
  ciaMetadataSize + smdhSize ≤ (of d).metaSize.toNat ∧ d.length < smdhOffset d + smdhSize

/-- Metadata begins inside of the bytes, and ends outside. -/
def MetadataCut : Prop :=
  (of d).getMetadataOffset ≤ d.length ∧ d.length < (of d).getMetadataOffset + ciaMetadataSize

instance : Decidable (MetadataCut d) :=
  inferInstanceAs (Decidable ((of d).getMetadataOffset ≤ d.length ∧
    d.length < (of d).getMetadataOffset + ciaMetadataSize))

/-- The metadata of bytes cannot be loaded. -/
def MetaFails : Prop := (of d).metaSize ≠ 0 ∧ (MetadataCut d ∨ SmdhMissing d)

/-- Metadata is the same as the first of the bytes. -/
def MetadataFirst : Prop :=
  CIAMetadata.ofBytes (bytesAt d 0 ciaMetadataSize) =
    .ofBytes (bytesAt d (of d).getMetadataOffset ciaMetadataSize)

/-- A file that cannot seek to the metadata reads on behind the title metadata, to its icon. -/
def ReadsOn : Prop :=
  2 ^ 63 ≤ (of d).getMetadataOffset ∧ 2 ^ 63 ≤ smdhOffset d ∧
    (of d).getTitleMetadataOffset + (of d).tmdSize.toNat + ciaMetadataSize + smdhSize ≤ d.length

/-- The metadata is loaded in the same way, where tickets are the same, or not by any loader. -/
def MetaAgrees (same : Prop) : Prop :=
  ((of d).metaSize = 0 ∧ same) ∨ ((of d).metaSize ≠ 0 ∧ (MetadataCut d ∨
  ((of d).getMetadataOffset + ciaMetadataSize ≤ d.length ∧
    (SmdhMissing d ∨ (same ∧ MetadataFirst d))) ∨
  (d.length < (of d).getMetadataOffset ∧ SmdhMissing d ∧ ¬ReadsOn d)))

/-- From the title metadata on, bytes cannot be loaded for a reason that is an `Error`. -/
def TmdFails : Prop := tmdStatus d = .error ∨ (tmdStatus d = .success ∧ MetaFails d)

/-- The title metadata is loaded in the same way, or stops the loaders in the same way. -/
def TmdAgrees (metaAgrees : Prop) : Prop :=
  tmdStatus d = .error ∨
  (tmdStatus d = .errorInvalidFormat ∧ sizedTmdStatus d = .errorInvalidFormat) ∨
  (tmdStatus d = .success ∧ sizedTmdStatus d = .error ∧ MetaFails d) ∨
  (sizedTmdStatus d = .success ∧ metaAgrees)

/-- The sections that are reached begin inside of the bytes, and each of them is loaded in the same
way, or stops the loaders in the same way. -/
def SectionsAgree (metaAgrees : Prop) : Prop :=
  d.length < ciaHeaderSize ∨
  ((of d).getTicketOffset ≤ d.length ∧ (ticketStatus d ≠ .success ∨
    ((of d).getTitleMetadataOffset ≤ d.length ∧
      ((sizedTicketStatus d = .success ∧ TmdAgrees d metaAgrees) ∨
        (sizedTicketStatus d ≠ .success ∧ TmdFails d)))))

/-- The loaders do the same, but for the size of a ticket. -/
def ContentsAgree : Prop := SectionsAgree d (MetaAgrees d True)

/-- The loaders do the same: none of them gets to the end. -/
def LoadersAgree : Prop := SectionsAgree d (MetaAgrees d False)

end CIAHeader

/-! ## Agreement -/

def CIAContainer.withTicket (c : CIAContainer) (ticket : Ticket) : CIAContainer :=
  { c with ticket }

/-- Two loaders return the same status, and leave the same to the view if it is a success. -/
def Agree (view : Ticket → Ticket) (r r' : Except Fault (LoadStatus × CIAContainer)) : Prop :=
  ∃ status c c', r = .ok (status, c) ∧ r' = .ok (status, c') ∧
    (status = .success → c.withTicket (view c.ticket) = c'.withTicket (view c'.ticket))

variable {d : List Byte} {c c' : CIAContainer} {status status' : LoadStatus}
  {view : Ticket → Ticket} {r : Except Fault (LoadStatus × CIAContainer)}

@[simp] theorem agree_ok :
    Agree view (.ok (status, c)) (.ok (status', c')) ↔
      status = status' ∧
        (status = .success → c.withTicket (view c.ticket) = c'.withTicket (view c'.ticket)) := by
  constructor
  · rintro ⟨_, _, _, h, h', hsame⟩
    cases h
    cases h'
    exact ⟨rfl, hsame⟩
  · rintro ⟨rfl, hsame⟩
    exact ⟨_, _, _, rfl, rfl, hsame⟩

@[simp] theorem not_agree_error {e : Fault} : ¬Agree view (.error e) r := by
  rintro ⟨_, _, _, h, -⟩
  cases h

/-- What is left of an error is not compared. -/
theorem agree_error (hstatus : status ≠ .success) :
    Agree view r (.ok (status, c')) ↔ ∃ c, r = .ok (status, c) := by
  constructor
  · rintro ⟨_, c, _, hr, h, -⟩
    cases h
    exact ⟨c, hr⟩
  · rintro ⟨c, hr⟩
    exact ⟨status, c, c', hr, rfl, fun h => absurd h hstatus⟩

namespace CIAContainer

open CIAHeader

/-! ## Sections -/

theorem length_bytesAt_le (d : List Byte) (offset size : Nat) :
    (bytesAt d offset size).length = min size (d.length - offset) := by
  rw [bytesAt, List.length_take, List.length_drop]

/-- A section that is not empty. -/
theorem readSection_eq {offset size : Nat} (hsize : size ≠ 0) :
    readSection d offset size =
      if d.length < offset + size then none
      else some (bytesAt d offset size, 0, offset + size) := by
  simp only [readSection, length_bytesAt_le]
  split_ifs <;> first | rfl | omega

theorem loadSection_success {data : List Byte} {offset position : Nat}
    {load : List Byte → Nat → Except Fault (LoadStatus × CIAContainer)}
    {next : CIAContainer → Nat → Except Fault (LoadStatus × CIAContainer)}
    (hload : load data offset = .ok (.success, c')) :
    loadSection (some (data, offset, position)) c load next = next c' position := by
  rw [loadSection, hload]
  rfl

theorem loadSection_stop {data : List Byte} {offset position : Nat}
    {load : List Byte → Nat → Except Fault (LoadStatus × CIAContainer)}
    {next : CIAContainer → Nat → Except Fault (LoadStatus × CIAContainer)}
    (hload : load data offset = .ok (status, c')) (hstatus : status ≠ .success) :
    loadSection (some (data, offset, position)) c load next = .ok (status, c') := by
  rw [loadSection, hload]
  exact if_pos hstatus

theorem loadMetadata_ok {data : List Byte} {offset : Nat}
    (hsize : ciaMetadataSize ≤ sizeSub data.length offset) (hdata : ciaMetadataSize ≤ data.length) :
    c.loadMetadata data offset =
      .ok (.success, { c with metadata := .ofBytes (bytesAt data 0 ciaMetadataSize) }) := by
  rw [loadMetadata, if_neg (Nat.not_lt.mpr hsize), readAt_inside (by omega)]
  rfl

theorem loadMetadata_error {data : List Byte} {offset : Nat}
    (hsize : sizeSub data.length offset < ciaMetadataSize) :
    c.loadMetadata data offset = .ok (.error, c) := if_pos hsize

theorem loadSMDH_eq (c : CIAContainer) (data : List Byte) (offset : Nat) :
    c.loadSMDH data offset =
      if data.length < offset + smdhSize then .ok (.error, c)
      else .ok (.success, { c with smdh := some (bytesAt data offset smdhSize) }) := by
  rw [loadSMDH]
  by_cases hfits : data.length < offset + smdhSize
  · rw [if_pos hfits, if_pos (by omega)]
  · rw [if_neg hfits, if_neg (by omega), readAt_inside (by omega)]
    rfl

/-! ## Metadata -/

theorem alignSection_lt (value : Nat) : alignSection value < 2 ^ 64 := Nat.mod_lt _ (by decide)

/-- A section begins at least its alignment in front of the end of 64 bits. -/
theorem alignSection_le (value : Nat) : alignSection value + ciaSectionAlignment ≤ 2 ^ 64 := by
  have hlt := alignSection_lt value
  have halign : alignUp value ciaSectionAlignment % ciaSectionAlignment = 0 := by
    by_cases hmod : value % ciaSectionAlignment = 0
    · have hup : alignUp value ciaSectionAlignment = value - value % ciaSectionAlignment :=
        if_pos hmod
      rw [hup, hmod, Nat.sub_zero, hmod]
    · have hup : alignUp value ciaSectionAlignment =
          value - value % ciaSectionAlignment + ciaSectionAlignment := if_neg hmod
      rw [hup, ciaSectionAlignment]
      omega
  rw [ciaSectionAlignment] at halign ⊢
  rw [alignSection, ciaSectionAlignment] at hlt ⊢
  omega

/-- Metadata that is read in place, with the icon. -/
theorem loadMeta_span (hc : c.header = of d) (hheader : ciaHeaderSize ≤ d.length)
    (position : Nat) :
    loadMeta (fun offset _ position => some (d, offset, position)) c position =
      if (of d).metaSize = 0 then .ok (.success, c)
      else if MetadataCut d then .ok (.error, c)
      else if (of d).metaSize.toNat < ciaMetadataSize + smdhSize then
        .ok (.success, { c with metadata := .ofBytes (bytesAt d 0 ciaMetadataSize) })
      else if d.length < smdhOffset d + smdhSize then
        .ok (.error, { c with metadata := .ofBytes (bytesAt d 0 ciaMetadataSize) })
      else .ok (.success,
        { c with
          metadata := .ofBytes (bytesAt d 0 ciaMetadataSize)
          smdh := some (bytesAt d (smdhOffset d) smdhSize) }) := by
  have hend := alignSection_le (((of d).getContentStart + (of d).contentSize.toNat) % 2 ^ 64)
  rw [← getMetadataOffset] at hend
  obtain ⟨hasHeader, header, metadata, smdh, ticket, tmd⟩ := c
  obtain rfl : header = of d := hc
  rw [loadMeta]
  by_cases hnone : (of d).metaSize = 0
  · rw [if_pos hnone, if_pos hnone]
  rw [if_neg hnone, if_neg hnone]
  by_cases hcut : MetadataCut d
  · have hsize : sizeSub d.length (of d).getMetadataOffset < ciaMetadataSize := by
      obtain ⟨hbegin, hbehind⟩ := hcut
      rw [sizeSub, if_pos hbegin]
      omega
    rw [if_pos hcut, loadSection_stop (loadMetadata_error hsize) LoadStatus.noConfusion]
  · have hsize : ciaMetadataSize ≤ sizeSub d.length (of d).getMetadataOffset := by
      rw [ciaHeaderSize] at hheader
      rw [MetadataCut, ciaMetadataSize] at hcut
      rw [ciaMetadataSize, sizeSub]
      split_ifs <;> omega
    have hdata : ciaMetadataSize ≤ d.length := Nat.le_trans (by decide) hheader
    rw [if_neg hcut, loadSection_success (loadMetadata_ok hsize hdata)]
    by_cases hicon : (of d).metaSize.toNat < ciaMetadataSize + smdhSize
    · rw [if_pos hicon, if_pos hicon]
    rw [if_neg hicon, if_neg hicon, ← smdhOffset]
    by_cases hfits : d.length < smdhOffset d + smdhSize
    · rw [if_pos hfits]
      exact loadSection_stop ((loadSMDH_eq _ d _).trans (if_pos hfits)) LoadStatus.noConfusion
    · rw [if_neg hfits]
      exact loadSection_success ((loadSMDH_eq _ d _).trans (if_neg hfits))

/-- Metadata that is read at a place where a loader goes to, with the icon. -/
theorem loadMeta_read (hc : c.header = of d) {fetch : Nat → Nat → Nat → Option Fetched}
    {position start icon : Nat}
    (hfetch : fetch (of d).getMetadataOffset ciaMetadataSize position =
      readSection d start ciaMetadataSize)
    (hicon : fetch (smdhOffset d) smdhSize (start + ciaMetadataSize) =
      readSection d icon smdhSize) :
    loadMeta fetch c position =
      if (of d).metaSize = 0 then .ok (.success, c)
      else if d.length < start + ciaMetadataSize then .ok (.error, c)
      else if (of d).metaSize.toNat < ciaMetadataSize + smdhSize then
        .ok (.success, { c with metadata := .ofBytes (bytesAt d start ciaMetadataSize) })
      else if d.length < icon + smdhSize then
        .ok (.error, { c with metadata := .ofBytes (bytesAt d start ciaMetadataSize) })
      else .ok (.success,
        { c with
          metadata := .ofBytes (bytesAt d start ciaMetadataSize)
          smdh := some (bytesAt d icon smdhSize) }) := by
  obtain ⟨hasHeader, header, metadata, smdh, ticket, tmd⟩ := c
  obtain rfl : header = of d := hc
  rw [loadMeta]
  simp only [hfetch]
  by_cases hnone : (of d).metaSize = 0
  · rw [if_pos hnone, if_pos hnone]
  rw [if_neg hnone, if_neg hnone, readSection_eq (by decide)]
  by_cases hmeta : d.length < start + ciaMetadataSize
  · rw [if_pos hmeta, if_pos hmeta]
    rfl
  have hlength : (bytesAt d start ciaMetadataSize).length = ciaMetadataSize :=
    length_bytesAt (by omega)
  have hall : bytesAt (bytesAt d start ciaMetadataSize) 0 ciaMetadataSize =
      bytesAt d start ciaMetadataSize := List.take_of_length_le (by simp [hlength])
  have hsize : ciaMetadataSize ≤ sizeSub (bytesAt d start ciaMetadataSize).length 0 := by
    rw [sizeSub, if_pos (Nat.zero_le _), hlength, Nat.sub_zero]
  rw [if_neg hmeta, if_neg hmeta,
    loadSection_success (loadMetadata_ok hsize (Nat.le_of_eq hlength.symm)), hall]
  by_cases hneeds : (of d).metaSize.toNat < ciaMetadataSize + smdhSize
  · rw [if_pos hneeds, if_pos hneeds]
  rw [if_neg hneeds, if_neg hneeds, ← smdhOffset, hicon, readSection_eq (by decide)]
  by_cases hfits : d.length < icon + smdhSize
  · rw [if_pos hfits, if_pos hfits]
    rfl
  have hlength' : (bytesAt d icon smdhSize).length = smdhSize := length_bytesAt (by omega)
  have hall' : bytesAt (bytesAt d icon smdhSize) 0 smdhSize = bytesAt d icon smdhSize :=
    List.take_of_length_le (by simp [hlength'])
  have hinside : ¬(bytesAt d icon smdhSize).length < 0 + smdhSize := by omega
  rw [if_neg hfits, if_neg hfits]
  refine (loadSection_success ((loadSMDH_eq _ _ 0).trans (if_neg hinside))).trans ?_
  rw [hall']

/-- Metadata at a place, with an icon at another, cannot be loaded. -/
def MetaFailsAt (d : List Byte) (start icon : Nat) : Prop :=
  d.length < start + ciaMetadataSize ∨
    (ciaMetadataSize + smdhSize ≤ (of d).metaSize.toNat ∧ d.length < icon + smdhSize)

/-- Metadata is read at a place, and its icon at another, as bytes are loaded, where tickets are the
same, or not at all. -/
def MetaAgreesAt (d : List Byte) (start icon : Nat) (same : Prop) : Prop :=
  ((of d).metaSize = 0 ∧ same) ∨ ((of d).metaSize ≠ 0 ∧
    (((MetadataCut d ∨ SmdhMissing d) ∧ MetaFailsAt d start icon) ∨
    (¬(MetadataCut d ∨ SmdhMissing d) ∧ ¬MetaFailsAt d start icon ∧
      CIAMetadata.ofBytes (bytesAt d 0 ciaMetadataSize) =
        .ofBytes (bytesAt d start ciaMetadataSize) ∧
      (ciaMetadataSize + smdhSize ≤ (of d).metaSize.toNat →
        bytesAt d (smdhOffset d) smdhSize = bytesAt d icon smdhSize) ∧ same)))

theorem agree_meta (view : Ticket → Ticket) (hc : c.header = of d)
    (hheader : ciaHeaderSize ≤ d.length) (t : Ticket)
    {fetch : Nat → Nat → Nat → Option Fetched} {position start icon : Nat}
    (hfetch : fetch (of d).getMetadataOffset ciaMetadataSize position =
      readSection d start ciaMetadataSize)
    (hicon : fetch (smdhOffset d) smdhSize (start + ciaMetadataSize) =
      readSection d icon smdhSize) (position' : Nat) :
    Agree view (loadMeta (fun offset _ position => some (d, offset, position)) c position')
      (loadMeta fetch (c.withTicket t) position) ↔
        MetaAgreesAt d start icon (view c.ticket = view t) := by
  have hread := loadMeta_read (c := c.withTicket t) hc hfetch hicon
  rw [loadMeta_span hc hheader, hread]
  simp only [MetaAgreesAt, MetaFailsAt, SmdhMissing, ← Nat.not_lt]
  by_cases hnone : (of d).metaSize = 0
  · simp [hnone, withTicket]
  rw [if_neg hnone, if_neg hnone, or_iff_right fun h => hnone h.1, and_iff_right hnone]
  by_cases hcut : MetadataCut d
  · by_cases hmeta : d.length < start + ciaMetadataSize
    · simp [hcut, hmeta]
    by_cases hneeds : (of d).metaSize.toNat < ciaMetadataSize + smdhSize
    · simp [hcut, hmeta, hneeds]
    by_cases hfits : d.length < icon + smdhSize
    · simp [hcut, hmeta, hneeds, hfits]
    · simp [hcut, hmeta, hneeds, hfits]
  by_cases hneeds : (of d).metaSize.toNat < ciaMetadataSize + smdhSize
  · by_cases hmeta : d.length < start + ciaMetadataSize
    · simp [hcut, hmeta, hneeds]
    · simp [hcut, hmeta, hneeds, withTicket]
  by_cases hmissing : d.length < smdhOffset d + smdhSize
  · by_cases hmeta : d.length < start + ciaMetadataSize
    · simp [hcut, hmeta, hneeds, hmissing]
    by_cases hfits : d.length < icon + smdhSize
    · simp [hcut, hmeta, hneeds, hmissing, hfits]
    · simp [hcut, hmeta, hneeds, hmissing, hfits]
  by_cases hmeta : d.length < start + ciaMetadataSize
  · simp [hcut, hmeta, hneeds, hmissing]
  by_cases hfits : d.length < icon + smdhSize
  · simp [hcut, hmeta, hneeds, hmissing, hfits]
  · simp [hcut, hmeta, hneeds, hmissing, hfits, withTicket]

/-- Where a file is read for the metadata. -/
def fileStart (d : List Byte) : Nat :=
  if (of d).getMetadataOffset < 2 ^ 63 then (of d).getMetadataOffset
  else (of d).getTitleMetadataOffset + (of d).tmdSize.toNat

/-- Where a file is read for the icon. -/
def fileIcon (d : List Byte) : Nat :=
  if smdhOffset d < 2 ^ 63 then smdhOffset d else fileStart d + ciaMetadataSize

variable {same : Prop}

/-- The metadata of a backend is where it should be. -/
theorem metaAgreesAt_iff :
    MetaAgreesAt d (of d).getMetadataOffset (smdhOffset d) same ↔
      ((of d).metaSize = 0 ∧ same) ∨ ((of d).metaSize ≠ 0 ∧ (MetadataCut d ∨
      ((of d).getMetadataOffset + ciaMetadataSize ≤ d.length ∧
        (SmdhMissing d ∨ (same ∧ MetadataFirst d))) ∨
      (d.length < (of d).getMetadataOffset ∧ SmdhMissing d))) := by
  have hfails : MetaFailsAt d (of d).getMetadataOffset (smdhOffset d) ↔
      d.length < (of d).getMetadataOffset + ciaMetadataSize ∨ SmdhMissing d := Iff.rfl
  rw [MetaAgreesAt, hfails, ← MetadataFirst]
  simp only [implies_true, true_and, MetadataCut]
  refine or_congr_right (and_congr_right fun _ => ?_)
  grind

/-- Both the file and the backend agree with the bytes. -/
theorem metaAgrees_iff (hsize : d.length < 2 ^ 63) :
    MetaAgreesAt d (fileStart d) (fileIcon d) same ∧
      MetaAgreesAt d (of d).getMetadataOffset (smdhOffset d) same ↔ MetaAgrees d same := by
  rw [metaAgreesAt_iff, MetaAgrees]
  by_cases hseek : (of d).getMetadataOffset < 2 ^ 63
  · have hstart : fileStart d = (of d).getMetadataOffset := if_pos hseek
    have hicon : fileIcon d = smdhOffset d := by
      rw [fileIcon, hstart]
      split_ifs
      · rfl
      · rw [smdhOffset, Nat.mod_eq_of_lt (by rw [ciaMetadataSize]; omega)]
    have hreads : ¬ReadsOn d := fun h => by have := h.1; omega
    rw [hstart, hicon, metaAgreesAt_iff, and_self]
    simp only [hreads, not_false_eq_true, and_true]
  have hcut : ¬MetadataCut d := fun h => by have := h.1; omega
  have hstart : fileStart d = (of d).getTitleMetadataOffset + (of d).tmdSize.toNat := if_neg hseek
  have hfails : SmdhMissing d →
      (MetaFailsAt d (fileStart d) (fileIcon d) ↔ ¬ReadsOn d) := by
    intro hmissing
    rw [MetaFailsAt, ReadsOn, fileIcon, hstart]
    by_cases hicon : smdhOffset d < 2 ^ 63
    · rw [if_pos hicon]
      exact iff_of_true (.inr hmissing) fun h => by omega
    · rw [if_neg hicon, and_iff_right hmissing.1]
      rw [smdhSize]
      omega
  have hbehind : d.length < (of d).getMetadataOffset := by omega
  have houtside : ¬(of d).getMetadataOffset + ciaMetadataSize ≤ d.length := by omega
  by_cases hnone : (of d).metaSize = 0
  · simp [MetaAgreesAt, hnone]
  simp only [MetaAgreesAt, hnone, ne_eq, not_false_eq_true, hcut, houtside, hbehind, false_and,
    false_or, true_and]
  by_cases hmissing : SmdhMissing d
  · simp [hmissing, hfails hmissing]
  · simp [hmissing]

/-! ## A section that goes on -/

/-- How a section of a size is loaded, which has to be inside of the bytes. -/
def sizedStatus (statusOf : List Byte → LoadStatus) (d : List Byte) (offset size : Nat) :
    LoadStatus :=
  if d.length < offset + size then .error else statusOf (bytesAt d offset size)

/-- What is known of the loader of a section. Bytes can be loaded if the first of them can. -/
structure IsSection (load : List Byte → Nat → Except Fault (LoadStatus × CIAContainer))
    (statusOf : List Byte → LoadStatus) (loaded : List Byte → CIAContainer) : Prop where
  inside : ∀ data offset, offset ≤ data.length → ∃ c,
    load data offset = .ok (statusOf (data.drop offset), c) ∧
      (statusOf (data.drop offset) = .success → c = loaded (data.drop offset))
  outside : ∀ data offset, data.length < offset → offset + ciaSectionAlignment ≤ 2 ^ 64 →
    ∃ e, load data offset = .error e
  take : ∀ d n, statusOf (d.take n) = .success → statusOf d = .success
  nil : statusOf [] = .error

namespace IsSection

variable {load load' : List Byte → Nat → Except Fault (LoadStatus × CIAContainer)}
  {statusOf : List Byte → LoadStatus} {loaded loaded' : List Byte → CIAContainer}
  {next next' : CIAContainer → Nat → Except Fault (LoadStatus × CIAContainer)}
  {offset size position position' : Nat}

/-- A section that is loaded from the bytes. -/
theorem fromBytes (h : IsSection load statusOf loaded) (hoffset : offset ≤ d.length)
    (c : CIAContainer) (position : Nat)
    (next : CIAContainer → Nat → Except Fault (LoadStatus × CIAContainer)) :
    ∃ c', loadSection (some (d, offset, position)) c load next =
      if statusOf (d.drop offset) = .success then next (loaded (d.drop offset)) position
      else .ok (statusOf (d.drop offset), c') := by
  obtain ⟨c', hload, hloaded⟩ := h.inside d offset hoffset
  refine ⟨c', ?_⟩
  split_ifs with hstatus
  · rw [← hloaded hstatus]
    exact loadSection_success (hstatus ▸ hload)
  · exact loadSection_stop hload hstatus

/-- A section behind the end of the bytes. -/
theorem fromBehind (h : IsSection load statusOf loaded) (hoffset : d.length < offset)
    (halign : offset + ciaSectionAlignment ≤ 2 ^ 64) (c : CIAContainer) (position : Nat)
    (next : CIAContainer → Nat → Except Fault (LoadStatus × CIAContainer)) :
    ∃ e, loadSection (some (d, offset, position)) c load next = .error e := by
  obtain ⟨e, hload⟩ := h.outside d offset hoffset halign
  refine ⟨e, ?_⟩
  rw [loadSection, hload]
  rfl

/-- A section that is loaded in its size. -/
theorem sizedStatus_success (h : IsSection load statusOf loaded)
    (hsized : sizedStatus statusOf d offset size = .success) :
    statusOf (d.drop offset) = .success := by
  rw [sizedStatus] at hsized
  split_ifs at hsized
  exact h.take _ _ hsized

/-- A section that is read, and then loaded. -/
theorem fromRead (h : IsSection load statusOf loaded) (d : List Byte) (offset size : Nat)
    (c : CIAContainer) (next : CIAContainer → Nat → Except Fault (LoadStatus × CIAContainer)) :
    ∃ c', loadSection (readSection d offset size) c load next =
      if sizedStatus statusOf d offset size = .success then
        next (loaded (bytesAt d offset size)) (offset + size)
      else .ok (sizedStatus statusOf d offset size, c') := by
  by_cases hfits : d.length < offset + size ∧ size ≠ 0
  · have hsized : sizedStatus statusOf d offset size = .error := if_pos hfits.1
    refine ⟨c, ?_⟩
    rw [readSection_eq hfits.2, if_pos hfits.1, hsized, if_neg LoadStatus.noConfusion]
    rfl
  have hread : readSection d offset size = some (bytesAt d offset size, 0, offset + size) := by
    by_cases hsize : size = 0
    · subst hsize
      simp [readSection, bytesAt]
    · rw [readSection_eq hsize, if_neg fun h => hfits ⟨h, hsize⟩]
  have hsized : sizedStatus statusOf d offset size = statusOf (bytesAt d offset size) := by
    rw [sizedStatus]
    split_ifs with hshort
    · obtain rfl : size = 0 := by
        by_contra hsize
        exact hfits ⟨hshort, hsize⟩
      rw [bytesAt, List.take_zero, h.nil]
    · rfl
  obtain ⟨c', hload⟩ :=
    h.fromBytes (Nat.zero_le (bytesAt d offset size).length) c (offset + size) next
  refine ⟨c', ?_⟩
  rw [hread, hload, hsized, List.drop_zero]

/-- The two loaders of a section, with what comes behind it. -/
theorem agree_iff (h : IsSection load statusOf loaded) (h' : IsSection load' statusOf loaded')
    (hoffset : offset ≤ d.length) :
    Agree view (loadSection (some (d, offset, position)) c load next)
        (loadSection (readSection d offset size) c' load' next') ↔
      if statusOf (d.drop offset) = .success then
        if sizedStatus statusOf d offset size = .success then
          Agree view (next (loaded (d.drop offset)) position)
            (next' (loaded' (bytesAt d offset size)) (offset + size))
        else ∃ c', next (loaded (d.drop offset)) position =
          .ok (sizedStatus statusOf d offset size, c')
      else statusOf (d.drop offset) = sizedStatus statusOf d offset size := by
  obtain ⟨cBytes, hbytes⟩ := h.fromBytes hoffset c position next
  obtain ⟨cRead, hread⟩ := h'.fromRead d offset size c' next'
  rw [hbytes, hread]
  by_cases hstatus : statusOf (d.drop offset) = .success
  · rw [if_pos hstatus, if_pos hstatus]
    by_cases hsized : sizedStatus statusOf d offset size = .success
    · rw [if_pos hsized, if_pos hsized]
    · rw [if_neg hsized, if_neg hsized, agree_error hsized]
  · have hsized : sizedStatus statusOf d offset size ≠ .success :=
      fun hsized => hstatus (h.sizedStatus_success hsized)
    rw [if_neg hstatus, if_neg hstatus, if_neg hsized, agree_ok,
      and_iff_left fun h => absurd h hstatus]

end IsSection

/-! ## Tickets and title metadata -/

theorem isSection_loadTicket (c : CIAContainer) :
    IsSection c.loadTicket Ticket.statusOf fun d => { c with ticket := c.ticket.loaded d } where
  inside data offset hoffset := by
    obtain ⟨ticket, hload, hloaded⟩ := Ticket.load_status c.ticket hoffset
    refine ⟨{ c with ticket }, ?_, fun h => by rw [hloaded h]⟩
    rw [loadTicket, hload]
    rfl
  outside data offset hoffset halign := by
    rw [ciaSectionAlignment] at halign
    have hsafe := (Ticket.safe_load_iff c.ticket data offset).not.mpr (by omega)
    cases hload : c.ticket.load data offset with
    | error e =>
      refine ⟨e, ?_⟩
      rw [loadTicket, hload]
      rfl
    | ok r => exact absurd ⟨r, hload⟩ hsafe
  take _ _ h := (Ticket.statusOf_take_success h).1
  nil := by decide

theorem isSection_loadTitleMetadata (c : CIAContainer) :
    IsSection c.loadTitleMetadata TitleMetadata.statusOf
      fun d => { c with tmd := c.tmd.loaded d } where
  inside data offset hoffset := by
    obtain ⟨tmd, hload, hloaded⟩ := TitleMetadata.load_inside c.tmd hoffset
    refine ⟨{ c with tmd }, ?_, fun h => by rw [hloaded h]⟩
    rw [loadTitleMetadata, hload]
    rfl
  outside data offset hoffset halign := by
    rw [ciaSectionAlignment] at halign
    have hsize : ¬sizeSub data.length offset < 4 := by
      rw [sizeSub, if_neg (Nat.not_le.mpr hoffset)]
      omega
    refine ⟨.read, ?_⟩
    rw [loadTitleMetadata, TitleMetadata.load, if_neg hsize, readAt_outside (by omega)]
    rfl
  take _ _ h := (TitleMetadata.statusOf_take_success h).1
  nil := by decide

end CIAContainer

end GbaStation.FileSys
