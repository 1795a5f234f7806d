import Mathlib.Algebra.BigOperators.Group.List.Basic
import Mathlib.Data.BitVec
import GbaStation.FileSys.CiaLoaders

/-!
# Agreement on CIA containers (`core/file_sys/cia_container.cpp`)

The loaders of CIA containers are compared section by section, from the last one to the header. A
file differs from a backend only in the offsets that it cannot seek to.

- `cia_iff`: when the loaders agree, and when the contents end where they should.
-/

namespace GbaStation.FileSys

open TitleMetadata (statusOf contentCount)
open LoadStatus (noConfusion)

namespace CIAContainer

open CIAHeader

variable {d : List Byte} {c : CIAContainer} {status : LoadStatus}

/-! ## The walk -/

/-- The loaders of the title metadata, and of the metadata behind it. -/
def loadFromTmd (fetch : Nat → Nat → Nat → Option Fetched) (c : CIAContainer) (position : Nat) :
    Except Fault (LoadStatus × CIAContainer) :=
  loadSection (fetch c.header.getTitleMetadataOffset c.header.tmdSize.toNat position) c
    c.loadTitleMetadata (loadMeta fetch)

/-- The loaders of the ticket, and of what is behind it. -/
def loadFromTicket (fetch : Nat → Nat → Nat → Option Fetched) (c : CIAContainer) (position : Nat) :
    Except Fault (LoadStatus × CIAContainer) :=
  loadSection (fetch c.header.getTicketOffset c.header.tikSize.toNat position) c c.loadTicket
    (loadFromTmd fetch)

theorem loadSections_eq (header : Option Fetched) (fetch : Nat → Nat → Nat → Option Fetched)
    (c : CIAContainer) :
    c.loadSections header fetch = loadSection header c c.loadHeader (loadFromTicket fetch) := rfl

/-- Bytes get every section in place. -/
def inPlace (d : List Byte) (offset _size position : Nat) : Option Fetched :=
  some (d, offset, position)

/-- Where the sections of a file or a backend are read. -/
structure ReadsAt (fetch : Nat → Nat → Nat → Option Fetched) (d : List Byte) (start icon : Nat) :
    Prop where
  ticket : ∀ position, fetch (of d).getTicketOffset (of d).tikSize.toNat position =
    readSection d (of d).getTicketOffset (of d).tikSize.toNat
  tmd : ∀ position, fetch (of d).getTitleMetadataOffset (of d).tmdSize.toNat position =
    readSection d (of d).getTitleMetadataOffset (of d).tmdSize.toNat
  metadata : fetch (of d).getMetadataOffset ciaMetadataSize
    ((of d).getTitleMetadataOffset + (of d).tmdSize.toNat) = readSection d start ciaMetadataSize
  icon : fetch (smdhOffset d) smdhSize (start + ciaMetadataSize) = readSection d icon smdhSize

/-- Metadata stops the loader of bytes with an error only. -/
theorem loadMeta_stops (position : Nat) (hc : c.header = of d)
    (hheader : ciaHeaderSize ≤ d.length) (hstatus : status ≠ .success) :
    (∃ c', loadMeta (inPlace d) c position = .ok (status, c')) ↔
      status = .error ∧ MetaFails d := by
  have hspan := loadMeta_span hc hheader position
  have hplace : inPlace d = fun offset _ position => some (d, offset, position) := rfl
  rw [← hplace] at hspan
  rw [hspan, MetaFails, SmdhMissing]
  split_ifs with hnone hcut hneeds hfits
  · exact iff_of_false (by rintro ⟨_, h⟩; cases h; exact hstatus rfl) fun h => h.2.1 hnone
  · exact ⟨by rintro ⟨_, h⟩; cases h; exact ⟨rfl, hnone, .inl hcut⟩,
      by rintro ⟨rfl, -⟩; exact ⟨_, rfl⟩⟩
  · refine iff_of_false (by rintro ⟨_, h⟩; cases h; exact hstatus rfl) fun h => ?_
    rcases h.2.2 with h | h
    · exact hcut h
    · omega
  · exact ⟨by rintro ⟨_, h⟩; cases h; exact ⟨rfl, hnone, .inr ⟨by omega, hfits⟩⟩,
      by rintro ⟨rfl, -⟩; exact ⟨_, rfl⟩⟩
  · refine iff_of_false (by rintro ⟨_, h⟩; cases h; exact hstatus rfl) fun h => ?_
    rcases h.2.2 with h | h
    · exact hcut h
    · exact hfits h.2

/-- The loader of bytes stops with an error behind the ticket. -/
theorem loadFromTmd_error (hc : c.header = of d) (hheader : ciaHeaderSize ≤ d.length)
    (position : Nat) :
    (∃ c', loadFromTmd (inPlace d) c position = .ok (.error, c')) ↔
      (of d).getTitleMetadataOffset ≤ d.length ∧ TmdFails d := by
  have hsection := isSection_loadTitleMetadata c
  rw [loadFromTmd, inPlace, hc]
  by_cases hoffset : (of d).getTitleMetadataOffset ≤ d.length
  · obtain ⟨c', hload⟩ := hsection.fromBytes hoffset c position (loadMeta (inPlace d))
    have hheader' := loadMeta_stops position
      (c := { c with tmd := c.tmd.loaded (d.drop (of d).getTitleMetadataOffset) }) hc hheader
      (show LoadStatus.error ≠ .success from noConfusion)
    rw [hload, and_iff_right hoffset, TmdFails, tmdStatus]
    split_ifs with hstatus
    · rw [hheader', hstatus]
      simp
    · simp [hstatus]
  · obtain ⟨e, hload⟩ := hsection.fromBehind (Nat.not_le.mp hoffset) (alignSection_le _) c position
      (loadMeta (inPlace d))
    rw [hload]
    exact iff_of_false (by rintro ⟨_, h⟩; cases h) fun h => hoffset h.1

variable {fetch : Nat → Nat → Nat → Option Fetched} {start icon : Nat}
  {view : Ticket → Ticket} {same : Prop}

/-- From the title metadata on, with two tickets in front of it. -/
theorem agree_tmd (view : Ticket → Ticket) (hc : c.header = of d)
    (hheader : ciaHeaderSize ≤ d.length) (t : Ticket)
    (hsame : sizedTmdStatus d = .success → (view c.ticket = view t ↔ same))
    (hreads : ReadsAt fetch d start icon) (position position' : Nat) :
    Agree view (loadFromTmd (inPlace d) c position)
        (loadFromTmd fetch (c.withTicket t) position') ↔
      (of d).getTitleMetadataOffset ≤ d.length ∧ TmdAgrees d (MetaAgreesAt d start icon same) := by
  have hsection := isSection_loadTitleMetadata c
  have hother : (c.withTicket t).header = of d := hc
  rw [loadFromTmd, inPlace, loadFromTmd, hc, hother, hreads.tmd]
  by_cases hoffset : (of d).getTitleMetadataOffset ≤ d.length
  · have hsized : sizedTmdStatus d = sizedStatus statusOf d
      (of d).getTitleMetadataOffset (of d).tmdSize.toNat := rfl
    have hstatus : tmdStatus d = statusOf (d.drop (of d).getTitleMetadataOffset) := rfl
    have hsuccess : sizedTmdStatus d = .success → tmdStatus d = .success :=
      hsection.sizedStatus_success
    have herror : tmdStatus d = .error → sizedTmdStatus d = .error := by
      intro h
      rw [hsized, sizedStatus]
      split_ifs
      · rfl
      · exact TitleMetadata.statusOf_take_error _ h
    have hc' : ({ c with
        tmd := c.tmd.loaded (d.drop (of d).getTitleMetadataOffset) } : CIAContainer).header =
        of d := hc
    have hmeta := agree_meta view hc' hheader t hreads.metadata hreads.icon position
    have hstops := fun (status : LoadStatus) (h : status ≠ .success) =>
      loadMeta_stops position hc' hheader h
    rw [hsection.agree_iff (isSection_loadTitleMetadata (c.withTicket t)) hoffset,
      and_iff_right hoffset, TmdAgrees, ← hsized, ← hstatus]
    cases htmd : tmdStatus d with
    | success =>
      rw [if_pos rfl]
      cases hsize : sizedTmdStatus d with
      | success =>
        have hloaded : (c.withTicket t).tmd.loaded
              (bytesAt d (of d).getTitleMetadataOffset (of d).tmdSize.toNat) =
            c.tmd.loaded (d.drop (of d).getTitleMetadataOffset) := by
          rw [sizedTmdStatus] at hsize
          split_ifs at hsize
          exact (TitleMetadata.statusOf_take_success hsize).2 _
        rw [if_pos rfl, hloaded]
        refine hmeta.trans ?_
        simp [hsame hsize]
      | error =>
        rw [if_neg noConfusion, hstops _ noConfusion]
        simp
      | errorInvalidFormat =>
        rw [if_neg noConfusion, hstops _ noConfusion]
        simp
    | error => simp [herror htmd]
    | errorInvalidFormat =>
      have hsize : sizedTmdStatus d ≠ .success :=
        fun h => noConfusion (htmd.symm.trans (hsuccess h))
      simp [hsize, eq_comm]
  · obtain ⟨e, hload⟩ := hsection.fromBehind (Nat.not_le.mp hoffset) (alignSection_le _) c position
      (loadMeta (inPlace d))
    rw [hload]
    exact iff_of_false not_agree_error fun h => hoffset h.1

/-- What the view sees of the tickets that are loaded, where there is title metadata behind them. -/
def SeenSame (view : Ticket → Ticket) (d : List Byte) (same : Prop) : Prop :=
  ∀ t : Ticket, sizedTicketStatus d = .success → sizedTmdStatus d = .success →
    (view (t.loaded (d.drop (of d).getTicketOffset)) =
      view (t.loaded (bytesAt d (of d).getTicketOffset (of d).tikSize.toNat)) ↔ same)

theorem agree_ticket (hc : c.header = of d) (hheader : ciaHeaderSize ≤ d.length)
    (hsame : SeenSame view d same) (hreads : ReadsAt fetch d start icon)
    (position position' : Nat) :
    Agree view (loadFromTicket (inPlace d) c position) (loadFromTicket fetch c position') ↔
      (of d).getTicketOffset ≤ d.length ∧ (ticketStatus d ≠ .success ∨
        ((of d).getTitleMetadataOffset ≤ d.length ∧
          ((sizedTicketStatus d = .success ∧ TmdAgrees d (MetaAgreesAt d start icon same)) ∨
            (sizedTicketStatus d ≠ .success ∧ TmdFails d)))) := by
  have hsection := isSection_loadTicket c
  rw [loadFromTicket, inPlace, loadFromTicket, hc, hreads.ticket]
  by_cases hoffset : (of d).getTicketOffset ≤ d.length
  · have hsized : sizedTicketStatus d = sizedStatus Ticket.statusOf d
      (of d).getTicketOffset (of d).tikSize.toNat := rfl
    have hstatus : ticketStatus d = Ticket.statusOf (d.drop (of d).getTicketOffset) := rfl
    have hsuccess : sizedTicketStatus d = .success → ticketStatus d = .success :=
      hsection.sizedStatus_success
    have hformat : ∀ d, Ticket.statusOf d = .success ∨ Ticket.statusOf d = .error := by
      intro d
      rw [Ticket.statusOf]
      split_ifs
      · exact .inl rfl
      · exact .inr rfl
    have hformat' : sizedTicketStatus d = .success ∨ sizedTicketStatus d = .error := by
      rw [sizedTicketStatus]
      split_ifs
      · exact .inr rfl
      · exact hformat _
    have hc' : ({ c with
        ticket := c.ticket.loaded (d.drop (of d).getTicketOffset) } : CIAContainer).header =
        of d := hc
    rw [hsection.agree_iff hsection hoffset, and_iff_right hoffset, ← hsized, ← hstatus]
    by_cases hticket : ticketStatus d = .success
    · rw [if_pos hticket]
      rcases hformat' with hsize | hsize
      · have htmd := agree_tmd view hc' hheader
          (c.ticket.loaded (bytesAt d (of d).getTicketOffset (of d).tikSize.toNat))
          (hsame c.ticket hsize) hreads position
        rw [if_pos hsize]
        refine (htmd _).trans ?_
        simp [hticket, hsize]
      · have herror := loadFromTmd_error hc' hheader position
        rw [hsize, if_neg noConfusion, herror]
        simp [hticket]
    · have herror : ticketStatus d = .error := (hformat _).resolve_left hticket
      have hsize : sizedTicketStatus d = .error :=
        hformat'.resolve_left fun h => hticket (hsuccess h)
      simp [herror, hsize]
  · obtain ⟨e, hload⟩ := hsection.fromBehind (Nat.not_le.mp hoffset) (alignSection_le _) c position
      (loadFromTmd (inPlace d))
    rw [hload]
    exact iff_of_false not_agree_error fun h => hoffset h.1

/-- The loader of bytes agrees with another one from the header on. -/
theorem agree_sections (c : CIAContainer) (hsame : SeenSame view d same)
    (hreads : ReadsAt fetch d start icon) :
    Agree view (loadSpan d c) (c.loadSections (readSection d 0 ciaHeaderSize) fetch) ↔
      SectionsAgree d (MetaAgreesAt d start icon same) := by
  have hspan : loadSpan d c = loadSection (some (d, 0, 0)) c c.loadHeader
    (loadFromTicket (inPlace d)) := rfl
  rw [hspan, loadSections_eq, SectionsAgree, readSection_eq (by decide), Nat.zero_add]
  by_cases hshort : d.length < ciaHeaderSize
  · have hload : c.loadHeader d 0 = .ok (.error, c) := by
      rw [loadHeader, sizeSub, if_pos (Nat.zero_le _), Nat.sub_zero, if_pos hshort]
    rw [if_pos hshort, loadSection_stop hload noConfusion]
    exact iff_of_true (agree_ok.mpr ⟨rfl, fun h => by cases h⟩) (.inl hshort)
  have hheader : ciaHeaderSize ≤ d.length := Nat.not_lt.mp hshort
  have hload : ∀ data : List Byte, ciaHeaderSize ≤ data.length → c.loadHeader data 0 =
      .ok (.success, { c with hasHeader := true, header := of data }) := by
    intro data hdata
    rw [loadHeader, sizeSub, if_pos (Nat.zero_le _), Nat.sub_zero, if_neg (Nat.not_lt.mpr hdata),
      readAt_inside (by omega)]
    rfl
  have hlength : (bytesAt d 0 ciaHeaderSize).length = ciaHeaderSize := length_bytesAt (by omega)
  have hof : of (bytesAt d 0 ciaHeaderSize) = of d := by
    rw [of, bytesAt, bytesAt, List.drop_zero, List.drop_zero, List.take_take, min_self]
    rfl
  rw [if_neg hshort, loadSection_success (hload d hheader),
    loadSection_success (hload _ (Nat.le_of_eq hlength.symm)), hof,
    agree_ticket rfl hheader hsame hreads, or_iff_right hshort]

/-! ## Files and backends -/

theorem alignSection_lt_add (value : Nat) :
    alignSection value < value + ciaSectionAlignment := by
  rw [alignSection, alignUp, ciaSectionAlignment]
  refine Nat.lt_of_le_of_lt (Nat.mod_le _ _) ?_
  split_ifs <;> omega

theorem le_alignSection {value : Nat} (hvalue : value < 2 ^ 35) : value ≤ alignSection value := by
  rw [alignSection, alignUp, ciaSectionAlignment]
  split_ifs <;> omega

theorem getTicketOffset_lt (h : CIAHeader) : h.getTicketOffset < 2 ^ 34 := by
  have hcert := Nat.mod_lt (alignUp h.headerSize.toNat ciaSectionAlignment)
    (show 0 < 2 ^ 32 by decide)
  have hlt := alignSection_lt_add ((h.getCertificateOffset + h.certSize.toNat) % 2 ^ 64)
  rw [getTicketOffset]
  rw [getCertificateOffset, ciaSectionAlignment] at *
  omega

theorem getTitleMetadataOffset_lt (h : CIAHeader) : h.getTitleMetadataOffset < 2 ^ 35 := by
  have hticket := getTicketOffset_lt h
  have hlt := alignSection_lt_add ((h.getTicketOffset + h.tikSize.toNat) % 2 ^ 64)
  rw [getTitleMetadataOffset]
  rw [ciaSectionAlignment] at hlt
  omega

theorem readsAt_file (d : List Byte) :
    ReadsAt (fun offset size position =>
      readSection d (if offset < 2 ^ 63 then offset else position) size)
      d (fileStart d) (fileIcon d) where
  ticket _ := by
    have hlt := getTicketOffset_lt (of d)
    rw [if_pos (by omega)]
  tmd _ := by
    have hlt := getTitleMetadataOffset_lt (of d)
    rw [if_pos (by omega)]
  metadata := rfl
  icon := rfl

theorem readsAt_backend (d : List Byte) :
    ReadsAt (fun offset size _ => readSection d offset size) d (of d).getMetadataOffset
      (smdhOffset d) where
  ticket _ := rfl
  tmd _ := rfl
  metadata := rfl
  icon := rfl

theorem SectionsAgree.mono {p q : Prop} (h : SectionsAgree d p) (himp : p → q) :
    SectionsAgree d q := by
  have htmd : TmdAgrees d p → TmdAgrees d q :=
    Or.imp_right (Or.imp_right (Or.imp_right (And.imp_right himp)))
  exact h.imp_right (And.imp_right (Or.imp_right (And.imp_right
    (Or.imp_left (And.imp_right htmd)))))

theorem sectionsAgree_and {p q : Prop} :
    SectionsAgree d p ∧ SectionsAgree d q ↔ SectionsAgree d (p ∧ q) := by
  constructor
  · rintro ⟨hp, hq⟩
    by_cases h : p
    · exact SectionsAgree.mono hq fun h' => ⟨h, h'⟩
    · exact SectionsAgree.mono hp fun h' => absurd h' h
  · exact fun h => ⟨SectionsAgree.mono h And.left, SectionsAgree.mono h And.right⟩

/-- The three loaders agree. -/
theorem loaders_agree_iff (hsize : d.length < 2 ^ 63) (hsame : SeenSame view d same)
    (c : CIAContainer) :
    Agree view (loadSpan d c) (loadFile d c) ∧ Agree view (loadSpan d c) (loadBackend d c) ↔
      SectionsAgree d (MetaAgrees d same) := by
  have hfile := agree_sections c hsame (readsAt_file d)
  have hbackend := agree_sections c hsame (readsAt_backend d)
  rw [loadFile, hfile, loadBackend, hbackend, ← metaAgrees_iff hsize]
  exact sectionsAgree_and

/-- But for its size, a ticket is the same. -/
theorem seenSame_withoutSize (d : List Byte) : SeenSame Ticket.withoutSize d True := by
  refine fun t hticket _ => iff_true_intro ?_
  rw [sizedTicketStatus] at hticket
  split_ifs at hticket
  exact ((Ticket.statusOf_take_success hticket).2 t).symm

/-- Behind the ticket there is title metadata, so it is not all of the bytes. -/
theorem seenSame_id (d : List Byte) : SeenSame id d False := by
  refine fun t _ htmd => iff_false_intro fun heq => ?_
  have hlength : (d.drop (of d).getTicketOffset).length =
      (bytesAt d (of d).getTicketOffset (of d).tikSize.toNat).length :=
    congrArg Ticket.serializedSize heq
  rw [List.length_drop, length_bytesAt_le] at hlength
  rw [sizedTmdStatus] at htmd
  split_ifs at htmd
  have hbody := (TitleMetadata.statusOf_eq_success.mp htmd).1.1
  rw [length_bytesAt_le] at hbody
  have hticket := getTicketOffset_lt (of d)
  have hbehind := @le_alignSection ((of d).getTicketOffset + (of d).tikSize.toNat) (by omega)
  rw [getTitleMetadataOffset, Nat.mod_eq_of_lt (by omega)] at hbody
  omega

end CIAContainer

/-! ## Contents -/

namespace TitleMetadata

/-- Title metadata as it is loaded when there were no chunks before. -/
def Parsed (t : TitleMetadata) : Prop :=
  ∃ (t₀ : TitleMetadata) (data : List Byte) (offset : Nat),
    t₀.chunks = [] ∧ t₀.load data offset = .ok (.success, t)

/-- As many chunks are loaded as the body counts. -/
theorem Parsed.length_chunks {t : TitleMetadata} (h : t.Parsed) :
    t.chunks.length = contentCount t.body := by
  obtain ⟨t₀, data, offset, hempty, hload⟩ := h
  have hoffset : offset ≤ data.length := by
    by_contra hbehind
    rw [load] at hload
    split_ifs at hload with hshort
    · cases hload
    · rw [readAt_outside (by omega)] at hload
      cases hload
  obtain ⟨t', hload', hloaded⟩ := load_inside t₀ hoffset
  rw [hload', Except.ok.injEq, Prod.mk.injEq] at hload
  obtain ⟨hstatus, rfl⟩ := hload
  rw [hloaded hstatus, loaded, hempty, List.nil_append, chunksOf, List.length_map,
    List.length_range]

end TitleMetadata

namespace CIAContainer

variable {c : CIAContainer}

/-- The size of the contents that are present as `p` says, from a chunk and its place. -/
def sizeWhere (c : CIAContainer) (p : ContentChunk × Nat → Bool) : BitVec 64 :=
  (c.tmd.chunks.zipIdx.map fun x => if p x then x.1.size else 0).sum

def presentByPlace (c : CIAContainer) (x : ContentChunk × Nat) : Bool :=
  c.header.isContentPresent x.2

def presentByIndex (c : CIAContainer) (x : ContentChunk × Nat) : Bool :=
  c.header.isContentPresent x.1.index.toNat

/-- What is present by its place only is as large as what is present by its index only. -/
def Balanced (c : CIAContainer) : Prop :=
  c.sizeWhere (fun x => c.presentByPlace x && !c.presentByIndex x) =
    c.sizeWhere fun x => c.presentByIndex x && !c.presentByPlace x

instance (c : CIAContainer) : Decidable c.Balanced :=
  inferInstanceAs (Decidable (_ = _))

theorem foldl_add {α : Type} (f : α → BitVec 64) (l : List α) (start : BitVec 64) :
    l.foldl (fun total a => total + f a) start = start + (l.map f).sum := by
  induction l generalizing start with
  | nil => simp
  | cons a l ih => rw [List.foldl_cons, ih, List.map_cons, List.sum_cons, add_assoc]

/-- The contents end behind the ones that are present by their place. -/
theorem getContentOffset_length :
    c.getContentOffset c.tmd.chunks.length =
      .ofNat 64 c.header.getContentStart + c.sizeWhere c.presentByPlace := by
  have hmap : (List.range c.tmd.chunks.length).map c.getContentSize =
      c.tmd.chunks.zipIdx.map fun x => if c.presentByPlace x then x.1.size else 0 := by
    apply List.ext_getElem (by simp)
    intro i hi _
    simp only [List.length_map, List.length_range] at hi
    cases hpresent : c.header.isContentPresent i <;>
      simp [getContentSize, presentByPlace, hi, hpresent]
  rw [getContentOffset, foldl_add, hmap, sizeWhere]

theorem getCombinedContentSize_eq :
    c.tmd.getCombinedContentSize c.header = c.sizeWhere c.presentByIndex := by
  have hstep : (fun (totalSize : BitVec 64) (chunk : ContentChunk) =>
      if ¬c.header.isContentPresent chunk.index.toNat then totalSize
      else totalSize + chunk.size) =
      fun totalSize chunk =>
        totalSize + if c.header.isContentPresent chunk.index.toNat then chunk.size else 0 := by
    funext totalSize chunk
    cases c.header.isContentPresent chunk.index.toNat <;> simp
  have hplaces : c.tmd.chunks = c.tmd.chunks.zipIdx.map Prod.fst := by simp
  rw [TitleMetadata.getCombinedContentSize, hstep, foldl_add, zero_add, sizeWhere]
  conv_lhs => rw [hplaces, List.map_map]
  rfl

theorem sizeWhere_split (p q : ContentChunk × Nat → Bool) :
    c.sizeWhere p = c.sizeWhere (fun x => p x && q x) + c.sizeWhere fun x => p x && !q x := by
  rw [sizeWhere, sizeWhere, sizeWhere, ← List.sum_map_add]
  refine congrArg List.sum (List.map_congr_left fun x _ => ?_)
  cases p x <;> cases q x <;> simp

/-- The contents end where the size of all of them says. -/
theorem contentOffset_iff (hparsed : c.tmd.Parsed) :
    c.getContentOffset (contentCount c.tmd.body) =
        .ofNat 64 c.header.getContentStart + c.tmd.getCombinedContentSize c.header ↔
      c.Balanced := by
  rw [← hparsed.length_chunks, getContentOffset_length, getCombinedContentSize_eq, add_right_inj,
    sizeWhere_split c.presentByPlace c.presentByIndex,
    sizeWhere_split c.presentByIndex c.presentByPlace, Balanced]
  have hboth : c.sizeWhere (fun x => c.presentByIndex x && c.presentByPlace x) =
      c.sizeWhere fun x => c.presentByPlace x && c.presentByIndex x := by
    simp only [Bool.and_comm]
  rw [hboth, add_right_inj]

/-- The loaders agree on exactly the bytes of `LoadersAgree`, and the contents end where the size of
all of them says for exactly the balanced containers. -/
theorem cia_iff (d : List Byte) (c : CIAContainer) :
    (d.length < 2 ^ 63 →
      (Agree id (loadSpan d c) (loadFile d c) ∧ Agree id (loadSpan d c) (loadBackend d c) ↔
        CIAHeader.LoadersAgree d)) ∧
    (d.length < 2 ^ 63 →
      (Agree Ticket.withoutSize (loadSpan d c) (loadFile d c) ∧
        Agree Ticket.withoutSize (loadSpan d c) (loadBackend d c) ↔
        CIAHeader.ContentsAgree d)) ∧
    (c.tmd.Parsed →
      (c.getContentOffset (contentCount c.tmd.body) =
          .ofNat 64 c.header.getContentStart + c.tmd.getCombinedContentSize c.header ↔
        c.Balanced)) :=
  ⟨fun hsize => loaders_agree_iff hsize (seenSame_id d) c,
    fun hsize => loaders_agree_iff hsize (seenSame_withoutSize d) c, contentOffset_iff⟩

/-- Title metadata with a chunk of 5 bytes that has the index. -/
def oneChunk (index : Byte) : List Byte :=
  [0, 1, 0, 2] ++ List.replicate 0x3C 0 ++
    (List.replicate 0x9E 0 ++ [0, 1] ++ List.replicate 0x924 0) ++
    ([0, 0, 0, 0, 0, index, 0, 0, 0, 0, 0, 0, 0, 0, 0, 5] ++ List.replicate 0x20 0)

/-- A container whose first content only is there. -/
def oneContent (index : Byte) : CIAContainer where
  hasHeader := true
  header := { CIAHeader.ofBytes [] with contentPresent := [0x80] }
  metadata := .ofBytes []
  smdh := none
  ticket := ⟨0, [], [], ⟨false, [], []⟩, 0⟩
  tmd := TitleMetadata.loaded ⟨0, [], [], []⟩ (oneChunk index)

theorem parsed_oneContent {index : Byte} (h : TitleMetadata.HoldsChunks (oneChunk index)) :
    (oneContent index).tmd.Parsed := by
  obtain ⟨t, hload, hloaded⟩ :=
    TitleMetadata.load_inside ⟨0, [], [], []⟩ (Nat.zero_le (oneChunk index).length)
  have hstatus : statusOf (oneChunk index) = .success := TitleMetadata.statusOf_eq_success.mpr h
  rw [List.drop_zero, hstatus] at hload
  rw [List.drop_zero] at hloaded
  exact ⟨_, oneChunk index, 0, rfl, (hloaded hstatus) ▸ hload⟩

/-- A header without anything behind it. -/
def headerOnly : List Byte := [0x20, 0x20] ++ List.replicate 0x201E 0

/-- A header for one content of 5 bytes. -/
def fullHeader : List Byte :=
  [0x20, 0x20, 0, 0, 0, 0, 0, 0, 0, 0, 0, 0, 0xAC, 2, 0, 0, 0x34, 0xA, 0, 0, 0, 4, 0, 0, 5, 0, 0, 0,
    0, 0, 0, 0, 0x80] ++ List.replicate 0x1FFF 0

/-- A CIA with all sections. The dependencies are those that are read from its first bytes. -/
def fullCia : List Byte :=
  fullHeader ++ List.replicate 0x20 0 ++ (shortTicket 8 ++ List.replicate 0x14 0 ++
    (oneChunk 0 ++ List.replicate 0x4C 0 ++ fullHeader.take ciaMetadataSize))

open CIAHeader in
/-- All sections are loaded alike, but for the size of the ticket; without the last byte, the loaders
fail at the metadata. -/
theorem cia_agree_full :
    (Agree Ticket.withoutSize (loadSpan fullCia (oneContent 0)) (loadFile fullCia (oneContent 0)) ∧
      Agree Ticket.withoutSize (loadSpan fullCia (oneContent 0))
        (loadBackend fullCia (oneContent 0))) ∧
    (Agree id (loadSpan fullCia.dropLast (oneContent 0))
        (loadFile fullCia.dropLast (oneContent 0)) ∧
      Agree id (loadSpan fullCia.dropLast (oneContent 0))
        (loadBackend fullCia.dropLast (oneContent 0))) ∧
    (oneContent 0).getContentOffset (contentCount (oneContent 0).tmd.body) =
      .ofNat 64 (oneContent 0).header.getContentStart +
        (oneContent 0).tmd.getCombinedContentSize (oneContent 0).header := by
  have hsections : ∀ d ∈ [fullCia, fullCia.dropLast], d.length < 2 ^ 63 ∧
      (of d).getTicketOffset ≤ d.length ∧ (of d).getTitleMetadataOffset ≤ d.length ∧
      sizedTicketStatus d = .success ∧ sizedTmdStatus d = .success ∧ (of d).metaSize ≠ 0 := by
    decide +kernel
  have hagrees : ∀ d ∈ [fullCia, fullCia.dropLast], ∀ same, MetadataCut d ∨
      ((of d).getMetadataOffset + ciaMetadataSize ≤ d.length ∧ same ∧ MetadataFirst d) →
      SectionsAgree d (MetaAgrees d same) := by
    rintro d hd same hlast
    obtain ⟨-, hticket, htmd, hsizedTicket, hsizedTmd, hnone⟩ := hsections d hd
    exact .inr ⟨hticket, .inr ⟨htmd, .inl ⟨hsizedTicket, .inr (.inr (.inr ⟨hsizedTmd,
      .inr ⟨hnone, hlast.imp_right fun h => .inl ⟨h.1, .inr h.2⟩⟩⟩))⟩⟩⟩
  refine ⟨((cia_iff fullCia (oneContent 0)).2.1 (hsections _ (by simp)).1).mpr
      (hagrees _ (by simp) _ (.inr ⟨by decide +kernel, trivial, ?_⟩)),
    ((cia_iff fullCia.dropLast (oneContent 0)).1 (hsections _ (by simp)).1).mpr
      (hagrees _ (by simp) _ (.inl (by decide +kernel))),
    ((cia_iff [] (oneContent 0)).2.2 (parsed_oneContent (by decide +kernel))).mpr
      (by decide +kernel)⟩
  unfold MetadataFirst
  decide +kernel

/-- Bytes are read behind their end where a file has an error, and a content that is present by its
place has no size by its index. -/
theorem cia_not_agree :
    (¬∀ (d : List Byte) (c : CIAContainer), d.length < 2 ^ 63 →
      Agree id (loadSpan d c) (loadFile d c) ∧ Agree id (loadSpan d c) (loadBackend d c)) ∧
    ¬∀ c : CIAContainer, c.tmd.Parsed →
      c.getContentOffset (contentCount c.tmd.body) =
        .ofNat 64 c.header.getContentStart + c.tmd.getCombinedContentSize c.header := by
  constructor
  · intro h
    have hlength : headerOnly.length = ciaHeaderSize := by decide +kernel
    have hoffset : (CIAHeader.of headerOnly).getTicketOffset = 0x2040 := by decide +kernel
    have hagree := (loaders_agree_iff (by rw [hlength]; decide) (seenSame_id _) _).mp
      (h headerOnly (oneContent 0) (by rw [hlength]; decide))
    rcases hagree with hshort | ⟨hinside, -⟩
    · exact absurd hlength (Nat.ne_of_lt hshort)
    · rw [hoffset, hlength] at hinside
      exact absurd hinside (by decide)
  · intro h
    exact absurd (h (oneContent 1) (parsed_oneContent (by decide +kernel))) (by decide +kernel)

end CIAContainer

end GbaStation.FileSys
