import GbaStation.Paging.Access
import GbaStation.Paging.RasterizerPages

/-!
# What accesses rely on the GPU for

The rasterizer may hold data of a region that is newer than what is in host memory. `newer` names
these bytes; `view` is the memory with them in place.

- `Coherent`: the page tables are well formed, and nothing newer is held of memory that a page of
  an ordinary type gives direct access to. This is what the page types are for.

`settles_flush` and `settles_invalidate` carry this over to `RasterizerFlushVirtualRegion`.
-/

namespace GbaStation.Paging

/-! ## Where pages lie -/

/-- The host address behind a page, however an access gets there. -/
def backing (l : Layout) (t : PageTable) (page : Nat) : Option Nat :=
  match t.attributes page with
  | .unmapped => none
  | .memory => (t.pointers page).map HostRef.getPtr
  | .memoryWatchpoint =>
    (t.watchpointPagesMap page).bind fun info => info.memory.map HostRef.getPtr
  | .rasterizerCachedMemory | .rasterizerCachedMemoryWatchpoint =>
    (l.getPointerForRasterizerCache (page * pageSize)).map HostRef.getPtr

/-- The host address of the byte behind an address. -/
def hostAddr (l : Layout) (t : PageTable) (vaddr : Nat) : Option Nat :=
  (backing l t (vaddr / pageSize)).map (· + vaddr % pageSize)

/-- A page whose memory is accessed without asking the GPU. -/
def Plain (t : PageTable) (page : Nat) : Prop :=
  t.attributes page = .memory ∨ t.attributes page = .memoryWatchpoint

structure TableOk (l : Layout) (t : PageTable) : Prop where
  pointer : ∀ page, (t.pointers page).isSome ↔ t.attributes page = .memory
  backing : ∀ page, t.attributes page ≠ .unmapped → (backing l t page).isSome

/-- Host memory that some page gives direct access to. -/
def OnPlainPage (l : Layout) (s : MemorySystem) (a : Nat) : Prop :=
  ∃ t ∈ s.pageTableList, ∃ page p, Plain t page ∧ backing l t page = some p ∧ p ≤ a ∧
    a < p + pageSize

/-- Pages may have become uncached; where they lie stays. -/
structure Uncached (l : Layout) (t t' : PageTable) : Prop where
  backing : ∀ page, backing l t' page = backing l t page
  plain : ∀ page, Plain t page → Plain t' page

/-- The host address of a physical address the rasterizer works on. -/
def Layout.hostOfPaddr (l : Layout) (paddr : Nat) : Option Nat :=
  if fcramPaddr ≤ paddr ∧ paddr < fcramN3DSPaddrEnd then some (l.fcramPtr + (paddr - fcramPaddr))
  else if vramPaddr ≤ paddr ∧ paddr < vramPaddrEnd then some (l.vramPtr + (paddr - vramPaddr))
  else none

def Layout.HostRange (l : Layout) (paddr size a : Nat) : Prop :=
  ∃ j, j < size ∧ l.hostOfPaddr (paddr + j) = some a

/-! ## Laws -/

section Laws

variable {G : Type} (l : Layout) (newer : G → Nat → Option Byte)

/-- Host memory with what the rasterizer holds in place. -/
def view (m : Machine G) (a : Nat) : Byte := (newer m.gpu a).getD (m.host a)

structure Coherent (m : Machine G) : Prop where
  tables : ∀ t ∈ m.system.pageTableList, TableOk l t
  plain : ∀ a, OnPlainPage l m.system a → newer m.gpu a = none

/-- `m` is taken to `m'` with nothing newer left of `R`, and only bytes of `D` dropped. -/
structure Settles (R D : Nat → Prop) (m m' : Machine G) : Prop where
  coherent : Coherent l newer m'
  tables : List.Forall₂ (Uncached l) m.system.pageTableList m'.system.pageTableList
  fewer : ∀ a, newer m'.gpu a = none ∨ newer m'.gpu a = newer m.gpu a
  settled : ∀ a, R a → newer m'.gpu a = none
  seen : ∀ a, ¬ D a → view newer m' a = view newer m a

/-- The documented behaviour of the rasterizer interface. -/
structure LawfulGpu (r : Gpu G) : Prop where
  flush : ∀ p n m, Coherent l newer m →
    Settles l newer (l.HostRange p n) (fun _ => False) m (r.flushRegion p n m)
  invalidate : ∀ p n m, Coherent l newer m →
    Settles l newer (l.HostRange p n) (l.HostRange p n) m (r.invalidateRegion p n m)

end Laws

variable {G : Type} {l : Layout} {r : Gpu G} {newer : G → Nat → Option Byte}
  {m m' m'' : Machine G} {t t' : PageTable} {R R' D D' : Nat → Prop} {i page v n a : Nat}

theorem view_of_none (h : newer m.gpu a = none) : view newer m a = m.host a := by
  rw [view, h, Option.getD_none]

theorem Uncached.refl (l : Layout) (t : PageTable) : Uncached l t t := ⟨fun _ => rfl, fun _ => id⟩

theorem Uncached.trans {t'' : PageTable} (h : Uncached l t t') (h' : Uncached l t' t'') :
    Uncached l t t'' :=
  ⟨fun page => (h'.backing page).trans (h.backing page),
    fun page hp => h'.plain page (h.plain page hp)⟩

theorem hostAddr_uncached (h : Uncached l t t') : hostAddr l t' = hostAddr l t := by
  funext v
  rw [hostAddr, hostAddr, h.backing]

theorem tableOk_empty (l : Layout) : TableOk l {} := by
  refine ⟨fun page => ?_, fun page h => absurd rfl h⟩
  simp

theorem tableOk_getD {tables : List PageTable} (h : ∀ t ∈ tables, TableOk l t) (i : Nat) :
    TableOk l (tables.getD i {}) := by
  rw [List.getD_eq_getElem?_getD]
  cases ht : tables[i]? with
  | none => exact tableOk_empty l
  | some t => exact h t (List.mem_of_getElem? ht)

theorem Coherent.table (h : Coherent l newer m) (i : Nat) : TableOk l (m.table i) :=
  tableOk_getD h.tables i

/-- Nothing newer is held of the bytes of a plain page. -/
theorem Coherent.of_plain (h : Coherent l newer m) (hp : Plain (m.table i) (v / pageSize))
    (ha : hostAddr l (m.table i) v = some a) : newer m.gpu a = none := by
  obtain ⟨p, hb, rfl⟩ := Option.map_eq_some_iff.mp ha
  refine h.plain _ ⟨m.table i, ?_, v / pageSize, p, hp, hb, by omega, ?_⟩
  · unfold Machine.table at *
    rw [List.getD_eq_getElem?_getD] at *
    cases ht : m.system.pageTableList[i]? with
    | none =>
      rw [ht] at hb
      cases hb
    | some t => exact List.mem_of_getElem? ht
  · have := Nat.mod_lt v (by decide : 0 < pageSize)
    omega

theorem Coherent.view_of_plain (h : Coherent l newer m) (hp : Plain (m.table i) (v / pageSize))
    (ha : hostAddr l (m.table i) v = some a) : view newer m a = m.host a :=
  view_of_none (h.of_plain hp ha)

namespace Settles

theorem refl (h : Coherent l newer m) : Settles l newer (fun _ => False) D m m where
  coherent := h
  tables := List.forall₂_same.mpr fun t _ => Uncached.refl l t
  fewer _ := .inr rfl
  settled _ := False.elim
  seen _ _ := rfl

theorem mono (h : Settles l newer R D m m') (hR : ∀ a, R' a → R a) (hD : ∀ a, D a → D' a) :
    Settles l newer R' D' m m' where
  coherent := h.coherent
  tables := h.tables
  fewer := h.fewer
  settled a ha := h.settled a (hR a ha)
  seen a ha := h.seen a fun hd => ha (hD a hd)

theorem trans (h : Settles l newer R D m m') (h' : Settles l newer R' D m' m'') :
    Settles l newer (fun a => R a ∨ R' a) D m m'' where
  coherent := h'.coherent
  tables := forall₂_trans (r := Uncached l) (fun _ _ _ => Uncached.trans) h.tables h'.tables
  fewer a := by
    rcases h'.fewer a with ha | ha
    · exact .inl ha
    · rw [ha]
      exact h.fewer a
  settled a := by
    rintro (ha | ha)
    · rcases h'.fewer a with hn | hn
      · exact hn
      · exact hn.trans (h.settled a ha)
    · exact h'.settled a ha
  seen a ha := (h'.seen a ha).trans (h.seen a ha)

theorem table (h : Settles l newer R D m m') (i : Nat) : Uncached l (m.table i) (m'.table i) := by
  unfold Machine.table
  rw [List.getD_eq_getElem?_getD, List.getD_eq_getElem?_getD]
  by_cases hi : i < m.system.pageTableList.length
  · have hi' : i < m'.system.pageTableList.length := h.tables.length_eq ▸ hi
    rw [List.getElem?_eq_getElem hi, List.getElem?_eq_getElem hi']
    exact h.tables.get hi hi'
  · rw [List.getElem?_eq_none (by omega), List.getElem?_eq_none (h.tables.length_eq ▸ by omega)]
    exact Uncached.refl l _

theorem hostAddr (h : Settles l newer R D m m') (i : Nat) :
    Paging.hostAddr l (m'.table i) = Paging.hostAddr l (m.table i) :=
  hostAddr_uncached (h.table i)

end Settles

/-! ## Virtual regions -/

/-- The host bytes of the rasterizer-cached addresses of a range. -/
def CacheRange (l : Layout) (start size a : Nat) : Prop :=
  ∃ j, j < size ∧ ∃ ref, l.getPointerForRasterizerCache (start + j) = some ref ∧ ref.getPtr = a

/-- The part of `CacheRange` in one of the four regions. -/
def RegionRange (l : Layout) (start size regionStart regionEnd a : Nat) : Prop :=
  ∃ j, j < size ∧ (regionStart ≤ start + j ∧ start + j < regionEnd) ∧
    ∃ ref, l.getPointerForRasterizerCache (start + j) = some ref ∧ ref.getPtr = a

/-- A region of virtual addresses that stand for the physical addresses from `paddrStart`. -/
def StandsFor (l : Layout) (regionStart regionEnd paddrStart : Nat) : Prop :=
  ∀ v, regionStart ≤ v → v < regionEnd → ∃ ref, l.getPointerForRasterizerCache v = some ref ∧
    l.hostOfPaddr (paddrStart + (v - regionStart)) = some ref.getPtr

theorem standsFor_linearHeap : StandsFor l linearHeapVaddr linearHeapVaddrEnd fcramPaddr := by
  intro v hge hlt
  have hp : fcramPaddr + (v - linearHeapVaddr) < fcramN3DSPaddrEnd := by
    unfold fcramPaddr linearHeapVaddr linearHeapVaddrEnd fcramN3DSPaddrEnd at *
    omega
  refine ⟨_, dif_pos ⟨hge, hlt⟩, ?_⟩
  rw [Layout.hostOfPaddr, if_pos ⟨by omega, hp⟩, Nat.add_sub_cancel_left]
  rfl

theorem standsFor_newLinearHeap :
    StandsFor l newLinearHeapVaddr newLinearHeapVaddrEnd fcramPaddr := by
  intro v hge hlt
  have hp : fcramPaddr + (v - newLinearHeapVaddr) < fcramN3DSPaddrEnd := by
    unfold fcramPaddr newLinearHeapVaddr newLinearHeapVaddrEnd fcramN3DSPaddrEnd at *
    omega
  have hnot : ¬ (linearHeapVaddr ≤ v ∧ v < linearHeapVaddrEnd) := by
    unfold newLinearHeapVaddr newLinearHeapVaddrEnd linearHeapVaddr linearHeapVaddrEnd at *
    omega
  refine ⟨_, (dif_neg hnot).trans (dif_pos ⟨hge, hlt⟩), ?_⟩
  rw [Layout.hostOfPaddr, if_pos ⟨by omega, hp⟩, Nat.add_sub_cancel_left]
  rfl

theorem standsFor_vram : StandsFor l vramVaddr vramVaddrEnd vramPaddr := by
  intro v hge hlt
  have hp : vramPaddr + (v - vramVaddr) < vramPaddrEnd ∧
      ¬ (fcramPaddr ≤ vramPaddr + (v - vramVaddr) ∧
        vramPaddr + (v - vramVaddr) < fcramN3DSPaddrEnd) := by
    unfold fcramPaddr fcramN3DSPaddrEnd vramPaddr vramVaddr vramVaddrEnd vramPaddrEnd at *
    omega
  have hnot : ¬ (linearHeapVaddr ≤ v ∧ v < linearHeapVaddrEnd) ∧
      ¬ (newLinearHeapVaddr ≤ v ∧ v < newLinearHeapVaddrEnd) := by
    unfold newLinearHeapVaddr newLinearHeapVaddrEnd linearHeapVaddr linearHeapVaddrEnd vramVaddr
      vramVaddrEnd at *
    omega
  refine ⟨_, (dif_neg hnot.1).trans ((dif_neg hnot.2).trans (dif_pos ⟨hge, hlt⟩)), ?_⟩
  rw [Layout.hostOfPaddr, if_neg hp.2, if_pos ⟨by omega, hp.1⟩, Nat.add_sub_cancel_left]
  rfl

theorem standsFor_pluginFb (hfb : l.pluginFbAddress ≠ 0) :
    StandsFor l plugin3GXFbVaddr plugin3GXFbVaddrEnd l.pluginFbAddress := by
  intro v hge hlt
  have hp := l.pluginFb
  have hrange : fcramPaddr ≤ l.pluginFbAddress + (v - plugin3GXFbVaddr) ∧
      l.pluginFbAddress + (v - plugin3GXFbVaddr) < fcramN3DSPaddrEnd := by
    unfold plugin3GXFbVaddr plugin3GXFbVaddrEnd plugin3GXFbSize at *
    omega
  have hnot : ¬ (linearHeapVaddr ≤ v ∧ v < linearHeapVaddrEnd) ∧
      ¬ (newLinearHeapVaddr ≤ v ∧ v < newLinearHeapVaddrEnd) ∧
      ¬ (vramVaddr ≤ v ∧ v < vramVaddrEnd) := by
    unfold newLinearHeapVaddr newLinearHeapVaddrEnd linearHeapVaddr linearHeapVaddrEnd vramVaddr
      vramVaddrEnd plugin3GXFbVaddr plugin3GXFbVaddrEnd at *
    omega
  refine ⟨_, (dif_neg hnot.1).trans ((dif_neg hnot.2.1).trans ((dif_neg hnot.2.2).trans
    (dif_pos ⟨⟨hge, hlt⟩, hfb⟩))), ?_⟩
  rw [Layout.hostOfPaddr, if_pos hrange]
  simp only [HostRef.getPtr, Layout.fcramMem, Option.some.injEq]
  omega

/-- An address with a pointer is in one of the four regions. -/
theorem region_of_pointer {ref : HostRef} (h : l.getPointerForRasterizerCache v = some ref) :
    (linearHeapVaddr ≤ v ∧ v < linearHeapVaddrEnd) ∨
    (newLinearHeapVaddr ≤ v ∧ v < newLinearHeapVaddrEnd) ∨
    (vramVaddr ≤ v ∧ v < vramVaddrEnd) ∨
    ((plugin3GXFbVaddr ≤ v ∧ v < plugin3GXFbVaddrEnd) ∧ l.pluginFbAddress ≠ 0) := by
  unfold Layout.getPointerForRasterizerCache at h
  split_ifs at h
  · exact .inl ‹_›
  · exact .inr (.inl ‹_›)
  · exact .inr (.inr (.inl ‹_›))
  · exact .inr (.inr (.inr ‹_›))

/-- The pointers of a region run in parallel to the addresses. -/
theorem pointer_cases {ref : HostRef} (h : l.getPointerForRasterizerCache v = some ref) :
    (0x14000000 ≤ v ∧ v < 0x1C000000 ∧ ref.getPtr + 0x14000000 = l.fcramPtr + v) ∨
    (0x30000000 ≤ v ∧ v < 0x40000000 ∧ ref.getPtr + 0x30000000 = l.fcramPtr + v) ∨
    (0x1F000000 ≤ v ∧ v < 0x1F600000 ∧ ref.getPtr + 0x1F000000 = l.vramPtr + v) ∨
    (0x06000000 ≤ v ∧ v < 0x060A9000 ∧
      ref.getPtr + 0x26000000 = l.fcramPtr + l.pluginFbAddress + v) := by
  have hlinear : linearHeapVaddr = 0x14000000 ∧ linearHeapVaddrEnd = 0x1C000000 := ⟨rfl, rfl⟩
  have hnew : newLinearHeapVaddr = 0x30000000 ∧ newLinearHeapVaddrEnd = 0x40000000 := ⟨rfl, rfl⟩
  have hvram : vramVaddr = 0x1F000000 ∧ vramVaddrEnd = 0x1F600000 := ⟨rfl, rfl⟩
  have hfb : plugin3GXFbVaddr = 0x6000000 ∧ plugin3GXFbVaddrEnd = 0x60A9000 := ⟨rfl, rfl⟩
  have hpaddr : fcramPaddr = 0x20000000 := rfl
  unfold Layout.getPointerForRasterizerCache at h
  split_ifs at h with h₁ h₂ h₃ h₄ <;> obtain rfl := Option.some.inj h <;>
    simp only [HostRef.getPtr, Layout.fcramMem, Layout.vramMem]
  · omega
  · omega
  · omega
  · have := l.pluginFb
    omega

/-- What a mode drops of a range. -/
def Drops (mode : FlushMode) (R : Nat → Prop) (a : Nat) : Prop := mode = .invalidate ∧ R a

/-- The physical range of an overlap has the host bytes of the overlap. -/
theorem hostRange_overlap (a : Nat) {regionStart regionEnd paddrStart start size : Nat}
    (hs : StandsFor l regionStart regionEnd paddrStart)
    (hlt : start < regionEnd) (hgt : regionStart < start + size) :
    l.HostRange (paddrStart + (max start regionStart - regionStart))
      (min (start + size) regionEnd - max start regionStart) a ↔
      RegionRange l start size regionStart regionEnd a := by
  constructor
  · rintro ⟨j, hj, ha⟩
    obtain ⟨ref, href, hhost⟩ := hs (max start regionStart + j) (by omega) (by omega)
    refine ⟨max start regionStart + j - start, by omega, ⟨by omega, by omega⟩, ref, ?_, ?_⟩
    · rwa [show start + (max start regionStart + j - start) = max start regionStart + j by omega]
    · rw [show paddrStart + (max start regionStart + j - regionStart) =
        paddrStart + (max start regionStart - regionStart) + j by omega, ha] at hhost
      exact (Option.some.inj hhost).symm
  · rintro ⟨j, hj, ⟨hge, hlt'⟩, ref, href, rfl⟩
    obtain ⟨ref', href', hhost⟩ := hs (start + j) hge hlt'
    rw [href] at href'
    obtain rfl := Option.some.inj href'
    refine ⟨start + j - max start regionStart, by omega, ?_⟩
    rwa [show paddrStart + (max start regionStart - regionStart) +
      (start + j - max start regionStart) = paddrStart + (start + j - regionStart) by omega]

theorem settles_checkRegion (hr : LawfulGpu l newer r) (h : Coherent l newer m) {mode : FlushMode}
    (hmode : mode ≠ .flushAndInvalidate) {start size regionStart regionEnd paddrStart : Nat}
    (hwrap : start + size < 2 ^ 32) (hs : StandsFor l regionStart regionEnd paddrStart) :
    Settles l newer (RegionRange l start size regionStart regionEnd)
      (Drops mode (RegionRange l start size regionStart regionEnd)) m
      (m.checkRegion r start size mode regionStart regionEnd paddrStart) := by
  unfold Machine.checkRegion
  rw [add32_eq hwrap]
  simp only
  split_ifs with hno
  · -- no overlap
    refine (Settles.refl h).mono ?_ fun a => id
    rintro a ⟨j, hj, hin, -⟩
    omega
  · have hiff := fun a => hostRange_overlap a hs (show start < regionEnd by omega)
      (show regionStart < start + size by omega)
    cases mode with
    | flush =>
      exact (hr.flush _ _ m h).mono (fun a => (hiff a).mpr) fun a => False.elim
    | invalidate =>
      exact (hr.invalidate _ _ m h).mono (fun a => (hiff a).mpr) fun a ha => ⟨rfl, (hiff a).mp ha⟩
    | flushAndInvalidate => exact absurd rfl hmode

/-- `RasterizerFlushVirtualRegion` settles the rasterizer-cached addresses of its range. -/
theorem settles_flushVirtualRegion (hr : LawfulGpu l newer r) (h : Coherent l newer m)
    (mode : FlushMode) (hmode : mode ≠ .flushAndInvalidate) {start size : Nat}
    (hwrap : start + size < 2 ^ 32) :
    Settles l newer (CacheRange l start size) (Drops mode (CacheRange l start size)) m
      (m.rasterizerFlushVirtualRegion l r start size mode) := by
  have hsub :
      ∀ regionStart regionEnd a, Drops mode (RegionRange l start size regionStart regionEnd) a →
      Drops mode (CacheRange l start size) a := by
    rintro regionStart regionEnd a ⟨hm, j, hj, -, href⟩
    exact ⟨hm, j, hj, href⟩
  unfold Machine.rasterizerFlushVirtualRegion
  have h₁ := settles_checkRegion hr h hmode hwrap standsFor_linearHeap
  have h₂ := settles_checkRegion hr h₁.coherent hmode hwrap standsFor_newLinearHeap
  have h₃ := settles_checkRegion hr h₂.coherent hmode hwrap standsFor_vram
  have h₁₂₃ := ((h₁.mono (fun _ => id) (hsub _ _)).trans (h₂.mono (fun _ => id) (hsub _ _))).trans
    (h₃.mono (fun _ => id) (hsub _ _))
  split_ifs with hfb
  · have h₄ := settles_checkRegion hr h₃.coherent hmode hwrap (standsFor_pluginFb hfb)
    refine (h₁₂₃.trans (h₄.mono (fun _ => id) (hsub _ _))).mono ?_ fun _ => id
    rintro a ⟨j, hj, ref, href, ha⟩
    rcases region_of_pointer href with hin | hin | hin | ⟨hin, -⟩
    · exact .inl (.inl (.inl ⟨j, hj, hin, ref, href, ha⟩))
    · exact .inl (.inl (.inr ⟨j, hj, hin, ref, href, ha⟩))
    · exact .inl (.inr ⟨j, hj, hin, ref, href, ha⟩)
    · exact .inr ⟨j, hj, hin, ref, href, ha⟩
  · refine h₁₂₃.mono ?_ fun _ => id
    rintro a ⟨j, hj, ref, href, ha⟩
    rcases region_of_pointer href with hin | hin | hin | ⟨-, hne⟩
    · exact .inl (.inl ⟨j, hj, hin, ref, href, ha⟩)
    · exact .inl (.inr ⟨j, hj, hin, ref, href, ha⟩)
    · exact .inr ⟨j, hj, hin, ref, href, ha⟩
    · exact absurd hne hfb

/-- Pointers for addresses that lie close to each other are as far apart as the addresses: between
two of the regions there is more than a page. -/
theorem pointer_add {ref ref' : HostRef} {j : Nat}
    (h : l.getPointerForRasterizerCache v = some ref)
    (h' : l.getPointerForRasterizerCache (v + j) = some ref') (hj : j ≤ pageSize) :
    ref'.getPtr = ref.getPtr + j := by
  have hv := pointer_cases h
  have hv' := pointer_cases h'
  unfold pageSize at hj
  omega

/-- The regions consist of whole pages. -/
theorem pointer_offset {ref : HostRef} {page offset : Nat}
    (h : l.getPointerForRasterizerCache (page * pageSize) = some ref) (ho : offset < pageSize) :
    ∃ ref', l.getPointerForRasterizerCache (page * pageSize + offset) = some ref' ∧
      ref'.getPtr = ref.getPtr + offset := by
  have hsome : ∃ ref', l.getPointerForRasterizerCache (page * pageSize + offset) = some ref' := by
    have hin := region_of_pointer h
    cases hp : l.getPointerForRasterizerCache (page * pageSize + offset) with
    | some ref' => exact ⟨ref', rfl⟩
    | none =>
      unfold Layout.getPointerForRasterizerCache at hp
      split_ifs at hp
      unfold linearHeapVaddr linearHeapVaddrEnd newLinearHeapVaddr newLinearHeapVaddrEnd vramVaddr
        vramVaddrEnd plugin3GXFbVaddr plugin3GXFbVaddrEnd pageSize at *
      omega
  obtain ⟨ref', href'⟩ := hsome
  exact ⟨ref', href', pointer_add h href' (by omega)⟩

/-! ## What the memory system itself does -/

/-- The page tables of a consistent memory system are well formed. -/
theorem Consistent.tableOk {s : MemorySystem} {cached : Nat → Bool} (h : Consistent l cached s)
    (ht : t ∈ s.pageTableList) : TableOk l t := by
  constructor
  · intro page
    have hpage := h.tables t ht page
    unfold PageOk at hpage
    cases htype : t.attributes page <;> simp only [htype] at hpage <;> simp [hpage]
  · intro page hmapped
    have hpage := h.tables t ht page
    unfold PageOk at hpage
    unfold backing
    cases htype : t.attributes page with
    | unmapped => exact absurd htype hmapped
    | memory =>
      rw [htype] at hpage
      simpa using hpage.2
    | memoryWatchpoint =>
      rw [htype] at hpage
      obtain ⟨-, -, info, hinfo, hmemory⟩ := hpage
      simpa [hinfo] using hmemory
    | rasterizerCachedMemory | rasterizerCachedMemoryWatchpoint =>
      rw [htype] at hpage
      have hp := h.marks.pointer hpage.1
      rw [Nat.mul_div_cancel _ (by decide : 0 < pageSize)] at hp
      simpa using hp

end GbaStation.Paging
