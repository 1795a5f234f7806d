import GbaStation.Paging.PageTable

/-!
# The page tables and the marker stay in step

Whether a page is rasterizer-cached is kept in two places, the marker and the page type, and the
type also says whether the page has a watchpoint. The invariant ties them together.

Marking a page twice in the same way finds a type it does not expect; the invariant rules that out
as long as every physical page is marked cached and uncached in turn.
-/

namespace GbaStation.Paging

open RasterizerCacheMarker
open Function (update_of_ne update)

variable {l : Layout} {m : RasterizerCacheMarker} {t : PageTable} {v w p q page : Nat} {c : Bool}

/-! ## Slots of the marker -/

/-- The slot of an address, by the number of its page. -/
theorem slotAt_cases (v : Nat) :
    (0x1F000 ≤ v / pageSize ∧ v / pageSize < 0x1F600 ∧
      slotAt v = some (.vram (v / pageSize - 0x1F000))) ∨
    (0x14000 ≤ v / pageSize ∧ v / pageSize < 0x1C000 ∧
      slotAt v = some (.linearHeap (v / pageSize - 0x14000))) ∨
    (0x30000 ≤ v / pageSize ∧ v / pageSize < 0x40000 ∧
      slotAt v = some (.newLinearHeap (v / pageSize - 0x30000))) ∨
    (0x6000 ≤ v / pageSize ∧ v / pageSize < 0x60A9 ∧
      slotAt v = some (.pluginFb (v / pageSize - 0x6000))) ∨
    (¬ (0x1F000 ≤ v / pageSize ∧ v / pageSize < 0x1F600) ∧
      ¬ (0x14000 ≤ v / pageSize ∧ v / pageSize < 0x1C000) ∧
      ¬ (0x30000 ≤ v / pageSize ∧ v / pageSize < 0x40000) ∧
      ¬ (0x6000 ≤ v / pageSize ∧ v / pageSize < 0x60A9) ∧ slotAt v = none) := by
  have hvram : vramVaddr = 0x1F000000 ∧ vramVaddrEnd = 0x1F600000 := ⟨rfl, rfl⟩
  have hlinear : linearHeapVaddr = 0x14000000 ∧ linearHeapVaddrEnd = 0x1C000000 := ⟨rfl, rfl⟩
  have hnew : newLinearHeapVaddr = 0x30000000 ∧ newLinearHeapVaddrEnd = 0x40000000 := ⟨rfl, rfl⟩
  have hfb : plugin3GXFbVaddr = 0x6000000 ∧ plugin3GXFbVaddrEnd = 0x60A9000 := ⟨rfl, rfl⟩
  have hpage : pageSize = 0x1000 := rfl
  unfold slotAt
  rw [hpage]
  by_cases h₁ : vramVaddr ≤ v ∧ v < vramVaddrEnd
  · refine .inl ⟨by omega, by omega, ?_⟩
    rw [if_pos h₁, show (v - vramVaddr) / 0x1000 = v / 0x1000 - 0x1F000 by omega]
  · rw [if_neg h₁]
    by_cases h₂ : linearHeapVaddr ≤ v ∧ v < linearHeapVaddrEnd
    · refine .inr (.inl ⟨by omega, by omega, ?_⟩)
      rw [if_pos h₂, show (v - linearHeapVaddr) / 0x1000 = v / 0x1000 - 0x14000 by omega]
    · rw [if_neg h₂]
      by_cases h₃ : newLinearHeapVaddr ≤ v ∧ v < newLinearHeapVaddrEnd
      · refine .inr (.inr (.inl ⟨by omega, by omega, ?_⟩))
        rw [if_pos h₃, show (v - newLinearHeapVaddr) / 0x1000 = v / 0x1000 - 0x30000 by omega]
      · rw [if_neg h₃]
        by_cases h₄ : plugin3GXFbVaddr ≤ v ∧ v < plugin3GXFbVaddrEnd
        · refine .inr (.inr (.inr (.inl ⟨by omega, by omega, ?_⟩)))
          rw [if_pos h₄, show (v - plugin3GXFbVaddr) / 0x1000 = v / 0x1000 - 0x6000 by omega]
        · rw [if_neg h₄]
          exact .inr (.inr (.inr (.inr ⟨by omega, by omega, by omega, by omega, rfl⟩)))

theorem slotAt_congr (h : v / pageSize = w / pageSize) : slotAt v = slotAt w := by
  have hv := slotAt_cases v
  have hw := slotAt_cases w
  rw [h] at hv
  rcases hv with hv | hv | hv | hv | hv <;> rcases hw with hw | hw | hw | hw | hw <;>
    first | omega | simp only [hv, hw]

theorem page_of_slotAt (hs : (slotAt v).isSome) (h : slotAt v = slotAt w) :
    v / pageSize = w / pageSize := by
  rcases slotAt_cases v with hv | hv | hv | hv | hv <;>
    rcases slotAt_cases w with hw | hw | hw | hw | hw <;>
    simp only [hv, hw, Option.some.injEq, reduceCtorEq, MarkerSlot.vram.injEq,
      MarkerSlot.linearHeap.injEq, MarkerSlot.newLinearHeap.injEq, MarkerSlot.pluginFb.injEq,
      Option.isSome_none, Bool.false_eq_true] at h hs
  all_goals omega

theorem isCached_congr (h : v / pageSize = w / pageSize) : m.isCached v = m.isCached w := by
  rw [isCached, isCached, slotAt_congr h]

theorem isCached_mark (hs : (slotAt v).isSome) (w : Nat) :
    (m.mark v c).isCached w = if w / pageSize = v / pageSize then c else m.isCached w := by
  obtain ⟨slot, hslot⟩ := Option.isSome_iff_exists.mp hs
  by_cases h : w / pageSize = v / pageSize
  · rw [if_pos h, isCached, slotAt_congr h, hslot]
    simp [mark, hslot]
  · rw [if_neg h]
    have hne : slotAt w ≠ some slot := by
      intro hw
      exact h (page_of_slotAt hs (hslot.trans hw.symm)).symm
    simp only [isCached, mark, hslot]
    cases hw : slotAt w with
    | none => rfl
    | some slot' =>
      refine update_of_ne ?_ _ _
      rintro rfl
      exact hne hw

/-! ## The virtual addresses of a physical page -/

/-- The four ways in which a virtual address stands for a physical one. -/
theorem mem_alias : v ∈ l.physicalToVirtualAddressForRasterizer p ↔
    (0x18000000 ≤ p ∧ p < 0x18600000 ∧ v = p + 0x07000000) ∨
    ((l.pluginFbAddress ≠ 0 ∧ l.pluginFbAddress ≤ p ∧ p < l.pluginFbAddress + 0xA9000) ∧
      v + l.pluginFbAddress = p + 0x06000000) ∨
    (¬ (l.pluginFbAddress ≠ 0 ∧ l.pluginFbAddress ≤ p ∧ p < l.pluginFbAddress + 0xA9000) ∧
      0x20000000 ≤ p ∧
      (p < 0x28000000 ∧ v + 0x0C000000 = p ∨ p < 0x30000000 ∧ v = p + 0x10000000)) := by
  have hfb := l.pluginFb
  unfold Layout.physicalToVirtualAddressForRasterizer
  split_ifs <;> simp only [List.mem_cons, List.not_mem_nil, or_false, false_iff, pageSize,
    vramVaddr,
    linearHeapVaddr, newLinearHeapVaddr, plugin3GXFbVaddr, vramPaddr, vramPaddrEnd, plugin3GXFbSize,
    fcramPaddr, fcramPaddrEnd, fcramN3DSPaddrEnd] at * <;> omega

theorem slotAt_of_alias (h : v ∈ l.physicalToVirtualAddressForRasterizer p) :
    (slotAt v).isSome := by
  rw [mem_alias] at h
  have hv := slotAt_cases v
  simp only [pageSize] at *
  rcases hv with hv | hv | hv | hv | hv
  all_goals first | (rw [hv.2.2]; rfl) | omega

/-- Every address the marker can be set at has memory behind it. -/
theorem pointer_of_alias (h : v ∈ l.physicalToVirtualAddressForRasterizer p) :
    (l.getPointerForRasterizerCache (v / pageSize * pageSize)).isSome := by
  rw [mem_alias] at h
  unfold Layout.getPointerForRasterizerCache
  split_ifs
  · rfl
  · rfl
  · rfl
  · rfl
  · simp only [pageSize, vramVaddr, vramVaddrEnd, linearHeapVaddr, linearHeapVaddrEnd,
      newLinearHeapVaddr, newLinearHeapVaddrEnd, plugin3GXFbVaddr, plugin3GXFbVaddrEnd] at *
    omega

/-- A virtual page stands for at most one physical page. -/
theorem page_of_alias (hv : v ∈ l.physicalToVirtualAddressForRasterizer p)
    (hw : w ∈ l.physicalToVirtualAddressForRasterizer q) (h : v / pageSize = w / pageSize) :
    p / pageSize = q / pageSize := by
  have hfb := l.pluginFb
  rw [mem_alias] at hv hw
  simp only [pageSize, plugin3GXFbSize, fcramPaddr, fcramN3DSPaddrEnd] at *
  omega

/-- The virtual pages depend on the physical page only. -/
theorem alias_congr (h : p / pageSize = q / pageSize)
    (hv : v ∈ l.physicalToVirtualAddressForRasterizer p) :
    ∃ w ∈ l.physicalToVirtualAddressForRasterizer q, w / pageSize = v / pageSize := by
  have hfb := l.pluginFb
  simp only [mem_alias] at *
  simp only [pageSize, plugin3GXFbSize, fcramPaddr, fcramN3DSPaddrEnd] at *
  refine ⟨v + q - p, ?_, ?_⟩ <;> omega

theorem alias_pairwise (l : Layout) (p : Nat) :
    (l.physicalToVirtualAddressForRasterizer p).Pairwise fun v w =>
      v / pageSize ≠ w / pageSize := by
  unfold Layout.physicalToVirtualAddressForRasterizer
  split_ifs
  · exact List.pairwise_singleton _ _
  · exact List.pairwise_singleton _ _
  · rw [List.pairwise_pair]
    simp only [pageSize, linearHeapVaddr, newLinearHeapVaddr]
    omega
  · exact List.pairwise_singleton _ _
  · exact List.Pairwise.nil

/-! ## The invariant -/

/-- What the type of a page says about its pointer, its watchpoint entry and the marker. -/
def PageOk (m : RasterizerCacheMarker) (t : PageTable) (page : Nat) : Prop :=
  match t.attributes page with
  | .unmapped => t.pointers page = none
  | .memory => m.isCached (page * pageSize) = false ∧ (t.pointers page).isSome
  | .rasterizerCachedMemory => m.isCached (page * pageSize) = true ∧ t.pointers page = none
  | .memoryWatchpoint => m.isCached (page * pageSize) = false ∧ t.pointers page = none ∧
      ∃ info, t.watchpointPagesMap page = some info ∧ info.memory.isSome
  | .rasterizerCachedMemoryWatchpoint => m.isCached (page * pageSize) = true ∧
      t.pointers page = none ∧
      ∃ info, t.watchpointPagesMap page = some info ∧ info.memory.isSome

/-- Every page of every registered page table is as its type says. -/
def TablesOk (s : MemorySystem) : Prop :=
  ∀ t ∈ s.pageTableList, ∀ page, PageOk s.cacheMarker t page

/-- The marker is set at the virtual addresses of the cached physical pages, and only there. -/
def Marks (l : Layout) (m : RasterizerCacheMarker) (cached : Nat → Bool) : Prop :=
  ∀ v, m.isCached v = true ↔ ∃ p w, cached (p / pageSize) = true ∧
    w ∈ l.physicalToVirtualAddressForRasterizer p ∧ w / pageSize = v / pageSize

/-- Wherever the marker is set there is memory. -/
theorem Marks.pointer {cached : Nat → Bool} (h : Marks l m cached) (hv : m.isCached v = true) :
    (l.getPointerForRasterizerCache (v / pageSize * pageSize)).isSome := by
  obtain ⟨p, w, -, hw, hwv⟩ := (h v).mp hv
  rw [← hwv]
  exact pointer_of_alias hw

theorem PageOk.congr {m' : RasterizerCacheMarker} {t' : PageTable} (h : PageOk m t page)
    (hm : m'.isCached (page * pageSize) = m.isCached (page * pageSize))
    (hattributes : t'.attributes page = t.attributes page)
    (hpointers : t'.pointers page = t.pointers page)
    (hinfo : t'.watchpointPagesMap page = t.watchpointPagesMap page) : PageOk m' t' page := by
  unfold PageOk at *
  rw [hm, hattributes, hpointers, hinfo]
  exact h

/-- A change of one page keeps the others as they are. -/
theorem pagesOk_of_page {t' : PageTable} (page : Nat) (h : ∀ page, PageOk m t page)
    (hother : ∀ page', page' ≠ page → t'.attributes page' = t.attributes page' ∧
      t'.pointers page' = t.pointers page' ∧
      t'.watchpointPagesMap page' = t.watchpointPagesMap page')
    (hpage : PageOk m t' page) (page' : Nat) : PageOk m t' page' := by
  by_cases heq : page' = page
  · rw [heq]
    exact hpage
  · obtain ⟨hattributes, hpointers, hinfo⟩ := hother page' heq
    exact (h page').congr rfl hattributes hpointers hinfo

section Fields

variable (t) (page page' : Nat) (type : PageType) (memory : MemoryRef)
  (info : Option WatchpointPageInfo)

@[simp] theorem attributes_setPage : (t.setPage page type memory).attributes =
    update t.attributes page type := rfl

@[simp] theorem pointers_setPage : (t.setPage page type memory).pointers =
    update t.pointers page memory := rfl

@[simp] theorem info_setPage : (t.setPage page type memory).watchpointPagesMap =
    t.watchpointPagesMap := rfl

@[simp] theorem attributes_setType : (t.setType page type).attributes =
    update t.attributes page type := rfl

@[simp] theorem pointers_setType : (t.setType page type).pointers = t.pointers := rfl

@[simp] theorem info_setType : (t.setType page type).watchpointPagesMap = t.watchpointPagesMap :=
  rfl

@[simp] theorem attributes_setInfo : (t.setInfo page info).attributes = t.attributes := rfl

@[simp] theorem pointers_setInfo : (t.setInfo page info).pointers = t.pointers := rfl

@[simp] theorem info_setInfo : (t.setInfo page info).watchpointPagesMap =
    update t.watchpointPagesMap page info := rfl

end Fields

/-! ## Mapping and watchpoints -/

theorem pagesOk_mapPage {base : Nat} {memory : MemoryRef} {type : PageType}
    (h : ∀ page, PageOk m t page)
    (htype : type = .memory ∧ memory.isSome ∨ type = .unmapped ∧ memory = none) :
    ∀ page, PageOk m (t.mapPage m base memory type) page := by
  refine pagesOk_of_page base h ?_ ?_
  · intro page' hne
    unfold PageTable.mapPage
    split <;> simp [hne]
  · unfold PageTable.mapPage PageOk
    rcases htype with ⟨rfl, hmemory⟩ | ⟨rfl, rfl⟩
    · cases hc : m.isCached (base * pageSize) with
      | true => simp
      | false => simpa [hc] using hmemory
    · simp

theorem stops_mapPages {type : PageType} : ∀ (size : Nat) {t : PageTable} {base : Nat}
    {memory : MemoryRef}, (∀ page, PageOk m t page) →
    (type = .memory ∧ memory.isSome ∨ type = .unmapped ∧ memory = none) →
    Stops (fun t' => ∀ page, PageOk m t' page) (· ≠ .unreachable)
      (t.mapPages m type base size memory)
  | 0, _, _, _, h, _ => h
  | size + 1, t, base, memory, h, htype => by
    unfold PageTable.mapPages
    split
    · refine stops_mapPages size (pagesOk_mapPage h htype) ?_
      cases memory with
      | none => simpa using htype
      | some r => simpa using htype
    · simp

theorem stops_mapRegion {base size : Nat} {memory : MemoryRef} {type : PageType}
    (h : ∀ page, PageOk m t page)
    (htype : type = .memory ∧ memory.isSome ∨ type = .unmapped ∧ memory = none) :
    Stops (fun t' => ∀ page, PageOk m t' page) (· ≠ .unreachable)
      (t.mapRegion m base size memory type) := by
  unfold PageTable.mapRegion
  split
  · simp
  · exact stops_mapPages _ h htype

theorem stops_registerPage {cached : Nat → Bool} (hm : Marks l m cached)
    (h : ∀ page, PageOk m t page) (page : Nat) :
    Stops (fun t' => ∀ page, PageOk m t' page) (· ≠ .unreachable) (t.registerPage l page) := by
  have hpage := h page
  unfold PageTable.registerPage
  cases hinfo : t.watchpointPagesMap page with
  | some info =>
    refine pagesOk_of_page page h ?_ ?_
    · intro page' hne
      simp [hne]
    · -- the entry keeps its memory
      unfold PageOk at *
      simpa [hinfo] using hpage
  | none =>
    cases htype : t.attributes page with
    | memory =>
      refine pagesOk_of_page page h ?_ ?_
      · intro page' hne
        simp [hne]
      · simp only [PageOk, htype] at hpage
        simp [PageOk, hpage]
    | rasterizerCachedMemory =>
      simp only [PageOk, htype] at hpage
      obtain ⟨ref, href⟩ := Option.isSome_iff_exists.mp (hm.pointer hpage.1)
      rw [Nat.mul_div_cancel _ (by decide)] at href
      simp only [href]
      refine pagesOk_of_page page h ?_ ?_
      · intro page' hne
        simp [hne]
      · simp [PageOk, hpage]
    | unmapped => simp
    | memoryWatchpoint => simp
    | rasterizerCachedMemoryWatchpoint => simp

theorem pagesOk_unregisterPage (h : ∀ page, PageOk m t page) (page : Nat) :
    ∀ page', PageOk m (t.unregisterPage page) page' := by
  have hpage := h page
  unfold PageTable.unregisterPage
  cases hinfo : t.watchpointPagesMap page with
  | none => exact h
  | some info =>
    simp only
    split
    · cases htype : t.attributes page with
      | memoryWatchpoint =>
        refine pagesOk_of_page page h ?_ ?_
        · intro page' hne
          simp [hne]
        · simp only [PageOk, htype, hinfo, Option.some.injEq, exists_eq_left'] at hpage
          simp [PageOk, hpage]
      | rasterizerCachedMemoryWatchpoint =>
        refine pagesOk_of_page page h ?_ ?_
        · intro page' hne
          simp [hne]
        · simp only [PageOk, htype] at hpage
          simp [PageOk, hpage]
      | unmapped | memory | rasterizerCachedMemory =>
        refine pagesOk_of_page page h ?_ ?_
        · intro page' hne
          simp [hne]
        · simp only [PageOk, htype] at hpage
          simp [PageOk, htype, hpage]
    · refine pagesOk_of_page page h ?_ ?_
      · intro page' hne
        simp [hne]
      · unfold PageOk at *
        simpa [hinfo] using hpage

theorem stops_overPages {I : PageTable → Prop} {body : PageTable → Nat → Except Abort PageTable}
    {addr size : Nat} (hbody : ∀ t page, I t → Stops I (· ≠ .unreachable) (body t page)) (h : I t) :
    Stops I (· ≠ .unreachable) (t.overPages body addr size) := by
  unfold PageTable.overPages
  simp only
  split
  · refine (Stops.foldlM (I := fun _ => I) (fun page _ t ht => hbody t page ht) _ _ h).bind ?_
    intro t' ht'
    split
    · simp
    · exact ht'
  · exact h

/-! ## Marking -/

/-- Marking the address of a page that is not yet marked so keeps every page of the table. -/
theorem stops_markPage (h : ∀ page, PageOk m t page) (hs : (slotAt v).isSome)
    (hp : (l.getPointerForRasterizerCache (v / pageSize * pageSize)).isSome)
    (hc : m.isCached v = !c) :
    Stops (fun t' => ∀ page, PageOk (m.mark v c) t' page) (· ≠ .unreachable)
      (t.markPage l v c) := by
  have hpage := h (v / pageSize)
  have hbase : v / pageSize * pageSize / pageSize = v / pageSize := Nat.mul_div_cancel _ (by decide)
  have hold : m.isCached (v / pageSize * pageSize) = !c := by rw [isCached_congr hbase, hc]
  have hnew : (m.mark v c).isCached (v / pageSize * pageSize) = c := by
    rw [isCached_mark hs, if_pos hbase]
  -- the other pages see neither the new type nor the new mark
  have hother : ∀ t' : PageTable, (∀ page, page ≠ v / pageSize →
      t'.attributes page = t.attributes page ∧ t'.pointers page = t.pointers page ∧
      t'.watchpointPagesMap page = t.watchpointPagesMap page) →
      PageOk (m.mark v c) t' (v / pageSize) → ∀ page, PageOk (m.mark v c) t' page := by
    intro t' hsame hok page
    by_cases heq : page = v / pageSize
    · rw [heq]
      exact hok
    · obtain ⟨hattributes, hpointers, hinfo⟩ := hsame page heq
      refine (h page).congr ?_ hattributes hpointers hinfo
      rw [isCached_mark hs, if_neg]
      rwa [Nat.mul_div_cancel _ (by decide : 0 < pageSize)]
  obtain ⟨ref, href⟩ := Option.isSome_iff_exists.mp hp
  unfold PageTable.markPage
  cases c with
  | true =>
    simp only [↓reduceIte]
    cases htype : t.attributes (v / pageSize) with
    | unmapped =>
      simp only [PageOk, htype] at hpage
      exact stops_ok.mpr
        (hother t (fun _ _ => ⟨rfl, rfl, rfl⟩) (by simpa [PageOk, htype] using hpage))
    | memory =>
      refine stops_ok.mpr (hother _ (fun page hne => by simp [hne]) ?_)
      simp [PageOk, hnew]
    | memoryWatchpoint =>
      simp only [PageOk, htype] at hpage
      refine stops_ok.mpr (hother _ (fun page hne => by simp [hne]) ?_)
      simp [PageOk, hnew, hpage]
    | rasterizerCachedMemory | rasterizerCachedMemoryWatchpoint =>
      -- such a page is marked already
      simp [PageOk, htype, hold] at hpage
  | false =>
    simp only [Bool.false_eq_true, ↓reduceIte]
    cases htype : t.attributes (v / pageSize) with
    | unmapped =>
      simp only [PageOk, htype] at hpage
      exact stops_ok.mpr
        (hother t (fun _ _ => ⟨rfl, rfl, rfl⟩) (by simpa [PageOk, htype] using hpage))
    | rasterizerCachedMemory =>
      simp only [href]
      refine stops_ok.mpr (hother _ (fun page hne => by simp [hne]) ?_)
      simp [PageOk, hnew]
    | rasterizerCachedMemoryWatchpoint =>
      simp only [PageOk, htype] at hpage
      refine stops_ok.mpr (hother _ (fun page hne => by simp [hne]) ?_)
      simp [PageOk, hnew, hpage]
    | memory | memoryWatchpoint =>
      simp [PageOk, htype, hold] at hpage

theorem stops_markVaddr {s : MemorySystem} (h : TablesOk s) (hs : (slotAt v).isSome)
    (hp : (l.getPointerForRasterizerCache (v / pageSize * pageSize)).isSome)
    (hc : s.cacheMarker.isCached v = !c) :
    Stops (fun s' => TablesOk s' ∧ s'.cacheMarker = s.cacheMarker.mark v c) (· ≠ .unreachable)
      (s.markVaddr l c v) := by
  refine (Stops.mapM fun t ht => stops_markPage (h t ht) hs hp hc).bind ?_
  intro tables htables
  exact ⟨htables, rfl⟩

/-- Marking the virtual addresses of a physical page, one after the other: what is still to be
marked is marked the other way, and what is done is marked as asked. -/
theorem stops_markAliases : ∀ (vs : List Nat) {s : MemorySystem}, TablesOk s →
    vs.Pairwise (fun v w => v / pageSize ≠ w / pageSize) →
    (∀ v ∈ vs, (slotAt v).isSome ∧ s.cacheMarker.isCached v = (!c) ∧
      (l.getPointerForRasterizerCache (v / pageSize * pageSize)).isSome) →
    Stops (fun s' => TablesOk s' ∧ ∀ w, s'.cacheMarker.isCached w =
        if ∃ v ∈ vs, v / pageSize = w / pageSize then c else s.cacheMarker.isCached w)
      (· ≠ .unreachable) (vs.foldlM (fun s v => s.markVaddr l c v) s)
  | [], s, h, _, _ => by simpa [Stops, pure, Except.pure] using h
  | v :: vs, s, h, hpair, hvs => by
    obtain ⟨hs, hc, hp⟩ := hvs v List.mem_cons_self
    obtain ⟨hv, hpair⟩ := List.pairwise_cons.mp hpair
    rw [List.foldlM_cons]
    refine (stops_markVaddr h hs hp hc).bind ?_
    rintro s' ⟨h', hm⟩
    have hmark : ∀ w, s'.cacheMarker.isCached w =
        if w / pageSize = v / pageSize then c else s.cacheMarker.isCached w := by
      rw [hm]
      exact isCached_mark hs
    refine (stops_markAliases vs h' hpair ?_).mono ?_
    · intro w hw
      obtain ⟨hsw, hcw, hpw⟩ := hvs w (List.mem_cons_of_mem _ hw)
      refine ⟨hsw, ?_, hpw⟩
      rw [hmark, if_neg (fun heq => hv w hw heq.symm), hcw]
    · rintro s'' ⟨h'', hm''⟩
      refine ⟨h'', fun w => ?_⟩
      rw [hm'', hmark]
      by_cases hw : ∃ v ∈ vs, v / pageSize = w / pageSize
      · rw [if_pos hw, if_pos]
        obtain ⟨v', hv', heq⟩ := hw
        exact ⟨v', List.mem_cons_of_mem _ hv', heq⟩
      · rw [if_neg hw]
        by_cases heq : w / pageSize = v / pageSize
        · rw [if_pos heq, if_pos ⟨v, List.mem_cons_self, heq.symm⟩]
        · rw [if_neg heq, if_neg]
          rintro ⟨v', hv', heq'⟩
          cases hv' with
          | head => exact heq heq'.symm
          | tail _ hv' => exact hw ⟨v', hv', heq'⟩

/-- The invariant: page tables and marker agree with each other and with the pages that are
cached. -/
structure Consistent (l : Layout) (cached : Nat → Bool) (s : MemorySystem) : Prop where
  tables : TablesOk s
  marks : Marks l s.cacheMarker cached

/-- Marking a physical page that was marked the other way. -/
theorem stops_markPaddr {s : MemorySystem} {cached : Nat → Bool} (h : Consistent l cached s)
    (hc : cached (p / pageSize) = !c) :
    Stops (Consistent l (update cached (p / pageSize) c)) (· ≠ .unreachable)
      (s.markPaddr l c p) := by
  have hcached : ∀ v ∈ l.physicalToVirtualAddressForRasterizer p,
      s.cacheMarker.isCached v = !c := by
    intro v hv
    rw [Bool.eq_iff_iff, h.marks v, ← hc]
    constructor
    · rintro ⟨q, w, hq, hw, heq⟩
      rwa [page_of_alias hv hw heq.symm]
    · intro hp
      exact ⟨p, v, hp, hv, rfl⟩
  refine (stops_markAliases _ h.tables (alias_pairwise l p) fun v hv =>
    ⟨slotAt_of_alias hv, hcached v hv, pointer_of_alias hv⟩).mono ?_
  rintro s' ⟨h', hm⟩
  refine ⟨h', fun w => ?_⟩
  rw [hm w]
  by_cases hw : ∃ v ∈ l.physicalToVirtualAddressForRasterizer p, v / pageSize = w / pageSize
  · obtain ⟨v, hv, heq⟩ := hw
    rw [if_pos ⟨v, hv, heq⟩]
    constructor
    · intro hct
      exact ⟨p, v, by simpa using hct, hv, heq⟩
    · rintro ⟨q, v', hq, hv', heq'⟩
      rw [← page_of_alias hv hv' (heq.trans heq'.symm)] at hq
      simpa using hq
  · rw [if_neg hw, h.marks w]
    refine exists_congr fun q => exists_congr fun v => and_congr_left ?_
    rintro ⟨hv, heq⟩
    rw [update_of_ne]
    intro hq
    obtain ⟨v', hv', heq'⟩ := alias_congr hq hv
    exact hw ⟨v', hv', heq'.trans heq⟩

/-! ## Runs -/

namespace MemorySystem

/-- The marks of a call: the pages it goes through, and how it marks them. -/
def Op.marks : Op → List (Nat × Bool)
  | .rasterizerMarkRegionCached start size cached =>
    (markedPaddrs start size).map fun p => (p / pageSize, cached)
  | _ => []

/-- How a physical page is marked by a sequence of marks. -/
def marksOf (page : Nat) (trace : List (Nat × Bool)) : List Bool :=
  (trace.filter fun mark => mark.1 = page).map fun mark => mark.2

/-- Each mark of a page differs from the one before it. -/
def AlternatesFrom (cached : Nat → Bool) (trace : List (Nat × Bool)) : Prop :=
  ∀ page, (cached page :: marksOf page trace).IsChain (· ≠ ·)

/-- Every physical page is marked cached and uncached alternately. No page is cached at first. -/
def MarkedAlternately (ops : List Op) : Prop :=
  AlternatesFrom (fun _ => false) (ops.flatMap Op.marks)

variable {s : MemorySystem} {cached : Nat → Bool} {trace : List (Nat × Bool)}

theorem AlternatesFrom.cons (h : AlternatesFrom cached ((page, c) :: trace)) :
    cached page = (!c) ∧ AlternatesFrom (update cached page c) trace := by
  constructor
  · have hpage := h page
    rw [marksOf, List.filter_cons_of_pos (by simp), List.map_cons, List.isChain_cons_cons] at hpage
    revert hpage
    cases cached page <;> cases c <;> simp
  · intro page'
    have hpage := h page'
    by_cases heq : page' = page
    · subst heq
      rw [marksOf, List.filter_cons_of_pos (by simp), List.map_cons,
        List.isChain_cons_cons] at hpage
      rw [Function.update_self]
      exact hpage.2
    · rw [marksOf, List.filter_cons_of_neg (by simpa using fun h => heq h.symm)] at hpage
      rwa [update_of_ne heq]

/-- The loop over the pages of a region uses up the marks of the call. -/
theorem stops_markRegion {start size : Nat} (h : Consistent l cached s)
    (halt : AlternatesFrom cached ((Op.rasterizerMarkRegionCached start size c).marks ++ trace)) :
    Stops (fun s' => ∃ cached', Consistent l cached' s' ∧ AlternatesFrom cached' trace)
      (· ≠ .unreachable) (s.rasterizerMarkRegionCached l start size c) := by
  refine Stops.foldlM (I := fun ps s => ∃ cached, Consistent l cached s ∧
    AlternatesFrom cached ((ps.map fun p => (p / pageSize, c)) ++ trace)) ?_ _ _ ⟨cached, h, halt⟩
  rintro p ps s ⟨cached, h, halt⟩
  obtain ⟨hp, hrest⟩ := halt.cons
  exact (stops_markPaddr h hp).mono fun s' h' => ⟨_, h', hrest⟩

/-- A change of one page table that leaves the marker alone. -/
theorem stops_onTable {i : Nat} {f : PageTable → Except Abort PageTable} (h : Consistent l cached s)
    (hf : ∀ t, (∀ page, PageOk s.cacheMarker t page) →
      Stops (fun t' => ∀ page, PageOk s.cacheMarker t' page) (· ≠ .unreachable) (f t)) :
    Stops (Consistent l cached) (· ≠ .unreachable) (s.onTable i f) := by
  unfold onTable
  cases ht : s.pageTableList[i]? with
  | none => exact h
  | some t =>
    refine (hf t (h.tables t (List.mem_of_getElem? ht))).bind fun t' ht' => ?_
    refine ⟨?_, h.marks⟩
    intro u hu
    rcases List.mem_or_eq_of_mem_set hu with hu | rfl
    · exact h.tables u hu
    · exact ht'

/-- One call. -/
theorem stops_step (op : Op) (h : Consistent l cached s)
    (halt : AlternatesFrom cached (op.marks ++ trace)) :
    Stops (fun s' => ∃ cached', Consistent l cached' s' ∧ AlternatesFrom cached' trace)
      (· ≠ .unreachable) (s.step l op) := by
  cases op with
  | registerPageTable =>
    refine ⟨cached, ⟨?_, h.marks⟩, halt⟩
    intro t ht
    rcases List.mem_append.mp ht with ht | ht
    · exact h.tables t ht
    · -- a cleared table
      rw [List.mem_singleton.mp ht]
      exact fun page => rfl
  | unregisterPageTable i =>
    exact ⟨cached, ⟨fun t ht => h.tables t (List.mem_of_mem_eraseIdx ht), h.marks⟩, halt⟩
  | mapMemoryRegion i base size target =>
    exact (stops_onTable h fun t ht => stops_mapRegion ht (.inl ⟨rfl, rfl⟩)).mono
      fun s' h' => ⟨cached, h', halt⟩
  | unmapRegion i base size =>
    exact (stops_onTable h fun t ht => stops_mapRegion ht (.inr ⟨rfl, rfl⟩)).mono
      fun s' h' => ⟨cached, h', halt⟩
  | registerWatchpoint i addr size =>
    exact (stops_onTable h fun t ht => stops_overPages
      (fun t page ht => stops_registerPage h.marks ht page) ht).mono
      fun s' h' => ⟨cached, h', halt⟩
  | unregisterWatchpoint i addr size =>
    refine (stops_onTable h fun t ht => ?_).mono fun s' h' => ⟨cached, h', halt⟩
    exact stops_overPages (fun t page ht => stops_ok.mpr (pagesOk_unregisterPage ht page)) ht
  | rasterizerMarkRegionCached start size c => exact stops_markRegion h halt

theorem consistent_empty : Consistent l (fun _ => false) {} := by
  refine ⟨fun t ht => absurd ht List.not_mem_nil, fun v => ?_⟩
  constructor
  · intro hv
    unfold isCached at hv
    split at hv <;> cases hv
  · rintro ⟨p, w, hp, -⟩
    cases hp

theorem stops_run {ops : List Op} (h : MarkedAlternately ops) :
    Stops (fun s => ∃ cached, Consistent l cached s) (· ≠ .unreachable) (run l ops) := by
  refine (Stops.foldlM (I := fun ops s => ∃ cached, Consistent l cached s ∧
    AlternatesFrom cached (ops.flatMap Op.marks)) ?_ ops _ ⟨_, consistent_empty, h⟩).mono ?_
  · rintro op ops s ⟨cached, hs, halt⟩
    rw [List.flatMap_cons] at halt
    exact stops_step op hs halt
  · rintro s ⟨cached, hs, -⟩
    exact ⟨cached, hs⟩

/-- **Rasterizer-cached pages.** In every state a run reaches in which the physical pages are marked
cached and uncached alternately, for every registered page table and address:

- a mapped page the marker reports as cached has a rasterizer-cached type and no pointer,
- a page that is not marked has no rasterizer-cached type,
- a page of type `Memory` has a pointer.

No such run takes an `UNREACHABLE` branch. -/
theorem rasterizer_pages (l : Layout) (ops : List Op) (h : MarkedAlternately ops) :
    (∀ s, run l ops = .ok s → ∀ t ∈ s.pageTableList, ∀ vaddr,
      (t.attributes (vaddr / pageSize) ≠ .unmapped → s.cacheMarker.isCached vaddr = true →
        (t.attributes (vaddr / pageSize) = .rasterizerCachedMemory ∨
          t.attributes (vaddr / pageSize) = .rasterizerCachedMemoryWatchpoint) ∧
        t.pointers (vaddr / pageSize) = none) ∧
      (s.cacheMarker.isCached vaddr = false →
        t.attributes (vaddr / pageSize) ≠ .rasterizerCachedMemory ∧
        t.attributes (vaddr / pageSize) ≠ .rasterizerCachedMemoryWatchpoint) ∧
      (t.attributes (vaddr / pageSize) = .memory → (t.pointers (vaddr / pageSize)).isSome)) ∧
    run l ops ≠ .error .unreachable := by
  have hrun := stops_run (l := l) h
  constructor
  · intro s hs t ht vaddr
    rw [hs] at hrun
    obtain ⟨cached, hcons⟩ := hrun
    have hpage := hcons.tables t ht (vaddr / pageSize)
    rw [isCached_congr (Nat.mul_div_cancel (vaddr / pageSize) (by decide : 0 < pageSize)).symm]
    unfold PageOk at hpage
    revert hpage
    cases t.attributes (vaddr / pageSize) <;> simp <;> intros <;> simp_all
  · intro hbad
    rw [hbad] at hrun
    exact hrun rfl

/-- A page of the linear heap is cached, gets a watchpoint, and is uncached again. -/
def exampleOps : List Op :=
  [.registerPageTable,
    .mapMemoryRegion 0 0x14000000 0x2000 ⟨⟨0x10000, fcramN3DSSize⟩, 0, Nat.zero_le _⟩,
    .rasterizerMarkRegionCached 0x20000010 0x100 true,
    .registerWatchpoint 0 0x14000800 4,
    .rasterizerMarkRegionCached 0x20000020 0x10 false]

def exampleLayout : Layout := ⟨0x10000, 0x20000000, 0, .inl rfl⟩

/-- The run returns, with the cached page uncached and its pointer still away. -/
theorem rasterizer_pages_watchpoint :
    MarkedAlternately exampleOps ∧ run exampleLayout exampleOps ≠ .error .unreachable ∧
    ∃ s t, run exampleLayout exampleOps = .ok s ∧ s.pageTableList = [t] ∧
      t.attributes 0x14000 = .memoryWatchpoint ∧ t.attributes 0x14001 = .memory ∧
      (t.pointers 0x14001).isSome := by
  have h : MarkedAlternately exampleOps := by
    intro page
    have htrace : exampleOps.flatMap Op.marks = [(0x20000, true), (0x20000, false)] := by
      decide +kernel
    rw [htrace]
    by_cases hpage : 0x20000 = page
    · subst hpage
      simp [marksOf]
    · simp [marksOf, hpage]
  have hrun := rasterizer_pages exampleLayout exampleOps h
  refine ⟨h, hrun.2, _, _, rfl, rfl, by decide +kernel, by decide +kernel, ?_⟩
  exact (hrun.1 _ rfl _ List.mem_cons_self 0x14001000).2.2 (by decide +kernel)

end MemorySystem

end GbaStation.Paging
