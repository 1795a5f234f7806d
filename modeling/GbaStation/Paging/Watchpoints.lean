import GbaStation.Paging.PageTable

/-!
# Watchpoints come and go (`core/memory.cpp`)

`RegisterWatchpoint` walks over the pages of a range, and so does `UnregisterWatchpoint`. A page
that is watched already gets one more registration, and the last one that goes gives it back its
type and its pointer.

- `watchpoints_iff`: which calls return, and when all is restored.
-/

namespace GbaStation.Paging

open Function (update update_self update_of_ne)

/-! ## Ranges -/

/-- The range of a call, which does not wrap. -/
structure WatchRange where
  addr : Nat
  size : Nat
  addr_lt : addr < 2 ^ 32
  size_lt : size < 2 ^ 32
  not_wrapping : addr + size ≤ 2 ^ 32

namespace WatchRange

variable (r : WatchRange)

/-- The end of the range as the functions compute it; it is zero behind the last address. -/
def last : Nat := add32 r.addr r.size

/-- The loop reaches its end: it does not start, or the last page of the address space is not in
the range. -/
def Ends : Prop :=
  r.size = 0 ∨ r.addr + r.size = 2 ^ 32 ∨ r.addr + r.size ≤ 0xFFFFF000

/-- The pages that the loop goes over. -/
def Covers (page : Nat) : Prop :=
  0 < r.size ∧ r.addr + r.size < 2 ^ 32 ∧ r.addr / pageSize ≤ page ∧
    page ≤ (r.addr + r.size - 1) / pageSize

instance (page : Nat) : Decidable (r.Covers page) := by unfold Covers; infer_instance

end WatchRange

/-- How many of the ranges are over a page. -/
def coverings (rs : List WatchRange) (page : Nat) : Nat := rs.countP fun r => r.Covers page

/-! ## Pages -/

/-- What a page table has about a page. -/
structure Page where
  type : PageType
  pointer : MemoryRef
  info : Option WatchpointPageInfo

namespace Page

/-- A page that `RegisterWatchpoint` moves on from. -/
def Watchable (l : Layout) (page : Nat) (x : Page) : Prop :=
  x.info.isSome = true ∨ x.type = .memory ∨
    x.type = .rasterizerCachedMemory ∧
      (l.getPointerForRasterizerCache (page * pageSize)).isSome = true

/-- The page after one more registration. -/
def registered (l : Layout) (page : Nat) (x : Page) : Page :=
  match x.info with
  | some info =>
    { x with info := some { info with watchpointCount := add32 info.watchpointCount 1 } }
  | none =>
    if x.type = .memory then ⟨.memoryWatchpoint, none, some ⟨1, x.pointer⟩⟩
    else ⟨.rasterizerCachedMemoryWatchpoint, x.pointer,
      some ⟨1, l.getPointerForRasterizerCache (page * pageSize)⟩⟩

/-- The page when its last registration is gone. -/
def released (x : Page) (memory : MemoryRef) : Page :=
  match x.type with
  | .memoryWatchpoint => ⟨.memory, memory, none⟩
  | .rasterizerCachedMemoryWatchpoint => ⟨.rasterizerCachedMemory, x.pointer, none⟩
  | _ => { x with info := none }

/-- The page after one registration less. -/
def unregistered (x : Page) : Page :=
  match x.info with
  | none => x
  | some info =>
    if sub32 info.watchpointCount 1 = 0 then x.released info.memory
    else { x with info := some { info with watchpointCount := sub32 info.watchpointCount 1 } }

end Page

namespace PageTable

variable (l : Layout) (t : PageTable)

def page (page : Nat) : Page :=
  ⟨t.attributes page, t.pointers page, t.watchpointPagesMap page⟩

def ofPages (pages : Nat → Page) : PageTable where
  attributes q := (pages q).type
  pointers q := (pages q).pointer
  watchpointPagesMap q := (pages q).info

@[simp] theorem page_ofPages (pages : Nat → Page) : (ofPages pages).page = pages := rfl

@[simp] theorem ofPages_page : ofPages t.page = t := rfl

theorem ext_page {t t' : PageTable} (h : ∀ q, t.page q = t'.page q) : t = t' := by
  rw [← ofPages_page t, ← ofPages_page t', funext h]

/-! ## The loop -/

/-- `while (current < end)` of the two functions; `none` is out of fuel. -/
def watchpointLoop (body : PageTable → Nat → Except Abort PageTable) (last : Nat) :
    Nat → Nat → PageTable → Option (Except Abort PageTable)
  | 0, _, _ => none
  | fuel + 1, current, t =>
    if current < last then
      match body t (current / pageSize) with
      -- `continue`: the address is the same again
      | .error .neverReturns => watchpointLoop body last fuel current t
      | .error e => some (.error e)
      | .ok t => watchpointLoop body last fuel (add32 (current / pageSize * pageSize) pageSize) t
    else some (.ok t)

/-- `RegisterWatchpoint` and `UnregisterWatchpoint` on a range. -/
def registerLoop (r : WatchRange) (fuel : Nat) : Option (Except Abort PageTable) :=
  watchpointLoop (fun t page => t.registerPage l page) r.last fuel r.addr t

def unregisterLoop (r : WatchRange) (fuel : Nat) : Option (Except Abort PageTable) :=
  watchpointLoop (fun t page => .ok (t.unregisterPage page)) r.last fuel r.addr t

section Loop

theorem bind_eq_ok {α β ε : Type} {x : Except ε α} {f : α → Except ε β} {b : β} :
    (x >>= f) = .ok b ↔ ∃ a, x = .ok a ∧ f a = .ok b := by
  cases x with
  | ok a =>
    refine ⟨fun h => ⟨a, rfl, h⟩, ?_⟩
    rintro ⟨_, h, hb⟩
    cases h
    exact hb
  | error e =>
    refine ⟨fun h => (by cases h), ?_⟩
    rintro ⟨_, h, _⟩
    cases h

variable {body : PageTable → Nat → Except Abort PageTable} {last : Nat} {t t' : PageTable}

/-- A page of another type: the loop stays where it is. -/
theorem watchpointLoop_stuck {current : Nat} (hlt : current < last)
    (hbody : body t (current / pageSize) = .error .neverReturns) (fuel : Nat) :
    watchpointLoop body last fuel current t = none := by
  induction fuel with
  | zero => rfl
  | succ fuel ih => rw [watchpointLoop, if_pos hlt, hbody, ih]

/-- When the last page is in the range, the address wraps and is before the end again. -/
theorem watchpointLoop_wraps (hpage : (last - 1) / pageSize + 1 = pageTableNumEntries)
    (hlast : last < 2 ^ 32) (fuel : Nat) :
    ∀ {current : Nat} {t : PageTable}, current < last →
      watchpointLoop body last fuel current t ≠ some (.ok t') := by
  simp only [pageSize, pageTableNumEntries] at hpage
  induction fuel with
  | zero => exact fun _ => nofun
  | succ fuel ih =>
    intro current t hlt
    rw [watchpointLoop, if_pos hlt]
    have hnext : add32 (current / pageSize * pageSize) pageSize < last := by
      simp only [add32, pageSize]
      omega
    split
    · exact ih hlt
    · simp
    · exact ih hnext

/-- How many pages are left from an address on. -/
def pagesLeft (current last : Nat) : Nat :=
  if current < last then (last - 1) / pageSize + 1 - current / pageSize else 0

/-- Page after page, the loop is a fold. -/
theorem watchpointLoop_foldlM (hpage : (last - 1) / pageSize + 1 < pageTableNumEntries) (n : Nat) :
    ∀ {current : Nat} {t : PageTable}, pagesLeft current last = n →
      ((∃ fuel, watchpointLoop body last fuel current t = some (.ok t')) ↔
        (List.range' (current / pageSize) n).foldlM body t = .ok t') := by
  simp only [pageSize, pageTableNumEntries] at hpage
  induction n with
  | zero =>
    intro current t hleft
    have hge : ¬current < last := by
      intro hlt
      simp only [pagesLeft, if_pos hlt, pageSize] at hleft
      omega
    constructor
    · rintro ⟨fuel, h⟩
      cases fuel with
      | zero => cases h
      | succ fuel =>
        rw [watchpointLoop, if_neg hge] at h
        exact Option.some.inj h
    · intro h
      refine ⟨1, ?_⟩
      rw [watchpointLoop, if_neg hge]
      exact congrArg some h
  | succ n ih =>
    intro current t hleft
    have hlt : current < last := by
      by_contra hge
      rw [pagesLeft, if_neg hge] at hleft
      exact absurd hleft (Nat.succ_ne_zero n).symm
    simp only [pagesLeft, if_pos hlt, pageSize] at hleft
    have hnext : add32 (current / pageSize * pageSize) pageSize =
        (current / pageSize + 1) * pageSize := by
      simp only [add32, pageSize]
      omega
    have hleft' : pagesLeft ((current / pageSize + 1) * pageSize) last = n := by
      rw [pagesLeft, Nat.mul_div_cancel _ (by decide)]
      by_cases hrest : (current / pageSize + 1) * pageSize < last
      · rw [if_pos hrest]
        simp only [pageSize] at hrest ⊢
        omega
      · rw [if_neg hrest]
        simp only [pageSize] at hrest
        omega
    rw [List.range'_succ, List.foldlM_cons]
    cases hbody : body t (current / pageSize) with
    | error e =>
      refine iff_of_false ?_ (fun h => by cases h)
      rintro ⟨fuel, h⟩
      by_cases he : e = .neverReturns
      · rw [watchpointLoop_stuck hlt (he ▸ hbody)] at h
        cases h
      · cases fuel with
        | zero => cases h
        | succ fuel =>
          rw [watchpointLoop, if_pos hlt, hbody] at h
          cases e <;> simp at he h
    | ok t₁ =>
      have hrest := @ih ((current / pageSize + 1) * pageSize) t₁ hleft'
      rw [Nat.mul_div_cancel _ (by decide)] at hrest
      refine Iff.trans ?_ hrest
      constructor
      · rintro ⟨fuel, h⟩
        cases fuel with
        | zero => cases h
        | succ fuel =>
          rw [watchpointLoop, if_pos hlt, hbody] at h
          rw [hnext] at h
          exact ⟨fuel, h⟩
      · rintro ⟨fuel, h⟩
        refine ⟨fuel + 1, ?_⟩
        rw [watchpointLoop, if_pos hlt, hbody]
        rw [hnext]
        exact h

/-- The loop of a range returns what `overPages` does. -/
theorem watchpointLoop_returns_iff (r : WatchRange) :
    (∃ fuel, watchpointLoop body r.last fuel r.addr t = some (.ok t')) ↔
      t.overPages body r.addr r.size = .ok t' := by
  have hlast : r.last < 2 ^ 32 := Nat.mod_lt _ (by decide)
  rw [overPages, ← WatchRange.last]
  by_cases hlt : r.addr < r.last
  · rw [if_pos hlt]
    by_cases hpage : (r.last - 1) / pageSize + 1 = pageTableNumEntries
    · refine iff_of_false ?_ ?_
      · rintro ⟨fuel, h⟩
        exact watchpointLoop_wraps hpage hlast fuel hlt h
      · intro h
        obtain ⟨t₁, -, h⟩ := bind_eq_ok.mp h
        rw [if_pos hpage] at h
        cases h
    · have hin : (r.last - 1) / pageSize + 1 < pageTableNumEntries := by
        simp only [pageSize, pageTableNumEntries] at hpage ⊢
        omega
      rw [watchpointLoop_foldlM hin _ rfl, pagesLeft, if_pos hlt]
      constructor
      · intro h
        rw [h]
        exact if_neg hpage
      · intro h
        obtain ⟨t₁, hfold, h⟩ := bind_eq_ok.mp h
        rw [if_neg hpage] at h
        rw [hfold, h]
  · rw [if_neg hlt]
    constructor
    · rintro ⟨fuel, h⟩
      cases fuel with
      | zero => cases h
      | succ fuel =>
        rw [watchpointLoop, if_neg hlt] at h
        exact Option.some.inj h
    · intro h
      refine ⟨1, ?_⟩
      rw [watchpointLoop, if_neg hlt]
      exact congrArg some h

end Loop

/-! ## One page -/

section Pages

variable {l : Layout} {t t' : PageTable} {q : Nat}

/-- A change of one page. -/
theorem eq_ofPages_update {x : Page} (hq : t'.page q = x) (h : ∀ p, p ≠ q → t'.page p = t.page p) :
    t' = ofPages (update t.page q x) := by
  refine ext_page fun p => ?_
  rw [page_ofPages]
  by_cases hp : p = q
  · rw [hp, hq, update_self]
  · rw [h p hp, update_of_ne hp]

theorem setInfo_eq (info : Option WatchpointPageInfo) :
    t.setInfo q info = ofPages (update t.page q { t.page q with info }) := by
  refine eq_ofPages_update ?_ fun p hp => ?_
  · simp [page, setInfo]
  · simp [page, setInfo, hp]

theorem setType_setInfo_eq (type : PageType) (info : Option WatchpointPageInfo) :
    (t.setType q type).setInfo q info =
      ofPages (update t.page q ⟨type, t.pointers q, info⟩) := by
  refine eq_ofPages_update ?_ fun p hp => ?_
  · simp [page, setInfo, setType]
  · simp [page, setInfo, setType, hp]

theorem setPage_setInfo_eq (type : PageType) (memory : MemoryRef)
    (info : Option WatchpointPageInfo) :
    (t.setPage q type memory).setInfo q info =
      ofPages (update t.page q ⟨type, memory, info⟩) := by
  refine eq_ofPages_update ?_ fun p hp => ?_
  · simp [page, setInfo, setPage]
  · simp [page, setInfo, setPage, hp]

theorem registerPage_iff :
    t.registerPage l q = .ok t' ↔ (t.page q).Watchable l q ∧
      t' = ofPages (update t.page q ((t.page q).registered l q)) := by
  rw [registerPage, Page.Watchable, Page.registered]
  cases hinfo : t.watchpointPagesMap q with
  | some info =>
    have hpage : (t.page q).info = some info := hinfo
    rw [hpage]
    dsimp only
    rw [setInfo_eq, and_iff_right (.inl rfl), Except.ok.injEq]
    exact eq_comm
  | none =>
    have hpage : (t.page q).info = none := hinfo
    have htype : (t.page q).type = t.attributes q := rfl
    have hpointer : (t.page q).pointer = t.pointers q := rfl
    rw [hpage, htype, hpointer]
    cases hattr : t.attributes q with
    | memory =>
      simp only [setPage_setInfo_eq, Except.ok.injEq, if_pos]
      rw [and_iff_right (.inr (.inl trivial))]
      exact eq_comm
    | rasterizerCachedMemory =>
      cases href : l.getPointerForRasterizerCache (q * pageSize) with
      | some ref =>
        simp only [setType_setInfo_eq, Except.ok.injEq]
        rw [if_neg (by decide), and_iff_right (.inr (.inr ⟨trivial, rfl⟩))]
        exact eq_comm
      | none => simp
    | unmapped => simp
    | memoryWatchpoint => simp
    | rasterizerCachedMemoryWatchpoint => simp

theorem unregisterPage_eq :
    t.unregisterPage q = ofPages (update t.page q (t.page q).unregistered) := by
  rw [unregisterPage, Page.unregistered]
  cases hinfo : t.watchpointPagesMap q with
  | none =>
    have hpage : (t.page q).info = none := hinfo
    rw [hpage]
    exact eq_ofPages_update rfl fun _ _ => rfl
  | some info =>
    have hpage : (t.page q).info = some info := hinfo
    rw [hpage]
    dsimp only
    split_ifs with hcount
    · rw [Page.released]
      have htype : (t.page q).type = t.attributes q := rfl
      have hpointer : (t.page q).pointer = t.pointers q := rfl
      cases hattr : t.attributes q with
      | memoryWatchpoint => rw [htype, hattr, setPage_setInfo_eq]
      | rasterizerCachedMemoryWatchpoint => rw [htype, hattr, setType_setInfo_eq, hpointer]
      | unmapped | memory | rasterizerCachedMemory =>
        rw [htype, hattr]
        dsimp only
        rw [setInfo_eq]
        dsimp only
        rw [htype, hattr]
    · rw [setInfo_eq]

end Pages

/-! ## A range -/

section Range

variable {l : Layout} {t t' : PageTable} {body : PageTable → Nat → Except Abort PageTable}
  {good : Nat → Page → Prop} {f : Nat → Page → Page}

/-- A fold whose steps are each about one page. -/
theorem foldlM_pages
    (hbody : ∀ t q t', body t q = .ok t' ↔
      good q (t.page q) ∧ t' = ofPages (update t.page q (f q (t.page q)))) (n : Nat) :
    ∀ {a : Nat} {t : PageTable}, (List.range' a n).foldlM body t = .ok t' ↔
      (∀ q, a ≤ q → q < a + n → good q (t.page q)) ∧
        t' = ofPages fun q => if a ≤ q ∧ q < a + n then f q (t.page q) else t.page q := by
  induction n with
  | zero =>
    intro a t
    have hnone : ∀ q, ¬(a ≤ q ∧ q < a + 0) := fun q => by omega
    simp only [hnone, if_false, List.range'_zero, List.foldlM_nil]
    rw [and_iff_right (fun q h₁ h₂ => absurd ⟨h₁, h₂⟩ (hnone q))]
    exact ⟨fun h => (Except.ok.inj h).symm, fun h => congrArg Except.ok h.symm⟩
  | succ n ih =>
    intro a t
    rw [List.range'_succ, List.foldlM_cons, bind_eq_ok]
    -- the pages behind the first one are as they were
    have hsame : ∀ q, a + 1 ≤ q → update t.page a (f a (t.page a)) q = t.page q :=
      fun q hq => update_of_ne (by omega) _ _
    constructor
    · rintro ⟨t₁, hfirst, hrest⟩
      obtain ⟨hgood, rfl⟩ := (hbody _ _ _).mp hfirst
      obtain ⟨hgoods, rfl⟩ := ih.mp hrest
      simp only [page_ofPages] at hgoods ⊢
      refine ⟨fun q h₁ h₂ => ?_, ext_page fun q => ?_⟩
      · by_cases hq : q = a
        · exact hq ▸ hgood
        · have := hgoods q (by omega) (by omega)
          rwa [hsame q (by omega)] at this
      · simp only [page_ofPages]
        by_cases hq : q = a
        · rw [hq, if_neg (by omega), if_pos (by omega), update_self]
        · rw [update_of_ne hq]
          exact if_congr (by omega) rfl rfl
    · rintro ⟨hgoods, rfl⟩
      refine ⟨_, (hbody _ _ _).mpr ⟨hgoods a (Nat.le_refl _) (by omega), rfl⟩, ih.mpr ?_⟩
      simp only [page_ofPages]
      refine ⟨fun q h₁ h₂ => ?_, ext_page fun q => ?_⟩
      · rw [hsame q h₁]
        exact hgoods q (by omega) (by omega)
      · simp only [page_ofPages]
        by_cases hq : q = a
        · rw [hq, if_pos (by omega), if_neg (by omega), update_self]
        · rw [update_of_ne hq]
          exact if_congr (by omega) rfl rfl

/-- A range does its step to the pages it is over. -/
theorem overPages_iff
    (hbody : ∀ t q t', body t q = .ok t' ↔
      good q (t.page q) ∧ t' = ofPages (update t.page q (f q (t.page q))))
    (r : WatchRange) :
    t.overPages body r.addr r.size = .ok t' ↔
      (r.Ends ∧ ∀ q, r.Covers q → good q (t.page q)) ∧
        t' = ofPages fun q => if r.Covers q then f q (t.page q) else t.page q := by
  obtain ⟨addr, size, haddr, hsize, hfits⟩ := r
  simp only [overPages, WatchRange.Ends, WatchRange.Covers]
  by_cases hstart : addr < add32 addr size
  · -- the range is not empty and is before the end of the address space
    have hlast : 0 < size ∧ addr + size < 2 ^ 32 := by
      unfold add32 at hstart
      omega
    rw [if_pos hstart, add32_eq hlast.2, bind_eq_ok]
    have hcovers : ∀ q, 0 < size ∧ addr + size < 2 ^ 32 ∧ addr / pageSize ≤ q ∧
        q ≤ (addr + size - 1) / pageSize ↔ addr / pageSize ≤ q ∧
          q < addr / pageSize + ((addr + size - 1) / pageSize + 1 - addr / pageSize) := by
      intro q
      simp only [pageSize]
      omega
    simp only [hcovers, foldlM_pages hbody]
    by_cases hpage : (addr + size - 1) / pageSize + 1 = pageTableNumEntries
    · refine iff_of_false ?_ ?_
      · rintro ⟨t₁, -, h⟩
        rw [if_pos hpage] at h
        cases h
      · rintro ⟨⟨hends, -⟩, -⟩
        simp only [pageSize, pageTableNumEntries] at hpage
        omega
    · have hends : size = 0 ∨ addr + size = 2 ^ 32 ∨ addr + size ≤ 0xFFFFF000 := by
        simp only [pageSize, pageTableNumEntries] at hpage
        omega
      rw [and_iff_right hends]
      constructor
      · rintro ⟨t₁, ⟨hgood, rfl⟩, h⟩
        rw [if_neg hpage] at h
        exact ⟨fun q hq => hgood q hq.1 hq.2, (Except.ok.inj h).symm⟩
      · rintro ⟨hgood, rfl⟩
        exact ⟨_, ⟨fun q h₁ h₂ => hgood q ⟨h₁, h₂⟩, rfl⟩, if_neg hpage⟩
  · have hempty : size = 0 ∨ addr + size = 2 ^ 32 := by
      unfold add32 at hstart
      omega
    have hnone : ∀ q, ¬(0 < size ∧ addr + size < 2 ^ 32 ∧ addr / pageSize ≤ q ∧
        q ≤ (addr + size - 1) / pageSize) := fun q h => by omega
    simp only [if_neg hstart, hnone, if_false]
    rw [and_iff_right ⟨by omega, fun q h => h.elim⟩]
    exact ⟨fun h => (Except.ok.inj h).symm, fun h => congrArg Except.ok h.symm⟩

theorem registerWatchpoint_iff (r : WatchRange) :
    t.registerWatchpoint l r.addr r.size = .ok t' ↔
      (r.Ends ∧ ∀ q, r.Covers q → (t.page q).Watchable l q) ∧
        t' = ofPages fun q => if r.Covers q then (t.page q).registered l q else t.page q :=
  overPages_iff (fun _ _ _ => registerPage_iff) r

theorem unregisterWatchpoint_iff (r : WatchRange) :
    t.unregisterWatchpoint r.addr r.size = .ok t' ↔
      r.Ends ∧ t' = ofPages fun q => if r.Covers q then (t.page q).unregistered else t.page q := by
  have hbody : ∀ (t : PageTable) q t',
      (.ok (t.unregisterPage q) : Except Abort PageTable) = .ok t' ↔ True ∧
        t' = ofPages (update t.page q (t.page q).unregistered) := by
    intro t q t'
    rw [unregisterPage_eq, Except.ok.injEq, true_and]
    exact eq_comm
  have hrange := @overPages_iff t t' (fun t page => .ok (t.unregisterPage page)) (fun _ _ => True)
    (fun _ => Page.unregistered) hbody r
  rw [unregisterWatchpoint, hrange, and_iff_left fun _ _ => trivial]

end Range

/-! ## Sequences of calls -/

/-- A `RegisterWatchpoint` for each of the ranges. -/
def registerAll (rs : List WatchRange) : Except Abort PageTable :=
  rs.foldlM (fun t r => t.registerWatchpoint l r.addr r.size) t

/-- An `UnregisterWatchpoint` for each of the ranges. -/
def unregisterAll (rs : List WatchRange) : Except Abort PageTable :=
  rs.foldlM (fun t r => t.unregisterWatchpoint r.addr r.size) t

end PageTable

theorem coverings_cons_of_covers {r : WatchRange} {rs : List WatchRange} {q : Nat}
    (h : r.Covers q) : coverings (r :: rs) q = coverings rs q + 1 :=
  List.countP_cons_of_pos (decide_eq_true h)

theorem coverings_cons_of_not {r : WatchRange} {rs : List WatchRange} {q : Nat}
    (h : ¬r.Covers q) : coverings (r :: rs) q = coverings rs q :=
  List.countP_cons_of_neg (by rwa [decide_eq_true_eq])

theorem Page.registered_watchable {l : Layout} {q : Nat} (x : Page) :
    (x.registered l q).Watchable l q := by
  refine .inl ?_
  rw [registered]
  cases x.info with
  | some info => rfl
  | none => dsimp only; split_ifs <;> rfl

namespace PageTable

section Sequences

variable {l : Layout} {t' : PageTable}

theorem registerAll_iff (rs : List WatchRange) :
    ∀ {t : PageTable}, t.registerAll l rs = .ok t' ↔
      (∀ r ∈ rs, r.Ends ∧ ∀ q, r.Covers q → (t.page q).Watchable l q) ∧
        t' = ofPages fun q => (Page.registered l q)^[coverings rs q] (t.page q) := by
  induction rs with
  | nil =>
    intro t
    rw [and_iff_right fun r hr => absurd hr List.not_mem_nil]
    exact ⟨fun h => (Except.ok.inj h).symm, fun h => congrArg Except.ok h.symm⟩
  | cons r rs ih =>
    intro t
    have hcons : t.registerAll l (r :: rs) =
        (t.registerWatchpoint l r.addr r.size) >>= fun t => t.registerAll l rs := rfl
    rw [hcons, bind_eq_ok, List.forall_mem_cons]
    simp only [registerWatchpoint_iff, ih]
    have hpages : ∀ q, (Page.registered l q)^[coverings rs q]
        (if r.Covers q then (t.page q).registered l q else t.page q) =
          (Page.registered l q)^[coverings (r :: rs) q] (t.page q) := by
      intro q
      split_ifs with hq
      · rw [coverings_cons_of_covers hq, Function.iterate_succ_apply]
      · rw [coverings_cons_of_not hq]
    constructor
    · rintro ⟨t₁, ⟨hfirst, rfl⟩, hrest, rfl⟩
      refine ⟨⟨hfirst, fun r' hr' => ⟨(hrest r' hr').1, fun q hq => ?_⟩⟩, ?_⟩
      · have hwatch := (hrest r' hr').2 q hq
        rw [page_ofPages] at hwatch
        by_cases hr : r.Covers q
        · exact hfirst.2 q hr
        · rwa [if_neg hr] at hwatch
      · simp only [page_ofPages, hpages]
    · rintro ⟨⟨hfirst, hrest⟩, rfl⟩
      refine ⟨_, ⟨hfirst, rfl⟩, fun r' hr' => ⟨(hrest r' hr').1, fun q hq => ?_⟩, ?_⟩
      · rw [page_ofPages]
        split_ifs with hr
        · exact Page.registered_watchable _
        · exact (hrest r' hr').2 q hq
      · simp only [page_ofPages, hpages]

theorem unregisterAll_iff (rs : List WatchRange) :
    ∀ {t : PageTable}, t.unregisterAll rs = .ok t' ↔
      (∀ r ∈ rs, r.Ends) ∧
        t' = ofPages fun q => Page.unregistered^[coverings rs q] (t.page q) := by
  induction rs with
  | nil =>
    intro t
    rw [and_iff_right fun r hr => absurd hr List.not_mem_nil]
    exact ⟨fun h => (Except.ok.inj h).symm, fun h => congrArg Except.ok h.symm⟩
  | cons r rs ih =>
    intro t
    have hcons : t.unregisterAll (r :: rs) =
        (t.unregisterWatchpoint r.addr r.size) >>= fun t => t.unregisterAll rs := rfl
    rw [hcons, bind_eq_ok, List.forall_mem_cons]
    simp only [unregisterWatchpoint_iff, ih]
    have hpages : ∀ q, Page.unregistered^[coverings rs q]
        (if r.Covers q then (t.page q).unregistered else t.page q) =
          Page.unregistered^[coverings (r :: rs) q] (t.page q) := by
      intro q
      split_ifs with hq
      · rw [coverings_cons_of_covers hq, Function.iterate_succ_apply]
      · rw [coverings_cons_of_not hq]
    constructor
    · rintro ⟨t₁, ⟨hfirst, rfl⟩, hrest, rfl⟩
      exact ⟨⟨hfirst, hrest⟩, by simp only [page_ofPages, hpages]⟩
    · rintro ⟨⟨hfirst, hrest⟩, rfl⟩
      exact ⟨_, ⟨hfirst, rfl⟩, hrest, by simp only [page_ofPages, hpages]⟩

end Sequences

end PageTable

/-! ## Counting down -/

/-- A counter in `u32` that is counted down from `k + n` to `k`, with an end when it is zero. -/
theorem iterate_countdown {α : Type} {f : α → α} {y : Nat → α} {z : α} {k : Nat}
    (hstep : ∀ c, f (y c) = if sub32 c 1 = 0 then z else y (sub32 c 1)) (hz : f z = z)
    (hk : k < 2 ^ 32) (n : Nat) :
    f^[n] (y ((k + n) % 2 ^ 32)) = if 0 < n ∧ (k = 0 ∨ 2 ^ 32 < k + n) then z else y k := by
  induction n with
  | zero =>
    rw [if_neg (by omega), Nat.add_zero, Nat.mod_eq_of_lt hk]
    rfl
  | succ n ih =>
    have hsub : sub32 ((k + (n + 1)) % 2 ^ 32) 1 = (k + n) % 2 ^ 32 := by
      unfold sub32
      omega
    rw [Function.iterate_succ_apply, hstep, hsub]
    by_cases hzero : (k + n) % 2 ^ 32 = 0
    · rw [if_pos hzero, if_pos (by omega)]
      exact Function.iterate_fixed hz n
    · rw [if_neg hzero, ih]
      exact if_congr (by omega) rfl rfl

namespace Page

variable {l : Layout} {q : Nat} {x : Page} {memory : MemoryRef}

/-- The page with a number of registrations. -/
def counted (x : Page) (memory : MemoryRef) (count : Nat) : Page :=
  { x with info := some ⟨count, memory⟩ }

/-- Registrations of a page that is watched. -/
theorem iterate_registered (n : Nat) :
    ∀ {c : Nat}, c < 2 ^ 32 →
      (registered l q)^[n] (x.counted memory c) = x.counted memory ((c + n) % 2 ^ 32) := by
  induction n with
  | zero =>
    intro c hc
    rw [Nat.add_zero, Nat.mod_eq_of_lt hc]
    rfl
  | succ n ih =>
    intro c hc
    have hone : registered l q (x.counted memory c) = x.counted memory (add32 c 1) := rfl
    have hsum : (add32 c 1 + n) % 2 ^ 32 = (c + (n + 1)) % 2 ^ 32 := by
      unfold add32
      omega
    rw [Function.iterate_succ_apply, hone,
      ih (show add32 c 1 < 2 ^ 32 from Nat.mod_lt _ (by decide)), hsum]

theorem released_info : (x.released memory).info = none := by
  rw [released]
  split <;> rfl

/-- Releases of a page that is watched; it is not any more if the counter was zero on the way. -/
theorem iterate_unregistered {k : Nat} (hk : k < 2 ^ 32) (n : Nat) :
    unregistered^[n] (x.counted memory ((k + n) % 2 ^ 32)) =
      if 0 < n ∧ (k = 0 ∨ 2 ^ 32 < k + n) then x.released memory else x.counted memory k := by
  have hstep : ∀ c, unregistered (x.counted memory c) =
      if sub32 c 1 = 0 then x.released memory else x.counted memory (sub32 c 1) := by
    intro c
    rw [unregistered]
    rfl
  have hgone : unregistered (x.released memory) = x.released memory := by
    rw [unregistered, released_info]
  exact iterate_countdown hstep hgone hk n

/-- A page that is not watched has what it had when its last registration is gone. -/
theorem unregistered_registered {n : Nat} (hinfo : x.info = none) (hwatch : x.Watchable l q) :
    unregistered^[n + 1] ((registered l q)^[n + 1] x) = x := by
  obtain ⟨type, pointer, info⟩ := x
  cases hinfo
  have hzero : 0 < n + 1 ∧ ((0 : Nat) = 0 ∨ 2 ^ 32 < 0 + (n + 1)) := by omega
  have hcount : (1 + n) % 2 ^ 32 = (0 + (n + 1)) % 2 ^ 32 := by omega
  have hup : ∀ (y : Page) m, registered l q ⟨type, pointer, none⟩ = y.counted m 1 →
      unregistered^[n + 1] ((registered l q)^[n + 1] ⟨type, pointer, none⟩) = y.released m := by
    intro y m h
    rw [Function.iterate_succ_apply (registered l q), h, iterate_registered n (by decide), hcount,
      iterate_unregistered (by decide), if_pos hzero]
  rcases hwatch with h | rfl | ⟨rfl, -⟩
  · cases h
  · exact hup ⟨.memoryWatchpoint, none, none⟩ pointer rfl
  · exact hup ⟨.rasterizerCachedMemoryWatchpoint, pointer, none⟩ _ rfl

/-- Registrations and as many releases, for a page. -/
theorem restored_iff {n : Nat}
    (hcount : ∀ info, x.info = some info → info.watchpointCount < 2 ^ 32)
    (hwatch : 0 < n → x.Watchable l q) :
    unregistered^[n] ((registered l q)^[n] x) = x ↔
      ∀ info, x.info = some info →
        n = 0 ∨ 0 < info.watchpointCount ∧ info.watchpointCount + n ≤ 2 ^ 32 := by
  cases hinfo : x.info with
  | none =>
    refine iff_of_true ?_ nofun
    cases n with
    | zero => rfl
    | succ n => exact unregistered_registered hinfo (hwatch (Nat.succ_pos n))
  | some info =>
    have hlt := hcount info hinfo
    have hx : x = x.counted info.memory info.watchpointCount := by
      rw [counted, ← hinfo]
    simp only [Option.some.injEq, forall_eq']
    conv_lhs => rw [hx]
    rw [iterate_registered n hlt, iterate_unregistered hlt n]
    split_ifs with hpassed
    · refine iff_of_false (fun h => ?_) (by omega)
      have hnone := @released_info x info.memory
      rw [h] at hnone
      cases hnone
    · exact iff_of_true rfl (by omega)

end Page

namespace PageTable

variable {l : Layout} {t : PageTable}

/-- The counters are `u32`. -/
def CountersFit (t : PageTable) : Prop :=
  ∀ q info, t.watchpointPagesMap q = some info → info.watchpointCount < 2 ^ 32

/-- When all calls return and everything is as it was. -/
theorem restored_iff (hcounters : t.CountersFit) {rs us : List WatchRange} (hus : us.Perm rs) :
    ((t.registerAll l rs).bind fun t => t.unregisterAll us) = .ok t ↔
      (∀ r ∈ rs, r.Ends ∧ ∀ q, r.Covers q → (t.page q).Watchable l q) ∧
        ∀ q info, t.watchpointPagesMap q = some info → coverings rs q = 0 ∨
          0 < info.watchpointCount ∧ info.watchpointCount + coverings rs q ≤ 2 ^ 32 := by
  have hcoverings : ∀ q, coverings us q = coverings rs q := fun q => hus.countP_eq _
  have hends : (∀ r ∈ us, r.Ends) ↔ ∀ r ∈ rs, r.Ends :=
    forall_congr' fun r => imp_congr_left hus.mem_iff
  have hwatch : (∀ r ∈ rs, r.Ends ∧ ∀ q, r.Covers q → (t.page q).Watchable l q) →
      ∀ q, 0 < coverings rs q → (t.page q).Watchable l q := by
    intro h q hq
    obtain ⟨r, hr, hcovers⟩ := List.countP_pos_iff.mp hq
    exact (h r hr).2 q (of_decide_eq_true hcovers)
  have hsplit : ((t.registerAll l rs).bind fun t => t.unregisterAll us) = .ok t ↔
      ∃ t₁, t.registerAll l rs = .ok t₁ ∧ t₁.unregisterAll us = .ok t := bind_eq_ok
  rw [hsplit]
  simp only [registerAll_iff, unregisterAll_iff, hcoverings]
  constructor
  · rintro ⟨t₁, ⟨hrs, rfl⟩, -, hback⟩
    refine ⟨hrs, fun q => (Page.restored_iff (hcounters q) (hwatch hrs q)).mp ?_⟩
    have := congrArg (fun t => t.page q) hback
    simp only [page_ofPages] at this
    exact this.symm
  · rintro ⟨hrs, hcount⟩
    refine ⟨_, ⟨hrs, rfl⟩, hends.mpr fun r hr => (hrs r hr).1, ext_page fun q => ?_⟩
    simp only [page_ofPages]
    exact ((Page.restored_iff (hcounters q) (hwatch hrs q)).mpr (hcount q)).symm

/-- The loop of `RegisterWatchpoint` is the model of it. -/
theorem registerLoop_iff (r : WatchRange) {t' : PageTable} :
    (∃ fuel, t.registerLoop l r fuel = some (.ok t')) ↔
      t.registerWatchpoint l r.addr r.size = .ok t' :=
  watchpointLoop_returns_iff r

/-- The loop of `UnregisterWatchpoint` is the model of it. -/
theorem unregisterLoop_iff (r : WatchRange) {t' : PageTable} :
    (∃ fuel, t.unregisterLoop r fuel = some (.ok t')) ↔
      t.unregisterWatchpoint r.addr r.size = .ok t' :=
  watchpointLoop_returns_iff r

theorem registerLoop_returns_iff (r : WatchRange) :
    (∃ fuel t', t.registerLoop l r fuel = some (.ok t')) ↔
      r.Ends ∧ ∀ q, r.Covers q → (t.page q).Watchable l q := by
  rw [exists_comm]
  simp only [registerLoop_iff, registerWatchpoint_iff, exists_and_left, exists_eq, and_true]

/-- `RegisterWatchpoint` returns exactly when the loop ends and can move on from every page. Calls
for ranges, and the matching ones of `UnregisterWatchpoint` in any order, all return and leave the
page table as it was exactly when this holds of every range, and no counter of a page that was
watched before wraps or was zero. -/
theorem watchpoints_iff (hcounters : t.CountersFit) :
    (∀ r : WatchRange, (∃ fuel t', t.registerLoop l r fuel = some (.ok t')) ↔
        r.Ends ∧ ∀ q, r.Covers q → (t.page q).Watchable l q) ∧
      ∀ rs us : List WatchRange, us.Perm rs →
        (((t.registerAll l rs).bind fun t => t.unregisterAll us) = .ok t ↔
          (∀ r ∈ rs, r.Ends ∧ ∀ q, r.Covers q → (t.page q).Watchable l q) ∧
            ∀ q info, t.watchpointPagesMap q = some info → coverings rs q = 0 ∨
              0 < info.watchpointCount ∧ info.watchpointCount + coverings rs q ≤ 2 ^ 32) :=
  ⟨registerLoop_returns_iff, fun _ _ hus => restored_iff hcounters hus⟩

section Example

theorem exampleLayout_pluginFb :
    0 = 0 ∨ 0 % pageSize = 0 ∧ fcramPaddr ≤ 0 ∧ 0 + plugin3GXFbSize ≤ fcramN3DSPaddrEnd :=
  .inl rfl

/-- FCRAM and VRAM somewhere, and no plugin. -/
def exampleLayout : Layout := ⟨0x10000000, 0x20000000, 0, exampleLayout_pluginFb⟩

/-- A page table with one page of memory. -/
def examplePage : PageTable :=
  ({} : PageTable).setPage 0x8000 .memory (some ⟨⟨0x10000000, 0x1000⟩, 0, Nat.zero_le _⟩)

/-- Two ranges over its page. -/
def exampleRanges : List WatchRange :=
  [⟨0x08000000, 8, by decide, by decide, by decide⟩,
    ⟨0x08000004, 8, by decide, by decide, by decide⟩]

theorem examplePage_restored :
    ((examplePage.registerAll exampleLayout exampleRanges).bind
      fun t => t.unregisterAll exampleRanges) = .ok examplePage := by
  have hcounters : examplePage.CountersFit := nofun
  refine ((watchpoints_iff hcounters).2 _ _ (List.Perm.refl _)).mpr ⟨fun r hr => ?_, nofun⟩
  have hpage : (examplePage.page 0x8000).Watchable exampleLayout 0x8000 := .inr (.inl rfl)
  -- both ranges are over the first page of the heap only
  have honly : ∀ q, r.Covers q → q = 0x8000 := by
    rintro q ⟨-, -, hfrom, hto⟩
    simp only [exampleRanges, List.mem_cons, List.not_mem_nil, or_false] at hr
    rcases hr with rfl | rfl
    · simp only [pageSize] at hfrom hto
      omega
    · simp only [pageSize] at hfrom hto
      omega
  refine ⟨?_, fun q hq => honly q hq ▸ hpage⟩
  simp only [exampleRanges, List.mem_cons, List.not_mem_nil, or_false] at hr
  rcases hr with rfl | rfl
  · exact .inr (.inr (by decide))
  · exact .inr (.inr (by decide))

/-- A watchpoint in a page that is not mapped: the loop never moves on. -/
theorem registerLoop_unmapped :
    ∃ r : WatchRange, r.addr = 0x08000000 ∧ r.size = 4 ∧
      ¬∃ fuel result, ({} : PageTable).registerLoop exampleLayout r fuel = some result := by
  refine ⟨⟨0x08000000, 4, by decide, by decide, by decide⟩, rfl, rfl, ?_⟩
  rintro ⟨fuel, result, h⟩
  rw [registerLoop, watchpointLoop_stuck (by decide) rfl] at h
  cases h

end Example

end PageTable

end GbaStation.Paging
