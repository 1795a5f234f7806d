import Mathlib.Data.List.Destutter
import GbaStation.Core.CacheInvalidation

/-!
# Invalidation of relocated pages (`core/hle/service/ldr_ro/cro_helper.cpp`)

A loop over relocations collects the pages that it writes to (`RelocationInvalidationBatch`), and
invalidates them when it ends, whether it failed or not. Neighbours are invalidated as one range,
whose length is a word: the range of all pages has the length 0.
-/

namespace GbaStation.Ldr

open GbaStation.Core.Invalidation

def citraPageSize : Nat := 0x1000

/-- An address is in a block of so many bytes, which may go around the end of the memory. -/
def InBlock (start : Word) (size : Nat) (b : Word) : Prop := (b - start).toNat < size

/-- The address of a page. -/
def IsPage (page : Word) : Prop := page.toNat % citraPageSize = 0

namespace RelocationInvalidationBatch

/-- `Add`, whose loop is over addresses in `u64`. -/
def addedPages (address : Word) (size : Nat) : List Word :=
  if size = 0 then []
  else
    let firstPage := address.toNat / citraPageSize
    let lastPage := (address.toNat + size - 1) / citraPageSize
    (List.range (lastPage + 1 - firstPage)).map fun i => .ofNat 32 ((firstPage + i) * citraPageSize)

/-- `InvalidateCacheRange` of a range. -/
def invalidateRange (rangeBegin rangeEnd : Word) : Call :=
  .invalidate rangeBegin ((rangeEnd - rangeBegin).setWidth 64)

/-- The loop of `Flush`. -/
def flushRanges : Word → Word → List Word → List Call
  | rangeBegin, rangeEnd, [] => [invalidateRange rangeBegin rangeEnd]
  | rangeBegin, rangeEnd, page :: pages =>
    if page = rangeEnd then flushRanges rangeBegin (rangeEnd + 0x1000) pages
    else invalidateRange rangeBegin rangeEnd :: flushRanges page (page + 0x1000) pages

/-- The pages, sorted and without duplicates. -/
def sortedPages (pages : List Word) : List Word :=
  (pages.mergeSort fun p q => decide (p ≤ q)).destutter (· ≠ ·)

/-- `Flush`. -/
def flush (pages : List Word) : List Call :=
  match sortedPages pages with
  | [] => []
  | page :: pages => flushRanges page (page + 0x1000) pages

end RelocationInvalidationBatch

open RelocationInvalidationBatch

variable {pages : List Word} {page missing rangeBegin : Word} {n : Nat}

/-! ## Pages -/

theorem isPage_of_mem_addedPages {address : Word} {size : Nat} :
    ∀ page ∈ addedPages address size, IsPage page := by
  intro page hpage
  rw [addedPages] at hpage
  split_ifs at hpage
  · exact absurd hpage List.not_mem_nil
  · obtain ⟨i, -, rfl⟩ := List.mem_map.mp hpage
    rw [IsPage, BitVec.toNat_ofNat, citraPageSize]
    omega

/-- The pages of a block have all of its bytes. -/
theorem exists_addedPages {address b : Word} {size : Nat} (hb : InBlock address size b) :
    ∃ page ∈ addedPages address size, InBlock page citraPageSize b := by
  have hsize : size ≠ 0 := Nat.ne_of_gt (Nat.zero_lt_of_lt hb)
  rw [InBlock, BitVec.toNat_sub] at hb
  -- the byte without the wrap of the address
  obtain ⟨x, hx, hbounds⟩ : ∃ x, x % 2 ^ 32 = b.toNat ∧
      address.toNat ≤ x ∧ x < address.toNat + size :=
    ⟨address.toNat + (2 ^ 32 - address.toNat + b.toNat) % 2 ^ 32, by omega, by omega, by omega⟩
  refine ⟨.ofNat 32 (x / citraPageSize * citraPageSize), ?_, ?_⟩
  · rw [addedPages, if_neg hsize]
    refine List.mem_map.mpr ⟨x / citraPageSize - address.toNat / citraPageSize, ?_, ?_⟩
    · rw [List.mem_range]
      simp only [citraPageSize]
      omega
    · congr 2
      simp only [citraPageSize]
      omega
  · rw [InBlock, BitVec.toNat_sub, BitVec.toNat_ofNat]
    simp only [citraPageSize]
    omega

theorem mem_destutter' (x p : Word) (pages : List Word) :
    x ∈ pages.destutter' (· ≠ ·) p ↔ x = p ∨ x ∈ pages := by
  induction pages generalizing p with
  | nil => simp
  | cons q pages ih =>
    by_cases hne : p ≠ q
    · rw [List.destutter'_cons_pos _ hne, List.mem_cons, ih, List.mem_cons]
    · obtain rfl := not_not.mp hne
      rw [List.destutter'_cons_neg _ hne, ih, List.mem_cons, or_self_left]

theorem mem_sortedPages : page ∈ sortedPages pages ↔ page ∈ pages := by
  have hsort : page ∈ sortedPages pages ↔ page ∈ pages.mergeSort fun p q => decide (p ≤ q) := by
    rw [sortedPages]
    cases pages.mergeSort fun p q => decide (p ≤ q) with
    | nil => simp
    | cons p pages => rw [List.destutter_cons', mem_destutter', List.mem_cons]
  rw [hsort, List.mem_mergeSort]

theorem pairwise_sortedPages (pages : List Word) :
    (sortedPages pages).Pairwise fun p q => p.toNat < q.toNat := by
  have hle : (pages.mergeSort fun p q => decide (p ≤ q)).Pairwise fun p q => p.toNat ≤ q.toNat := by
    refine (List.pairwise_mergeSort (fun p q r => ?_) (fun p q => ?_) pages).imp fun {p q} h => ?_
    · simp only [decide_eq_true_eq]
      exact BitVec.le_trans
    · simp only [Bool.or_eq_true, decide_eq_true_eq, BitVec.le_def]
      omega
    · exact BitVec.le_def.mp (of_decide_eq_true h)
  have hne := List.isChain_destutter (R := (· ≠ ·)) (pages.mergeSort fun p q => decide (p ≤ q))
  have hchain := (hle.sublist (List.destutter_sublist (· ≠ ·) _)).isChain
  have hlt : (sortedPages pages).IsChain fun p q => p.toNat < q.toNat := by
    rw [List.isChain_iff_getElem] at hne hchain ⊢
    intro i hi
    exact lt_of_le_of_ne (hchain i hi) fun h => hne i hi (BitVec.eq_of_toNat_eq h)
  exact List.isChain_iff_pairwise.mp hlt

/-! ## Ranges -/

/-- A range that is not the whole memory. -/
theorem invalidateRange_requests_iff (hsmall : n * citraPageSize < 2 ^ 32)
    (hend : rangeBegin.toNat + n * citraPageSize ≤ 2 ^ 32) (x : Nat) :
    (invalidateRange rangeBegin (rangeBegin + .ofNat 32 (n * citraPageSize))).Requests x ↔
      rangeBegin.toNat ≤ x ∧ x < rangeBegin.toNat + n * citraPageSize := by
  have hlength : ((rangeBegin + .ofNat 32 (n * citraPageSize) - rangeBegin).setWidth 64).toNat =
      n * citraPageSize := by
    rw [BitVec.toNat_setWidth, BitVec.toNat_sub, BitVec.toNat_add, BitVec.toNat_ofNat]
    omega
  constructor
  · rintro ⟨_, _, h, hlower, hupper, -⟩
    cases h
    exact ⟨hlower, hlength ▸ hupper⟩
  · rintro ⟨hlower, hupper⟩
    exact ⟨_, _, rfl, hlower, by omega, by omega⟩

/-- The byte is in a page of the list. -/
def InPages (pages : List Word) (x : Nat) : Prop :=
  ∃ page ∈ pages, page.toNat ≤ x ∧ x < page.toNat + citraPageSize

theorem inPages_cons (page : Word) (pages : List Word) (x : Nat) :
    InPages (page :: pages) x ↔
      (page.toNat ≤ x ∧ x < page.toNat + citraPageSize) ∨ InPages pages x := by
  simp [InPages]

/-- A page ends where the next one begins, or before. -/
theorem IsPage.le (hpage : IsPage page) {next : Word} (hnext : IsPage next)
    (h : page.toNat < next.toNat) : page.toNat + citraPageSize ≤ next.toNat := by
  rw [IsPage, citraPageSize] at *
  omega

theorem IsPage.le_end (hpage : IsPage page) : page.toNat + citraPageSize ≤ 2 ^ 32 := by
  rw [IsPage, citraPageSize] at *
  omega

/-- The range so far, and the pages that follow. A page that is missing keeps a range from being the
whole memory. -/
theorem flushRanges_requests_iff (rangeBegin : Word) (n : Nat)
    (hpages : ∀ page ∈ pages, IsPage page)
    (hsorted : pages.Pairwise fun p q => p.toNat < q.toNat)
    (hend : rangeBegin.toNat + n * citraPageSize ≤ 2 ^ 32)
    (hbehind : ∀ page ∈ pages, rangeBegin.toNat + n * citraPageSize ≤ page.toNat)
    (hmissing : IsPage missing) (hnot : missing ∉ pages)
    (hgap : missing.toNat < rangeBegin.toNat ∨ rangeBegin.toNat + n * citraPageSize ≤ missing.toNat)
    (x : Nat) :
    (∃ call ∈ flushRanges rangeBegin (rangeBegin + .ofNat 32 (n * citraPageSize)) pages,
      call.Requests x) ↔
      (rangeBegin.toNat ≤ x ∧ x < rangeBegin.toNat + n * citraPageSize) ∨ InPages pages x := by
  induction pages generalizing rangeBegin n with
  | nil =>
    have hlt := missing.isLt
    simp [flushRanges, InPages, invalidateRange_requests_iff (by omega) hend x]
  | cons page pages ih =>
    obtain ⟨hpage, hpages⟩ := List.forall_mem_cons.mp hpages
    obtain ⟨hfirst, hsorted⟩ := List.pairwise_cons.mp hsorted
    obtain ⟨hbegin, -⟩ := List.forall_mem_cons.mp hbehind
    have hnot' : missing ∉ pages := fun h => hnot (List.mem_cons_of_mem _ h)
    have hafter : ∀ next ∈ pages, page.toNat + citraPageSize ≤ next.toNat :=
      fun next hnext => hpage.le (hpages next hnext) (hfirst next hnext)
    have hne : missing.toNat ≠ page.toNat :=
      fun h => hnot (BitVec.eq_of_toNat_eq h ▸ List.mem_cons_self)
    have hgap' : missing.toNat < page.toNat ∨ page.toNat + citraPageSize ≤ missing.toNat :=
      (Nat.lt_or_gt_of_ne hne).imp_right fun h => hpage.le hmissing h
    have hlt := page.isLt
    have hend' := hpage.le_end
    have hrangeEnd : (rangeBegin + .ofNat 32 (n * citraPageSize)).toNat =
        rangeBegin.toNat + n * citraPageSize := by
      rw [BitVec.toNat_add, BitVec.toNat_ofNat]
      omega
    rw [flushRanges, inPages_cons]
    split_ifs with htouch
    · -- the page is at the end of the range, which grows
      rw [← htouch] at hrangeEnd
      have hgrow : rangeBegin + .ofNat 32 (n * citraPageSize) + 0x1000 =
          rangeBegin + .ofNat 32 ((n + 1) * citraPageSize) := by
        rw [Nat.add_one_mul, BitVec.ofNat_add, BitVec.add_assoc]
        rfl
      have hsum : rangeBegin.toNat + (n + 1) * citraPageSize = page.toNat + citraPageSize := by
        rw [Nat.add_one_mul]
        omega
      rw [hgrow, ih _ _ hpages hsorted (hsum ▸ hend') (hsum ▸ hafter) hnot' (by omega), hsum,
        ← or_assoc]
      refine or_congr_left ?_
      omega
    · have hone : page + 0x1000 = page + .ofNat 32 (1 * citraPageSize) := rfl
      have hnext := ih page 1 hpages hsorted (by omega) (by simpa using hafter) hnot' (by omega)
      rw [← hone, Nat.one_mul] at hnext
      simp only [List.mem_cons, exists_eq_or_imp, hnext,
        invalidateRange_requests_iff (n := n) (by omega) hend x]

/-- `Flush` requests the pages, unless they are all pages. -/
theorem flush_requests_iff (hpages : ∀ page ∈ pages, IsPage page) (hmissing : IsPage missing)
    (hnot : missing ∉ pages) (x : Nat) :
    (∃ call ∈ flush pages, call.Requests x) ↔ InPages pages x := by
  have hmem : ∀ page, page ∈ sortedPages pages ↔ page ∈ pages := fun _ => mem_sortedPages
  have hsorted := pairwise_sortedPages pages
  have hsame : InPages (sortedPages pages) x ↔ InPages pages x := by simp only [InPages, hmem]
  rw [← hsame, flush]
  rw [← hmem] at hnot
  replace hpages : ∀ page ∈ sortedPages pages, IsPage page :=
    fun page hpage => hpages page ((hmem page).mp hpage)
  cases hlist : sortedPages pages with
  | nil => simp [InPages]
  | cons page rest =>
    rw [hlist] at hsorted hnot hpages
    obtain ⟨hpage, hrest⟩ := List.forall_mem_cons.mp hpages
    obtain ⟨hfirst, hsorted⟩ := List.pairwise_cons.mp hsorted
    have hne : missing.toNat ≠ page.toNat :=
      fun h => hnot (BitVec.eq_of_toNat_eq h ▸ List.mem_cons_self)
    have hend := hpage.le_end
    rw [inPages_cons]
    have hflush := flushRanges_requests_iff page 1 hrest hsorted (by omega)
      (fun next hnext => by simpa using hpage.le (hrest next hnext) (hfirst next hnext)) hmissing
      (fun h => hnot (List.mem_cons_of_mem _ h))
      ((Nat.lt_or_gt_of_ne hne).imp_right fun h => by simpa using hpage.le hmissing h) x
    rw [Nat.one_mul] at hflush
    exact hflush

end GbaStation.Ldr
