import GbaStation.FileSys.ArticCache
import Mathlib.Data.List.TakeDrop

/-!
# Reads through the Artic cache

A read that succeeds gives the bytes of the file, cached or not, as long as every element that gets
into a cache was fetched in full: elements are entered before they are fetched, and their length is
not kept.
-/

namespace GbaStation.FileSys

open GbaStation.Common

variable {env : Environment} {content : List Byte} {fails : Nat → Bool}

/-! ## Slices -/

theorem length_slice (content : List Byte) (offset length : Nat) :
    (slice content offset length).length = min length (content.length - offset) := by
  simp [slice]

theorem slice_add (content : List Byte) (offset a b : Nat) :
    slice content offset (a + b) = slice content offset a ++ slice content (offset + a) b := by
  simp [slice, List.take_add, List.drop_drop]

variable {length offset requests turns : Nat}

theorem slice_slice (content : List Byte) {size into : Nat} (h : into + length ≤ size) :
    slice (slice content offset size) into length = slice content (offset + into) length := by
  unfold slice
  rw [List.drop_take, List.take_take, List.drop_drop, Nat.min_eq_left (by omega)]

/-- What lies behind the end of a file makes no difference. -/
theorem slice_eq_slice (content : List Byte) {a b : Nat} (ha : content.length - offset ≤ a)
    (hb : content.length - offset ≤ b) : slice content offset a = slice content offset b := by
  unfold slice
  rw [List.take_of_length_le (by simpa using ha), List.take_of_length_le (by simpa using hb)]

theorem length_copy (buffer : Nat → Byte) (start amount : Nat) :
    (copy buffer start amount).length = amount := by
  simp [copy]

theorem copy_eq_slice (buffer : Nat → Byte) (size : Nat) {start amount : Nat}
    (h : start + amount ≤ size) :
    copy buffer start amount = slice (copy buffer 0 size) start amount := by
  refine List.ext_getElem ?_ fun i h₁ h₂ => ?_
  · rw [length_copy, length_slice, length_copy]
    omega
  · simp [copy, slice]

theorem copy_overlay (bytes : List Byte) (buffer : Nat → Byte) :
    copy (overlay bytes buffer) 0 bytes.length = bytes := by
  refine List.ext_getElem (length_copy _ _ _) fun i h₁ h₂ => ?_
  simp [copy, overlay, List.getElem?_eq_getElem h₂]

/-! ## Fetching -/

/-- A fetch that does not fail gives the bytes of the file. -/
theorem readLoop_eq {len : Nat} {done : List Byte} (hdone : done = slice content offset done.length)
    (hle : done.length ≤ len) (hturns : len < done.length + turns)
    (hok : (readLoop env content fails len offset turns done requests).failed = false) :
    (readLoop env content fails len offset turns done requests).bytes =
      slice content offset len := by
  induction turns generalizing done requests with
  | zero => omega
  | succ turns ih =>
    rw [readLoop] at hok ⊢
    split at hok
    · next hlen => rw [if_pos hlen, hdone, hlen]
    · next hlen =>
      rw [if_neg hlen]
      dsimp only at hok ⊢
      split at hok
      · cases hok
      · next hfails =>
        rw [if_neg hfails]
        have hpos := env.chunk_pos
        have happend : done ++ slice content (offset + done.length)
            (min env.chunk (len - done.length)) =
            slice content offset (done.length + min env.chunk (len - done.length)) := by
          rw [slice_add, ← hdone]
        split at hok
        · next hshort =>
          rw [if_pos hshort, happend]
          rw [length_slice] at hshort
          exact slice_eq_slice content (by omega) (by omega)
        · next hfull =>
          rw [if_neg hfull]
          rw [not_not] at hfull
          refine ih ?_ ?_ ?_ hok
          · rw [List.length_append, hfull, happend]
          · rw [List.length_append, hfull]
            omega
          · rw [List.length_append, hfull]
            omega

theorem readFromArtic_eq {len : Nat}
    (hok : (readFromArtic env content fails len offset requests).failed = false) :
    (readFromArtic env content fails len offset requests).bytes = slice content offset len :=
  readLoop_eq rfl (Nat.zero_le _) (by simp) hok

/-- A fetch fails only through a request that fails. -/
theorem failed_readFromArtic (hfails : ∀ n, fails n = false) (len offset requests : Nat) :
    (readFromArtic env content fails len offset requests).failed = false := by
  have hloop : ∀ (turns : Nat) (done : List Byte) (requests : Nat),
      (readLoop env content fails len offset turns done requests).failed = false := by
    intro turns
    induction turns with
    | zero => exact fun _ _ => rfl
    | succ turns ih =>
      intro done requests
      rw [readLoop]
      split
      · rfl
      · dsimp only
        rw [if_neg (by simp [hfails])]
        split
        · rfl
        · exact ih _ _
  exact hloop _ _ _

namespace ArticCache

/-! ## Pages -/

theorem offsetToPage_le (offset : Nat) : offsetToPage offset ≤ offset := Nat.div_mul_le_self _ _

theorem lt_offsetToPage (offset : Nat) : offset < offsetToPage offset + cacheLineSize := by
  have := Nat.lt_div_mul_add (a := offset) (b := cacheLineSize) (by decide)
  exact this

theorem offsetToPage_next (offset : Nat) :
    offsetToPage (offset + cacheLineSize) = offsetToPage offset + cacheLineSize := by
  unfold offsetToPage
  rw [Nat.add_div_right _ (by decide), Nat.succ_mul]

theorem offsetToPage_page (offset : Nat) : offsetToPage (offsetToPage offset) =
    offsetToPage offset := by
  unfold offsetToPage
  rw [Nat.mul_div_cancel _ (by decide)]

/-! ## Lines -/

/-- A line holds the `size` bytes of the file from `start` on. -/
def Whole (content : List Byte) (start size : Nat) (line : Nat → Byte) : Prop :=
  start + size ≤ content.length ∧ copy line 0 size = slice content start size

variable {line : Nat → Byte} {bytes : List Byte} {capacity : Nat} {a : ArticCache}

/-- Copying from what a page holds gives the bytes of the file. -/
theorem copy_segment {page into readSize size : Nat}
    (hsize : readSize = (slice content page size).length)
    (hline : copy line 0 readSize = slice content page size) (hinto : into + length ≤ size) :
    copy line into (copyAmount readSize into length) = slice content (page + into) length := by
  rw [← slice_slice content hinto, ← hline]
  unfold copyAmount
  split
  · next hlt =>
    rw [copy_eq_slice line readSize (by omega)]
    by_cases hle : into + length ≤ readSize
    · rw [Nat.min_eq_left hle, Nat.add_sub_cancel_left]
    · rw [Nat.min_eq_right (by omega)]
      refine slice_eq_slice _ ?_ ?_
      · rw [length_copy]
      · rw [length_copy]
        omega
  · next hge =>
    have hnil : copy line into 0 = [] := rfl
    rw [hnil, slice, List.drop_of_length_le (by rw [length_copy]; omega), List.take_nil]

/-- A segment whose page is cached. -/
theorem readSegment_hit (env : Environment) (content : List Byte) (fails : Nat → Bool)
    {c : StaticLRUCache Nat (Nat → Byte)} (hc : c.WellFormed cacheLineCount) (requests : Nat)
    (seg : Nat × Nat) (h : c.lookup (offsetToPage seg.1) = some line) :
    ∃ c', readSegment env content fails c requests seg =
        (some (copy line (seg.1 - offsetToPage seg.1)
          (copyAmount cacheLineSize (seg.1 - offsetToPage seg.1) seg.2)), c', requests) ∧
      c'.WellFormed cacheLineCount ∧ ∀ k, c'.lookup k = c.lookup k := by
  obtain ⟨i, c', hreq, hc', rfl, hlookup⟩ := StaticLRUCache.request_of_lookup_eq_some hc h
  exact ⟨c', by rw [readSegment, hreq], hc', hlookup⟩

/-- A segment whose page is not cached. The page is cached now, whatever the fetch brought. -/
theorem readSegment_miss (env : Environment) (content : List Byte) (fails : Nat → Bool)
    {c : StaticLRUCache Nat (Nat → Byte)} (hc : c.WellFormed cacheLineCount)
    (requests : Nat) (seg : Nat × Nat) (h : c.lookup (offsetToPage seg.1) = none) :
    let fetch := readFromArtic env content fails cacheLineSize (offsetToPage seg.1) requests
    ∃ c' line, readSegment env content fails c requests seg =
        (if fetch.failed then none else some (copy line (seg.1 - offsetToPage seg.1)
          (copyAmount fetch.bytes.length (seg.1 - offsetToPage seg.1) seg.2)), c',
          fetch.requests) ∧
      c'.WellFormed cacheLineCount ∧ copy line 0 fetch.bytes.length = fetch.bytes ∧
      c'.lookup (offsetToPage seg.1) = some line ∧
      ∀ k v, k ≠ offsetToPage seg.1 → c'.lookup k = some v → c.lookup k = some v := by
  intro fetch
  obtain ⟨i, c', hreq, hc', hstore⟩ := StaticLRUCache.request_of_lookup_eq_none hc (by decide) h
  obtain ⟨hself, hnew, hold⟩ := hstore (overlay fetch.bytes (c'.array i))
  refine ⟨c'.store i (overlay fetch.bytes (c'.array i)), _, ?_, hc'.store _ _,
    copy_overlay fetch.bytes _, hnew, hold⟩
  rw [readSegment, hreq]
  show (if fetch.failed then _ else _) = _
  rw [hself]
  split <;> rfl

/-- The loop over the segments of a read, from a cache whose lines are whole from the first page of
the read on. The pages behind the current one are not touched before their turn. -/
theorem readSegments_eq {c : StaticLRUCache Nat (Nat → Byte)} (hc : c.WellFormed cacheLineCount)
    (hturns : length < turns)
    (hwhole : ∀ page line, offsetToPage offset ≤ page → c.lookup page = some line →
      Whole content page cacheLineSize line)
    (hread : (readSegments env content fails c requests (breakupLoop turns offset length)).1 =
      some bytes) : bytes = slice content offset length := by
  induction turns generalizing offset length c requests bytes with
  | zero => omega
  | succ turns ih =>
    rw [breakupLoop] at hread
    split at hread
    · next hzero =>
      subst hzero
      exact (Option.some.inj hread).symm
    · next hpos =>
      dsimp only at hread
      rw [offsetToPage_next] at hread
      have hpage := offsetToPage_le offset
      have hlt := lt_offsetToPage offset
      generalize hpl : min length (offsetToPage offset + cacheLineSize - offset) = pageLen at hread
      rw [readSegments] at hread
      -- the first segment reads the file, and leaves the later pages as they were
      have hseg : ∃ r c' requests', readSegment env content fails c requests (offset, pageLen) =
          (r, c', requests') ∧ c'.WellFormed cacheLineCount ∧
          (∀ b, r = some b → b = slice content offset pageLen) ∧
          ∀ k v, k ≠ offsetToPage offset → c'.lookup k = some v → c.lookup k = some v := by
        have hinto : offset - offsetToPage offset + pageLen ≤ cacheLineSize := by omega
        have hoff : offsetToPage offset + (offset - offsetToPage offset) = offset := by omega
        cases hlookup : c.lookup (offsetToPage offset) with
        | some line =>
          obtain ⟨hin, hcopy⟩ := hwhole _ line (le_refl _) hlookup
          obtain ⟨c', hr, hc', hsame⟩ :=
            readSegment_hit env content fails hc requests (offset, pageLen) hlookup
          refine ⟨_, c', _, hr, hc', fun b hb => ?_, fun k v _ hk => by rwa [hsame] at hk⟩
          rw [← Option.some.inj hb]
          have hfull : cacheLineSize =
              (slice content (offsetToPage offset) cacheLineSize).length := by
            rw [length_slice]
            omega
          rw [copy_segment hfull hcopy hinto, hoff]
        | none =>
          obtain ⟨c', line, hr, hc', hcopy, -, hold⟩ :=
            readSegment_miss env content fails hc requests (offset, pageLen) hlookup
          refine ⟨_, c', _, hr, hc', fun b hb => ?_, hold⟩
          split at hb
          · cases hb
          · next hok =>
            have hbytes := readFromArtic_eq (Bool.not_eq_true _ ▸ hok)
            rw [hbytes] at hcopy
            rw [← Option.some.inj hb, hbytes, copy_segment rfl hcopy hinto, hoff]
      obtain ⟨r, c', requests', hr, hc', hbytes, hold⟩ := hseg
      rw [hr] at hread
      cases r with
      | none => cases hread
      | some b =>
        obtain ⟨tail, htail, rfl⟩ := Option.map_eq_some_iff.mp hread
        have hrest := ih hc' (by omega) (fun page line hle hl => ?_) htail
        · rw [hrest, hbytes b rfl]
          by_cases hlast : length = pageLen
          · rw [hlast, Nat.sub_self]
            simp [slice]
          · have hnext : offset + pageLen = offsetToPage offset + cacheLineSize := by omega
            have hsum : length = pageLen + (length - pageLen) := by omega
            conv_rhs => rw [hsum, slice_add, hnext]
        · rw [← offsetToPage_next, offsetToPage_page, offsetToPage_next] at hle
          have hne : page ≠ offsetToPage offset := by
            omega
          exact hwhole page line (by omega) (hold page line hne hl)

/-! ## Whole reads -/

theorem readWhole_hit (env : Environment) (content : List Byte) (fails : Nat → Bool)
    {c : StaticLRUCache (Nat × Nat) (Nat → Byte)} (hc : c.WellFormed capacity)
    (h : c.lookup (offset, length) = some line) :
    ∃ c', readWhole env content fails capacity c offset length = (some (copy line 0 length), c') ∧
      c'.WellFormed capacity ∧ ∀ k, c'.lookup k = c.lookup k := by
  obtain ⟨i, c', hreq, hc', rfl, hlookup⟩ := StaticLRUCache.request_of_lookup_eq_some hc h
  exact ⟨c', by rw [readWhole, hreq], hc', hlookup⟩

theorem readWhole_miss (env : Environment) (content : List Byte) (fails : Nat → Bool)
    (hcap : 0 < capacity) {c : StaticLRUCache (Nat × Nat) (Nat → Byte)} (hc : c.WellFormed capacity)
    (h : c.lookup (offset, length) = none) :
    let fetch := readFromArtic env content fails length offset 0
    ∃ c' line, readWhole env content fails capacity c offset length =
        (if fetch.failed then none else some fetch.bytes, c') ∧ c'.WellFormed capacity ∧
      copy line 0 fetch.bytes.length = fetch.bytes ∧ c'.lookup (offset, length) = some line ∧
      ∀ k v, k ≠ (offset, length) → c'.lookup k = some v → c.lookup k = some v := by
  intro fetch
  obtain ⟨i, c', hreq, hc', hstore⟩ := StaticLRUCache.request_of_lookup_eq_none hc hcap h
  obtain ⟨hself, hnew, hold⟩ := hstore (overlay fetch.bytes env.uninitialised)
  refine ⟨c'.store i (overlay fetch.bytes env.uninitialised), _, ?_, hc'.store _ _,
    copy_overlay fetch.bytes _, hnew, hold⟩
  rw [readWhole, hreq]
  show (if fetch.failed then _ else _) = _
  rw [hself, copy_overlay]
  split <;> rfl

/-- A whole read from a cache whose lines are whole. -/
theorem readWhole_eq (hcap : 0 < capacity) {c : StaticLRUCache (Nat × Nat) (Nat → Byte)}
    (hc : c.WellFormed capacity)
    (hwhole : ∀ k line, c.lookup k = some line → Whole content k.1 k.2 line)
    (hread : (readWhole env content fails capacity c offset length).1 = some bytes) :
    bytes = slice content offset length := by
  cases hlookup : c.lookup (offset, length) with
  | some line =>
    obtain ⟨c', hr, -⟩ := readWhole_hit env content fails hc hlookup
    rw [hr] at hread
    rw [← Option.some.inj hread, (hwhole _ line hlookup).2]
  | none =>
    obtain ⟨c', line, hr, -⟩ := readWhole_miss env content fails hcap hc hlookup
    rw [hr] at hread
    split at hread
    · cases hread
    · next hok =>
      rw [← Option.some.inj hread, readFromArtic_eq (Bool.not_eq_true _ ▸ hok)]

/-- A whole read keeps whole lines if what it caches is fetched in full. -/
theorem readWhole_keeps (env : Environment) (hcap : 0 < capacity)
    {c : StaticLRUCache (Nat × Nat) (Nat → Byte)} (hc : c.WellFormed capacity)
    (hwhole : ∀ k line, c.lookup k = some line → Whole content k.1 k.2 line)
    (hfull : c.contains (offset, length) = true ∨
      offset + length ≤ content.length ∧ ∀ n, fails n = false) :
    (readWhole env content fails capacity c offset length).2.WellFormed capacity ∧
      ∀ k line, (readWhole env content fails capacity c offset length).2.lookup k = some line →
        Whole content k.1 k.2 line := by
  cases hlookup : c.lookup (offset, length) with
  | some line =>
    obtain ⟨c', hr, hc', hsame⟩ := readWhole_hit env content fails hc hlookup
    rw [hr]
    refine ⟨hc', fun k v hk => hwhole k v ?_⟩
    rwa [hsame] at hk
  | none =>
    obtain ⟨hin, hfails⟩ : offset + length ≤ content.length ∧ ∀ n, fails n = false :=
      hfull.resolve_left fun h => StaticLRUCache.contains_iff.mp h hlookup
    obtain ⟨c', line, hr, hc', hcopy, hnew, hold⟩ :=
      readWhole_miss env content fails hcap hc hlookup
    rw [hr]
    refine ⟨hc', fun k v hk => ?_⟩
    by_cases hkey : k = (offset, length)
    · subst hkey
      rw [hnew] at hk
      obtain rfl := Option.some.inj hk
      have hlen := length_slice content offset length
      rw [Nat.min_eq_left (by omega)] at hlen
      rw [readFromArtic_eq (failed_readFromArtic hfails _ _ _), hlen] at hcopy
      exact ⟨hin, hcopy⟩
    · exact hwhole k v (hold k v hkey hk)

/-- The loop over the segments keeps whole pages if what it caches is fetched in full. -/
theorem readSegments_keeps (env : Environment) {segments : List (Nat × Nat)}
    {c : StaticLRUCache Nat (Nat → Byte)} (hc : c.WellFormed cacheLineCount)
    (hwhole : ∀ page line, c.lookup page = some line → Whole content page cacheLineSize line)
    (hfull : (∀ seg ∈ segments, c.contains (offsetToPage seg.1) = true) ∨
      (∀ seg ∈ segments, offsetToPage seg.1 + cacheLineSize ≤ content.length) ∧
        ∀ n, fails n = false) :
    (readSegments env content fails c requests segments).2.WellFormed cacheLineCount ∧
      ∀ page line, (readSegments env content fails c requests segments).2.lookup page = some line →
        Whole content page cacheLineSize line := by
  induction segments generalizing c requests with
  | nil => exact ⟨hc, hwhole⟩
  | cons seg rest ih =>
    rw [readSegments]
    -- one segment leaves a cache from which the rest of the loop goes on
    have hseg : ∃ r c' requests', readSegment env content fails c requests seg =
        (r, c', requests') ∧ c'.WellFormed cacheLineCount ∧
        (∀ page line, c'.lookup page = some line → Whole content page cacheLineSize line) ∧
        ((∀ seg ∈ rest, c'.contains (offsetToPage seg.1) = true) ∨
          (∀ seg ∈ rest, offsetToPage seg.1 + cacheLineSize ≤ content.length) ∧
            ∀ n, fails n = false) := by
      cases hlookup : c.lookup (offsetToPage seg.1) with
      | some line =>
        obtain ⟨c', hr, hc', hsame⟩ := readSegment_hit env content fails hc requests seg hlookup
        refine ⟨_, c', _, hr, hc', fun page v hv => hwhole page v (by rwa [hsame] at hv), ?_⟩
        rcases hfull with hall | ⟨hin, hfails⟩
        · left
          intro s hs
          rw [StaticLRUCache.contains_iff, hsame, ← StaticLRUCache.contains_iff]
          exact hall s (List.mem_cons_of_mem _ hs)
        · exact Or.inr ⟨fun s hs => hin s (List.mem_cons_of_mem _ hs), hfails⟩
      | none =>
        obtain ⟨hin, hfails⟩ := hfull.resolve_left fun h =>
          StaticLRUCache.contains_iff.mp (h seg List.mem_cons_self) hlookup
        obtain ⟨c', line, hr, hc', hcopy, hnew, hold⟩ :=
          readSegment_miss env content fails hc requests seg hlookup
        refine ⟨_, c', _, hr, hc', fun page v hv => ?_,
          Or.inr ⟨fun s hs => hin s (List.mem_cons_of_mem _ hs), hfails⟩⟩
        by_cases hpage : page = offsetToPage seg.1
        · subst hpage
          rw [hnew] at hv
          obtain rfl := Option.some.inj hv
          have hle := hin seg List.mem_cons_self
          have hlen := length_slice content (offsetToPage seg.1) cacheLineSize
          rw [Nat.min_eq_left (by omega)] at hlen
          rw [readFromArtic_eq (failed_readFromArtic hfails _ _ _), hlen] at hcopy
          exact ⟨hle, hcopy⟩
        · exact hwhole page v (hold page v hpage hv)
    obtain ⟨r, c', requests', hr, hc', hwhole', hfull'⟩ := hseg
    rw [hr]
    cases r with
    | none => exact ⟨hc', hwhole'⟩
    | some b => exact ih hc' hwhole' hfull'

/-! ## The invariant -/

/-- All lines of the three caches are whole. -/
structure Right (a : ArticCache) (content : List Byte) : Prop where
  cache : a.cache.WellFormed cacheLineCount
  bigCache : a.bigCache.WellFormed bigCacheLines
  veryBigCache : a.veryBigCache.WellFormed veryBigCacheLines
  pages : ∀ page line, a.cache.lookup page = some line → Whole content page cacheLineSize line
  big : ∀ k line, a.bigCache.lookup k = some line → Whole content k.1 k.2 line
  veryBig : ∀ k line, a.veryBigCache.lookup k = some line → Whole content k.1 k.2 line

theorem right_clear (a : ArticCache) (content : List Byte) : a.clear.Right content where
  cache := .clear _
  bigCache := .clear _
  veryBigCache := .clear _
  pages _ _ h := nomatch h
  big _ _ h := nomatch h
  veryBig _ _ h := nomatch h

/-- A segment that is no whole read lies in a page. -/
theorem breakupLoop_le : ∀ seg ∈ breakupLoop turns offset length, seg.2 ≤ cacheLineSize := by
  induction turns generalizing offset length with
  | zero => simp [breakupLoop]
  | succ turns ih =>
    rw [breakupLoop]
    split
    · simp
    · refine List.forall_mem_cons.mpr ⟨?_, ih⟩
      have := offsetToPage_le offset
      rw [offsetToPage_next]
      omega

/-- A read of more than two pages is made as a whole, and no other one. -/
theorem read_of_lt (h : maxBreakupSize < length) :
    a.read env content fails offset length =
      if length < bigCacheSkip then
        ((readWhole env content fails bigCacheLines a.bigCache offset length).1, { a with
          bigCache := (readWhole env content fails bigCacheLines a.bigCache offset length).2 })
      else if length < veryBigCacheSkip then
        ((readWhole env content fails veryBigCacheLines a.veryBigCache offset length).1, { a with
          veryBigCache :=
            (readWhole env content fails veryBigCacheLines a.veryBigCache offset length).2 })
      else
        (if (readFromArtic env content fails length offset 0).failed then none
          else some (readFromArtic env content fails length offset 0).bytes, a) := by
  have hline : cacheLineSize < length := lt_trans (by decide) h
  have hzero : length ≠ 0 := by omega
  rw [read, if_neg hzero, breakupRead, if_pos h]
  exact if_pos ⟨rfl, hline⟩

theorem read_of_le (h : length ≤ maxBreakupSize) :
    a.read env content fails offset length =
      ((readSegments env content fails a.cache 0 (breakupLoop (length + 1) offset length)).1,
        { a with cache := (readSegments env content fails a.cache 0
          (breakupLoop (length + 1) offset length)).2 }) := by
  rw [read]
  split
  · next hzero =>
    subst hzero
    rfl
  · rw [breakupRead, if_neg (Nat.not_lt.mpr h)]
    refine if_neg ?_
    rintro ⟨-, hgt⟩
    cases hsegs : breakupLoop (length + 1) offset length with
    | nil =>
      rw [hsegs] at hgt
      exact absurd hgt (by decide)
    | cons seg rest =>
      have hle := breakupLoop_le seg (hsegs ▸ List.mem_cons_self)
      rw [hsegs] at hgt
      exact absurd hgt (Nat.not_lt.mpr hle)

/-- What a read from whole lines gives, when it succeeds. -/
theorem Right.read_eq (h : a.Right content)
    (hread : (a.read env content fails offset length).1 = some bytes) :
    bytes = slice content offset length := by
  rcases Nat.lt_or_ge maxBreakupSize length with hlt | hle
  · rw [read_of_lt hlt] at hread
    split at hread
    · exact readWhole_eq (by decide) h.bigCache h.big hread
    · split at hread
      · exact readWhole_eq (by decide) h.veryBigCache h.veryBig hread
      · dsimp only at hread
        split at hread
        · cases hread
        · next hok =>
          rw [← Option.some.inj hread, readFromArtic_eq (Bool.not_eq_true _ ▸ hok)]
  · rw [read_of_le hle] at hread
    exact readSegments_eq h.cache (Nat.lt_succ_self _) (fun page line _ => h.pages page line) hread

/-- The calls that cache only what was fetched in full: a read whose pages, or whose range, are all
cached, or lie in the file with no request failing. Larger reads are not cached. The last byte of a
read has an `s64` offset. -/
def KeepsWhole (a : ArticCache) (content : List Byte) : Call → Prop
  | .read offset length fails =>
    offset + length ≤ 2 ^ 63 ∧
    (length ≤ maxBreakupSize →
      (∀ seg ∈ breakupRead offset length, a.cache.contains (offsetToPage seg.1) = true) ∨
      (∀ seg ∈ breakupRead offset length,
        offsetToPage seg.1 + cacheLineSize ≤ content.length) ∧ ∀ n, fails n = false) ∧
    (maxBreakupSize < length → length < bigCacheSkip →
      a.bigCache.contains (offset, length) = true ∨
      offset + length ≤ content.length ∧ ∀ n, fails n = false) ∧
    (bigCacheSkip ≤ length → length < veryBigCacheSkip →
      a.veryBigCache.contains (offset, length) = true ∨
      offset + length ≤ content.length ∧ ∀ n, fails n = false)
  | _ => True

theorem Right.read (h : a.Right content) (hkeeps : KeepsWhole a content (.read offset length fails))
    : (a.read env content fails offset length).2.Right content := by
  obtain ⟨-, hpages, hbig, hveryBig⟩ := hkeeps
  rcases Nat.lt_or_ge maxBreakupSize length with hlt | hle
  · rw [read_of_lt hlt]
    split
    · next hskip =>
      obtain ⟨hc, hwhole⟩ := readWhole_keeps env (by decide) h.bigCache h.big (hbig hlt hskip)
      exact { h with bigCache := hc, big := hwhole }
    · next hskip =>
      split
      · next hskip' =>
        obtain ⟨hc, hwhole⟩ := readWhole_keeps env (by decide) h.veryBigCache h.veryBig
          (hveryBig (Nat.not_lt.mp hskip) hskip')
        exact { h with veryBigCache := hc, veryBig := hwhole }
      · exact h
  · rw [read_of_le hle]
    have hfull := hpages hle
    rw [breakupRead, if_neg (Nat.not_lt.mpr hle)] at hfull
    obtain ⟨hc, hwhole⟩ := readSegments_keeps env h.cache h.pages hfull
    exact { h with cache := hc, pages := hwhole }

theorem Right.step {a : ArticCache} (h : a.Right content) {c : Call}
    (hkeeps : KeepsWhole a content c) :
    (a.step env content c).1.Right (a.step env content c).2 := by
  cases c with
  | read offset length fails => exact h.read hkeeps
  | write offset buffer outcomes => exact right_clear a _
  | clear => exact right_clear a content

theorem Reached.right (h : Reached env KeepsWhole a content) : a.Right content := by
  induction h with
  | new content => exact right_clear ArticCache.new content
  | call _ hkeeps ih => exact ih.step hkeeps

/-- In every run whose calls cache only what was fetched in full, a read that succeeds gives the
bytes of the file in its range, as far as the file goes, whatever is cached and whichever requests
fail; and every line of the caches holds all the bytes of the file that it is cached for. -/
theorem artic_transparent (env : Environment) {a : ArticCache} {content : List Byte}
    (h : Reached env KeepsWhole a content) :
    (∀ (offset length : Nat) (fails : Nat → Bool) (bytes : List Byte),
      (a.read env content fails offset length).1 = some bytes →
        bytes = slice content offset length) ∧
    (∀ page line, a.cache.lookup page = some line → Whole content page cacheLineSize line) ∧
    (∀ k line, a.bigCache.lookup k = some line → Whole content k.1 k.2 line) ∧
    ∀ k line, a.veryBigCache.lookup k = some line → Whole content k.1 k.2 line := by
  have hright := h.right
  exact ⟨fun _ _ _ _ hread => hright.read_eq hread, hright.pages, hright.big, hright.veryBig⟩

section Example

def exampleEnvironment : Environment := ⟨0x1000, by decide, fun _ => 0⟩

/-- A page that the file fills is read a second time when all requests fail. -/
theorem artic_transparent_page : ∃ a, Reached exampleEnvironment KeepsWhole a
      (List.replicate 4096 1) ∧
    (a.read exampleEnvironment (List.replicate 4096 1) (fun _ => true) 7 2).1 =
      some (slice (List.replicate 4096 1) 7 2) := by
  have hkeeps : KeepsWhole ArticCache.new (List.replicate 4096 1)
      (.read 0 1 fun _ => false) := by
    refine ⟨by decide, fun _ => Or.inr ⟨?_, fun _ => rfl⟩, fun h => absurd h (by decide),
      fun h => absurd h (by decide)⟩
    have hsegs : breakupRead 0 1 = [(0, 1)] := by decide
    rw [hsegs, List.forall_mem_singleton, List.length_replicate]
    decide
  have hnew : Reached exampleEnvironment KeepsWhole ArticCache.new (List.replicate 4096 1) :=
    Reached.new _
  have h := hnew.call hkeeps
  refine ⟨_, h, ?_⟩
  obtain ⟨bytes, hread⟩ := Option.isSome_iff_exists.mp (show (((ArticCache.new.step
    exampleEnvironment (List.replicate 4096 1) (.read 0 1 fun _ => false)).1.read exampleEnvironment
      (List.replicate 4096 1) (fun _ => true) 7 2).1).isSome = true by decide +kernel)
  rw [hread, (artic_transparent exampleEnvironment h).1 7 2 _ bytes hread]
  rfl

/-- A file of three bytes. After a read of two of them a read of five gives five; and after a read
whose request failed the same read gives two bytes that are not the file's. -/
theorem short_page_read_on :
    (∃ a, Reached exampleEnvironment (fun _ _ _ => True) a [1, 2, 3] ∧
      (a.read exampleEnvironment [1, 2, 3] (fun _ => false) 0 5).1 = some [1, 2, 3, 0, 0]) ∧
    ∃ a, Reached exampleEnvironment (fun _ _ _ => True) a [1, 2, 3] ∧
      (a.read exampleEnvironment [1, 2, 3] (fun _ => false) 0 2).1 = some [0, 0] := by
  have hnew : Reached exampleEnvironment (fun _ _ _ => True) ArticCache.new [1, 2, 3] :=
    Reached.new _
  constructor
  · exact ⟨_, hnew.call (c := .read 0 2 fun _ => false) trivial, by decide +kernel⟩
  · exact ⟨_, hnew.call (c := .read 0 2 fun _ => true) trivial, by decide +kernel⟩

end Example

end ArticCache

end GbaStation.FileSys
