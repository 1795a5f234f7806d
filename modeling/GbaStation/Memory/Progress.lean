import GbaStation.Memory.Pointers

/-!
# Operations that return

On a well-formed manager no assertion of an operation fails as long as its range is made of pages
and inside the space. A well-formed manager's areas are `Sound`: they are made of pages, and the
memory behind them lies in one host allocation. Allocations are `Apart`, so that merging two areas
never makes one across two of them (`SplitVMA` could not cut such an area).
-/

namespace GbaStation.Memory

open Kernel (Result)
open Segment (Tiles Covers Cut Update DividesAt Merges sweep settle tiles_append)
open VirtualMemoryArea (base_def size_def)
open Option (some.inj bind_eq_some_iff bind_eq_bind bind_some)
open Or (inl inr)

/-- Host allocations with a gap between any two. -/
def Apart (mems : BackingMem → Prop) : Prop :=
  ∀ m m', mems m → mems m' → m ≠ m' → m.ptr + m.size < m'.ptr ∨ m'.ptr + m'.size < m.ptr

/-- The first `size` bytes behind a reference are inside one of the allocations. -/
def MemoryRef.Within (mems : BackingMem → Prop) (r : MemoryRef) (size : Nat) : Prop :=
  ∃ m, mems m ∧ r.backingMem = some m ∧ r.offset + size ≤ m.size

/-- An area of whole pages with its memory inside one allocation. -/
structure VirtualMemoryArea.Sound (mems : BackingMem → Prop) (v : VirtualMemoryArea) : Prop where
  base : v.base % pageSize = 0
  size : v.size % pageSize = 0
  within : v.type = .backingMemory → v.backingMemory.Within mems v.size

variable {a off : Nat}

namespace VirtualMemoryArea

variable {mems : BackingMem → Prop} {v p n : VirtualMemoryArea}

theorem mod_sub {b : Nat} (ha : a % pageSize = 0) (hb : b % pageSize = 0) :
    (a + b) % pageSize = 0 ∧ (a - b) % pageSize = 0 := by
  unfold pageSize at *
  omega

/-- An area can be cut at any page inside it. -/
theorem Sound.backingAt (h : v.Sound mems) (hlt : off < v.size) (hoff : off % pageSize = 0) :
    ∃ backing, v.backingAt off = some backing ∧
      ({ v with size := off } : VirtualMemoryArea).Sound mems ∧
      ({ v with base := v.base + off, size := v.size - off, backingMemory := backing } :
        VirtualMemoryArea).Sound mems := by
  have hbase : (v.base + off) % pageSize = 0 := (mod_sub h.base hoff).1
  have hsize : (v.size - off) % pageSize = 0 := (mod_sub h.size hoff).2
  unfold VirtualMemoryArea.backingAt
  cases ht : v.type with
  | free => exact ⟨v.backingMemory, rfl, ⟨h.base, hoff, nofun⟩, ⟨hbase, hsize, nofun⟩⟩
  | backingMemory =>
    obtain ⟨m, hm, hr, hin⟩ := h.within ht
    have hget : v.backingMemory.getSize = m.size - v.backingMemory.offset := by
      unfold MemoryRef.getSize
      rw [hr]
    refine ⟨{ v.backingMemory with offset := v.backingMemory.offset + off }, ?_,
      ⟨h.base, hoff, fun _ => ⟨m, hm, hr, ?_⟩⟩, ⟨hbase, hsize, fun _ => ⟨m, hm, hr, ?_⟩⟩⟩
    · show v.backingMemory.advance off = _
      unfold MemoryRef.advance
      rw [if_pos (by omega)]
    · show v.backingMemory.offset + off ≤ m.size
      omega
    · show v.backingMemory.offset + off + (v.size - off) ≤ m.size
      omega

/-- Areas that can be merged have their memory in one allocation. -/
theorem Sound.glue (hap : Apart mems) (hp : p.Sound mems) (hn : n.Sound mems)
    (hm : Segment.Merges p n) : (Segment.glue p n).Sound mems := by
  obtain ⟨-, -, ht, hptr⟩ := hm
  refine ⟨hp.base, (mod_sub hp.size hn.size).1, fun htype => ?_⟩
  have htype' : p.type = .backingMemory := htype
  obtain ⟨m, hm, hr, hin⟩ := hp.within htype'
  obtain ⟨m', hm', hr', hin'⟩ := hn.within (ht ▸ htype')
  have heq := hptr htype'
  unfold MemoryRef.getPtr at heq
  simp only [hr, hr'] at heq
  refine ⟨m, hm, hr, ?_⟩
  show p.backingMemory.offset + (p.size + n.size) ≤ m.size
  by_cases hmm : m = m'
  · subst hmm
    omega
  · rcases hap m m' hm hm' hmm with h | h
    · omega
    · omega

end VirtualMemoryArea

open VirtualMemoryArea (pageAttr mod_sub)

namespace VMManager

variable {mems : BackingMem → Prop} {s s' : VMManager}

/-- A manager on which no operation that is asked for pages fails an assertion. -/
structure WellFormed (mems : BackingMem → Prop) (s : VMManager) : Prop extends Intact s where
  apart : Apart mems
  sound : ∀ v ∈ areas s.vmaMap, v.Sound mems
  /-- Free memory has no permissions and no state. -/
  plain : ∀ a p, Segment.view (areas s.vmaMap) a = some p → p.type = .free → p = {}

/-- Areas that tile the space, are sound and plain where they are free. -/
theorem wellFormed_of_areas {vs : List VirtualMemoryArea} (hm : s.vmaMap = keyed vs)
    (hl : s.isLocked = false) (ht : Tiles 0 vs maxAddress) (hap : Apart mems)
    (hsound : ∀ v ∈ vs, v.Sound mems)
    (hplain : ∀ v ∈ vs, v.type = .free →
      v.permissions = VMAPermission.none ∧ v.meminfoState = .free) : WellFormed mems s where
  isLocked := hl
  keyedByBase := hm ▸ keyedByBase_keyed vs
  tiles := by
    rw [hm, areas_keyed]
    exact ht
  apart := hap
  sound := by
    rw [hm, areas_keyed]
    exact hsound
  plain := by
    rw [hm, areas_keyed]
    intro a p hp hfree
    obtain ⟨v, hfind, rfl⟩ := Option.map_eq_some_iff.mp hp
    have hfree' : v.type = .free := hfree
    obtain ⟨hperms, hstate⟩ := hplain v (List.mem_of_find?_eq_some hfind) hfree'
    show v.pageAttr a = {}
    unfold pageAttr
    rw [hfree', hperms, hstate]

/-! ## Carving -/

variable {done rest todo : List VirtualMemoryArea} {memory : MemoryRef} {res : Result}

section Carving

variable {vs xs ys : List VirtualMemoryArea} {v : VirtualMemoryArea}

/-- Areas divided at an address, all of them sound. -/
structure DividesSound (mems : BackingMem → Prop) (lo hi : Nat) (vs : List VirtualMemoryArea)
    (mid : Nat) (ls rs : List VirtualMemoryArea) : Prop where
  divides : DividesAt lo hi vs mid ls rs
  left : ∀ v ∈ ls, v.Sound mems
  right : ∀ v ∈ rs, v.Sound mems

theorem splitVMA_some (h : Tiles 0 (xs ++ v :: ys) maxAddress) (hs : v.Sound mems) (h0 : 0 < off)
    (hlt : off < v.size) (hoff : off % pageSize = 0) :
    ∃ l r, Cut v (v.base + off) l r ∧ l.Sound mems ∧ r.Sound mems ∧ l.type = v.type ∧
      r.type = v.type ∧ splitVMA v.base off (keyed (xs ++ v :: ys)) =
        some (v.base + off, keyed (xs ++ l :: r :: ys)) := by
  obtain ⟨backing, hback, hl, hr⟩ := hs.backingAt hlt hoff
  obtain ⟨hcut, heq⟩ := splitVMA_eq h h0 hlt hback
  exact ⟨_, _, hcut, hl, hr, rfl, rfl, heq⟩

theorem splitBefore_some (h : Tiles 0 (xs ++ v :: ys) maxAddress)
    (hs : ∀ w ∈ xs ++ v :: ys, w.Sound mems) {target : Nat} (ht : target % pageSize = 0)
    (hv : Covers v target) :
    ∃ ls rs, DividesSound mems 0 maxAddress (xs ++ v :: ys) target ls rs ∧
      splitBefore v.base target (keyed (xs ++ v :: ys)) = some (target, keyed (ls ++ rs)) := by
  have hlim : maxAddress = 0x40000000 := rfl
  have hlo : v.base ≤ target := hv.1
  have hhi : target < v.base + v.size := hv.2
  obtain ⟨-, -, -, hle, -⟩ := focus h
  have hb := (hs v (by simp)).base
  unfold splitBefore
  rw [get?_keyed h]
  simp only [bind_eq_bind, bind_some]
  by_cases hne : target = v.base
  · subst hne
    rw [if_neg (not_not.mpr rfl)]
    obtain ⟨m, hxs', hys⟩ := tiles_append.mp h
    obtain rfl : v.base = m := hys.1
    obtain ⟨hxs, hvs⟩ := List.forall_mem_append.mp hs
    exact ⟨xs, v :: ys, ⟨.between hxs' hys, hxs, hvs⟩, rfl⟩
  · rw [if_pos hne, sub32_eq hlo (by omega)]
    obtain ⟨hxs, hvs⟩ := List.forall_mem_append.mp hs
    obtain ⟨l, r, hcut, hl, hr, -, -, heq⟩ := splitVMA_some h (hs v (by simp))
      (show 0 < target - v.base by omega) (by omega) (mod_sub ht hb).2
    rw [Nat.add_sub_cancel' hlo] at hcut heq
    refine ⟨xs ++ [l], r :: ys, ⟨.across h hcut, ?_, ?_⟩, by rw [heq]; simp⟩
    · exact List.forall_mem_append.mpr ⟨hxs, by simpa using hl⟩
    · exact List.forall_mem_cons.mpr ⟨hr, (List.forall_mem_cons.mp hvs).2⟩

theorem splitAtEnd_some {rs : List VirtualMemoryArea} {target e : Nat} (hd : Tiles 0 done target)
    (hrs : Tiles target rs maxAddress) (hlt : target < e) (hle : e ≤ maxAddress)
    (he : e % pageSize = 0) (hds : ∀ w ∈ done, w.Sound mems) (hss : ∀ w ∈ rs, w.Sound mems) :
    ∃ todo rest, DividesAt target maxAddress rs e todo rest ∧ (∀ w ∈ todo, w.Sound mems) ∧
      (∀ w ∈ rest, w.Sound mems) ∧
      splitAtEnd e (keyed (done ++ rs)) = some (keyed (done ++ (todo ++ rest))) := by
  have hall : Tiles 0 (done ++ rs) maxAddress := tiles_append.mpr ⟨target, hd, hrs⟩
  unfold splitAtEnd
  rcases Nat.lt_or_eq_of_le hle with hlt' | rfl
  · obtain ⟨xs, v, ys, heq, hv, hfind⟩ := findVMA_cover hall hlt'
    have hs : ∀ w ∈ xs ++ v :: ys, w.Sound mems := by
      rw [← heq]
      exact List.forall_mem_append.mpr ⟨hds, hss⟩
    obtain ⟨ls, rest, hdiv, hsplit⟩ := splitBefore_some (heq ▸ hall) hs he hv
    obtain ⟨todo, rfl, hdiv'⟩ := DividesAt.of_append hd hrs hlt (heq ▸ hdiv.divides)
    refine ⟨todo, rest, hdiv', fun w hw => hdiv.left w (List.mem_append_right _ hw), hdiv.right, ?_⟩
    rw [hfind]
    simp only [heq, hsplit, Option.map_some, List.append_assoc]
  · rw [findVMA_none _ (Nat.le_refl _)]
    have hb : DividesAt target maxAddress (rs ++ []) maxAddress rs [] := .between hrs rfl
    rw [List.append_nil] at hb
    exact ⟨rs, [], hb, hss, by simp, by simp⟩

/-- The areas that `CarveVMARange` and `ChangeMemoryState` look at are the ones that overlap the
range. -/
theorem overlap_keyed (h : Tiles 0 vs maxAddress) {target e : Nat} (hlt : target < maxAddress)
    (hle : target < e) :
    ∃ xs v ys entries, vs = xs ++ v :: ys ∧ Covers v target ∧
      findVMA (keyed vs) target = some v.base ∧
      OrdMap.range (keyed vs) v.base (OrdMap.lowerBound (keyed vs) e) = some entries ∧
      ∀ f : VirtualMemoryArea → Bool, (entries.any fun p => f p.2) = true ↔
        ∃ w ∈ vs, target < w.base + w.size ∧ w.base < e ∧ f w = true := by
  obtain ⟨xs, v, ys, rfl, hv, hfind⟩ := findVMA_cover h hlt
  have hvlo : v.base ≤ target := hv.1
  have hvhi : target < v.base + v.size := hv.2
  obtain ⟨-, -, -, -, hxs, hys⟩ := focus h
  obtain ⟨as, hrange, has, hmem⟩ := range_keyed h (show v.base < e by omega)
  refine ⟨xs, v, ys, _, rfl, hv, hfind, hrange, fun f => ?_⟩
  rw [List.any_eq_true]
  constructor
  · rintro ⟨p, hp, hf⟩
    obtain ⟨w, hw, rfl⟩ := List.mem_map.mp hp
    rcases List.mem_cons.mp hw with rfl | hw
    · exact ⟨w, by simp, hvhi, by omega, hf⟩
    · obtain ⟨hw, hlt⟩ := has w hw
      have hbounds := hys.mem_bounds hw
      rw [base_def] at hbounds
      exact ⟨w, by simp [hw], by omega, hlt, hf⟩
  · rintro ⟨w, hw, hlo, hhi, hf⟩
    refine ⟨(w.base, w), List.mem_map_of_mem (hmem w hw ?_ hhi), hf⟩
    rcases List.mem_append.mp hw with hw' | hw'
    · have hbounds := hxs.mem_bounds hw'
      rw [base_def, size_def] at hbounds
      omega
    · rcases List.mem_cons.mp hw' with rfl | hw'
      · exact Nat.le_refl _
      · have hbounds := hys.mem_bounds hw'
        rw [base_def] at hbounds
        omega

/-- `CarveVMARange` returns: an error if a free area is in the range, or else the map divided at
both ends of the range. -/
theorem carveVMARange_some (h : Tiles 0 vs maxAddress) (hs : ∀ w ∈ vs, w.Sound mems)
    {target size : Nat} (ht : target % pageSize = 0) (hsz : size % pageSize = 0) (hpos : 0 < size)
    (hle : target + size ≤ maxAddress) :
    ((∃ w ∈ vs, target < w.base + w.size ∧ w.base < target + size ∧ w.type = .free) ∧
        carveVMARange target size (keyed vs) = some (.error Result.invalidAddressState, keyed vs)) ∨
      (∀ w ∈ vs, target < w.base + w.size → w.base < target + size → w.type ≠ .free) ∧
        ∃ done todo rest, Carved vs target (target + size) done todo rest ∧
          (∀ w ∈ done, w.Sound mems) ∧ (∀ w ∈ todo, w.Sound mems) ∧ (∀ w ∈ rest, w.Sound mems) ∧
          carveVMARange target size (keyed vs) =
            some (.ok target, keyed (done ++ (todo ++ rest))) := by
  have hlim : maxAddress = 0x40000000 := rfl
  have hend : (target + size) % pageSize = 0 := (mod_sub ht hsz).1
  obtain ⟨xs, v, ys, entries, rfl, hv, hfind, hrange, hany⟩ :=
    overlap_keyed h (show target < maxAddress by omega) (show target < target + size by omega)
  have hany := hany fun w => decide (w.type = .free)
  simp only [decide_eq_true_eq] at hany
  have hcarve : carveVMARange target size (keyed (xs ++ v :: ys)) =
      if (entries.any fun e => decide (e.2.type = .free)) = true then
        some (.error Result.invalidAddressState, keyed (xs ++ v :: ys))
      else (splitBefore v.base target (keyed (xs ++ v :: ys))).bind fun r =>
        (splitAtEnd (target + size) r.2).bind fun m => some (.ok r.1, m) := by
    unfold carveVMARange
    rw [add32_eq (by omega)]
    simp only [hfind, hrange, bind_eq_bind, bind_some]
    rw [if_neg (by omega), if_neg (by omega)]
  by_cases hfree : ∃ w ∈ xs ++ v :: ys,
      target < w.base + w.size ∧ w.base < target + size ∧ w.type = .free
  · exact inl ⟨hfree, hcarve.trans (if_pos (hany.mpr hfree))⟩
  · obtain ⟨ls, rs, hdiv, hbefore⟩ := splitBefore_some h hs ht hv
    obtain ⟨hd, hrs⟩ := hdiv.divides.tiles
    obtain ⟨todo, rest, hdiv', htodo, hrest, hsplit⟩ :=
      splitAtEnd_some hd hrs (show target < target + size by omega) hle hend hdiv.left hdiv.right
    rw [if_neg (mt hany.mp hfree), hbefore] at hcarve
    simp only [bind_some, hsplit] at hcarve
    exact inr ⟨fun w hw hlo hhi hw' => hfree ⟨w, hw, hlo, hhi, hw'⟩, ls, todo, rest,
      ⟨⟨rs, hdiv.divides, hdiv'⟩, by omega⟩, hdiv.left, htodo, hrest, hcarve⟩

theorem splitEnd_some (h : Tiles 0 (xs ++ v :: ys) maxAddress)
    (hs : ∀ w ∈ xs ++ v :: ys, w.Sound mems) (h0 : 0 < off) (hle : off ≤ v.size)
    (hoff : off % pageSize = 0) :
    ∃ w rest, DividesSound mems 0 maxAddress (xs ++ v :: ys) (v.base + off) (xs ++ [w]) rest ∧
      w.base = v.base ∧ w.size = off ∧ w.type = v.type ∧
      splitEnd v.base off v.size (keyed (xs ++ v :: ys)) = some (keyed (xs ++ w :: rest)) := by
  obtain ⟨hxs, hvs⟩ := List.forall_mem_append.mp hs
  obtain ⟨hv, hys⟩ := List.forall_mem_cons.mp hvs
  unfold splitEnd
  rcases Nat.lt_or_eq_of_le hle with hlt | rfl
  · obtain ⟨l, r, hcut, hl, hr, hlt', -, heq⟩ := splitVMA_some h hv h0 hlt hoff
    have hlb : l.base = v.base := hcut.base_left
    have hle : l.base + l.size = v.base + off := hcut.end_left
    rw [if_pos (Nat.ne_of_lt hlt), heq]
    refine ⟨l, r :: ys, ⟨.across h hcut, ?_, ?_⟩, hlb, by omega, hlt', rfl⟩
    · exact List.forall_mem_append.mpr ⟨hxs, by simpa using hl⟩
    · exact List.forall_mem_cons.mpr ⟨hr, hys⟩
  · rw [if_neg (not_not.mpr rfl)]
    obtain ⟨m, hxs', hvs'⟩ := tiles_append.mp h
    obtain ⟨m', hv', hys'⟩ := Segment.tiles_cons.mp hvs'
    obtain rfl : v.base = m := hv'.1
    obtain rfl : v.base + v.size = m' := hv'.2.2
    refine ⟨v, ys, ⟨?_, ?_, hys⟩, rfl, rfl, rfl, rfl⟩
    · have := DividesAt.between (tiles_append.mpr ⟨v.base, hxs', hv'⟩) hys'
      simpa using this
    · exact List.forall_mem_append.mpr ⟨hxs, by simpa using hv⟩

theorem splitStart_some {w : VirtualMemoryArea} (h : Tiles 0 (xs ++ w :: rest) maxAddress)
    {start e : Nat} (hw : Tiles 0 (xs ++ [w]) e) (hxs : ∀ x ∈ xs, x.Sound mems) (hs : w.Sound mems)
    (hlt : start < w.size) (hstart : start % pageSize = 0) :
    ∃ done x, DividesAt 0 e (xs ++ [w]) (w.base + start) done [x] ∧ x.type = w.type ∧
      (∀ x ∈ done, x.Sound mems) ∧ x.Sound mems ∧
      splitStart w.base start (keyed (xs ++ w :: rest)) =
        some (w.base + start, keyed (done ++ x :: rest)) := by
  unfold splitStart
  rcases Nat.eq_zero_or_pos start with rfl | hpos
  · obtain ⟨m, hxs', hw'⟩ := tiles_append.mp hw
    obtain rfl : w.base = m := hw'.1
    rw [if_neg (not_not.mpr rfl)]
    exact ⟨xs, w, .between hxs' hw', rfl, hxs, hs, rfl⟩
  · obtain ⟨l, r, hcut, hl, hr, -, hrt, heq⟩ := splitVMA_some h hs hpos hlt hstart
    rw [if_pos (Nat.ne_of_gt hpos), heq]
    refine ⟨xs ++ [l], r, .across hw hcut, hrt, ?_, hr, by simp⟩
    exact List.forall_mem_append.mpr ⟨hxs, by simpa using hl⟩

/-- `CarveVMA` cuts a range of pages out of the free area around it. -/
theorem carveVMA_some (h : Tiles 0 (xs ++ v :: ys) maxAddress)
    (hs : ∀ w ∈ xs ++ v :: ys, w.Sound mems) {base size : Nat} (hb : base % pageSize = 0)
    (hsz : size % pageSize = 0) (hpos : 0 < size) (hfree : v.type = .free) (hlo : v.base ≤ base)
    (hhi : base + size ≤ v.base + v.size) :
    ∃ ls done x rest, DividesAt 0 maxAddress (xs ++ v :: ys) (base + size) ls rest ∧
      DividesAt 0 (base + size) ls base done [x] ∧ x.type = .free ∧
      (∀ w ∈ done, w.Sound mems) ∧ x.Sound mems ∧ (∀ w ∈ rest, w.Sound mems) ∧
      carveVMA base size (keyed (xs ++ v :: ys)) = some (.ok base, keyed (done ++ x :: rest)) := by
  have hlim : maxAddress = 0x40000000 := rfl
  obtain ⟨-, -, -, hle, -⟩ := focus h
  have hv := hs v (by simp)
  have hstart : (base - v.base) % pageSize = 0 := (mod_sub hb hv.base).2
  have hend : (base - v.base + size) % pageSize = 0 := (mod_sub hstart hsz).1
  have hcov : Covers v base := ⟨hlo, show base < v.base + v.size by omega⟩
  obtain ⟨w, rest, hdiv, hwb, hws, hwt, hsplit⟩ := splitEnd_some h hs
    (show 0 < base - v.base + size by omega) (by omega) hend
  rw [show v.base + (base - v.base + size) = base + size by omega] at hdiv
  obtain ⟨hxw, hrest⟩ := hdiv.divides.tiles
  have hall : Tiles 0 (xs ++ w :: rest) maxAddress := by
    have := tiles_append.mpr ⟨_, hxw, hrest⟩
    simpa using this
  obtain ⟨hxs, hw⟩ := List.forall_mem_append.mp hdiv.left
  obtain ⟨done, x, hdiv', hxt, hdone, hx, hsplit'⟩ := splitStart_some hall hxw hxs
    (hw w (by simp)) (show base - v.base < w.size by omega) hstart
  rw [show w.base + (base - v.base) = base by omega] at hdiv' hsplit'
  refine ⟨xs ++ [w], done, x, rest, hdiv.divides, hdiv', (hxt.trans hwt).trans hfree, hdone, hx,
    hdiv.right, ?_⟩
  unfold carveVMA
  rw [if_neg (by omega), findVMA_keyed h hcov]
  simp only [get?_keyed h, bind_eq_bind, bind_some, hfree, ne_eq, not_true_eq_false, if_false]
  rw [sub32_eq hlo (by omega), add32_eq (by omega), if_neg (by omega), hsplit]
  simp only [bind_some]
  rw [hwb] at hsplit'
  rw [hsplit']
  rfl

end Carving

/-! ## The operations -/

variable {vs' : List VirtualMemoryArea} {target e size : Nat}

/-- What is left to show after a rewriting: the new areas are sound, and nothing that is not plain
becomes free. -/
theorem Rewritten.wellFormed {g : Nat → PageAttr → PageAttr} {keeps : Prop}
    (h : Rewritten (areas s.vmaMap) vs' target e g keeps) (hs : WellFormed mems s)
    (hl : s'.isLocked = false) (hm : s'.vmaMap = keyed vs') (hsound : ∀ v ∈ vs', v.Sound mems)
    (hg : ∀ a p, target ≤ a → a < e → Segment.view (areas s.vmaMap) a = some p →
      (g a p).type = .free → g a p = {}) : WellFormed mems s' where
  toIntact := h.intact hl hm
  apart := hs.apart
  sound := by
    rw [hm, areas_keyed]
    exact hsound
  plain := by
    rw [hm, areas_keyed]
    intro a p hp
    rw [h.view] at hp
    split_ifs at hp with ha
    · obtain ⟨q, hq, rfl⟩ := Option.map_eq_some_iff.mp hp
      exact hg a q ha.1 ha.2 hq
    · exact hs.plain a p hp

theorem sound_glue (hap : Apart mems) (p n : VirtualMemoryArea) (hp : p.Sound mems)
    (hn : n.Sound mems) (hm : Segment.Merges p n) : (Segment.glue p n).Sound mems :=
  VirtualMemoryArea.Sound.glue hap hp hn hm

/-- `MapBackingMemory` maps pages that lie in one free area. -/
theorem mapBackingMemory_ok (h : WellFormed mems s) (ht : target % pageSize = 0)
    (hsz : size % pageSize = 0) (hpos : 0 < size) (state : MemoryState) (hptr : memory.getPtr ≠ 0)
    {v : VirtualMemoryArea} (hv : v ∈ areas s.vmaMap) (hfree : v.type = .free)
    (hlo : v.base ≤ target) (hhi : target + size ≤ v.base + v.size) :
    ∃ done x rest k, (∀ w ∈ done, w.Sound mems) ∧ x.Sound mems ∧ (∀ w ∈ rest, w.Sound mems) ∧
      x.size = size ∧ mapBackingMemory target memory size state s = some (.ok k,
        VMManager.mk (keyed (settle done (backed memory state x) rest)) s.isLocked) := by
  obtain ⟨xs, ys, hxs⟩ := List.append_of_mem hv
  have htiles : Tiles 0 (xs ++ v :: ys) maxAddress := hxs ▸ h.tiles
  have hm : s.vmaMap = keyed (xs ++ v :: ys) := hxs ▸ h.keyedByBase.eq_keyed
  obtain ⟨ls, done, x, rest, hend, hstart, -, hdone, hx, hrest, hcarve⟩ :=
    carveVMA_some htiles (hxs ▸ h.sound) ht hsz hpos hfree hlo hhi
  rw [← hm] at hcarve
  obtain ⟨hd, htx⟩ := hstart.tiles
  obtain ⟨zs, l, hpush, hcall⟩ := mapBackingMemory_carved h.isLocked hptr hd htx hend.tiles.2 hcarve
  have hxe : target + x.size = target + size := htx.2.2
  refine ⟨done, x, rest, l.base, hdone, hx, hrest, by omega, ?_⟩
  rw [hcall, settle, hpush, List.append_assoc, List.singleton_append]

theorem mapBackingMemory_some (h : WellFormed mems s) (ht : target % pageSize = 0)
    (hsz : size % pageSize = 0) (hpos : 0 < size) (state : MemoryState) (hptr : memory.getPtr ≠ 0)
    (hin : memory.Within mems size) {v : VirtualMemoryArea} (hv : v ∈ areas s.vmaMap)
    (hfree : v.type = .free) (hlo : v.base ≤ target) (hhi : target + size ≤ v.base + v.size) :
    ∃ k s', mapBackingMemory target memory size state s = some (.ok k, s') ∧
      WellFormed mems s' := by
  have hlim : maxAddress = 0x40000000 := rfl
  have hbound := (h.tiles.mem_bounds hv).2.2
  rw [base_def, size_def] at hbound
  obtain ⟨done, x, rest, k, hdone, hx, hrest, hxsize, hcall⟩ :=
    mapBackingMemory_ok h ht hsz hpos state hptr hv hfree hlo hhi
  refine ⟨_, _, hcall, ?_⟩
  rcases mapBackingMemory_effect h.tiles h.keyedByBase.eq_keyed (show size < 2 ^ 32 by omega) hcall
    with ⟨e, -, he, -⟩ | ⟨-, hl, -, -, vs', hvs', hrew⟩
  · cases he
  · have hareas : vs' = settle done (backed memory state x) rest := by
      rw [← areas_keyed vs', ← hvs', areas_keyed]
    refine hrew.wellFormed h (hl.trans h.isLocked) hvs' ?_ fun a p _ _ _ hp => ?_
    · rw [hareas]
      exact Segment.forall_settle (sound_glue h.apart) hdone
        ⟨hx.base, hx.size, fun _ => by rw [← hxsize] at hin; exact hin⟩ hrest
    · cases hp

/-- Every address of `[target, e)` has attributes that satisfy `R`. -/
def RangeAll (R : PageAttr → Prop) (s : VMManager) (target e : Nat) : Prop :=
  ∀ a, target ≤ a → a < e → ∃ p, Segment.view (areas s.vmaMap) a = some p ∧ R p

/-- What `ChangeMemoryState` expects of the range. -/
def Expected (expectedState : MemoryState) (expectedPerms : VMAPermission) (p : PageAttr) : Prop :=
  p.meminfoState = expectedState ∧ p.permissions &&& expectedPerms = expectedPerms

/-- The address is mapped. -/
def Mapped (p : PageAttr) : Prop := p.type ≠ .free

/-- What is mapped has a host address. -/
theorem Intact.pointer_of_mapped (h : Intact s) {p : PageAttr}
    (hp : Segment.view (areas s.vmaMap) a = some p) (hmapped : Mapped p) :
    ∃ q, p.pointer = some q := by
  have ha : a < maxAddress := by
    by_contra hge
    rw [h.tiles.view_eq_none (inr (Nat.le_of_not_lt hge))] at hp
    cases hp
  obtain ⟨xs, v, ys, hs, hv⟩ := h.tiles.exists_cover (Nat.zero_le a) ha
  have htiles : Tiles 0 (xs ++ v :: ys) maxAddress := hs ▸ h.tiles
  rw [hs, htiles.view_eq hv] at hp
  obtain rfl := some.inj hp
  show ∃ q, (v.pageAttr a).pointer = some q
  unfold pageAttr
  cases ht : v.type with
  | free => exact absurd ht hmapped
  | backingMemory => exact ⟨_, rfl⟩

theorem rangeAll_iff (h : Intact s) (hlt : target < e) (hle : e ≤ maxAddress)
    {Q : VirtualMemoryArea → Prop} {R : PageAttr → Prop} (hQ : ∀ v a, R (v.pageAttr a) ↔ Q v) :
    RangeAll R s target e ↔
      ∀ w ∈ areas s.vmaMap, target < w.base + w.size → w.base < e → Q w :=
  (h.tiles.forall_overlap (Nat.zero_le _) hlt hle fun v a _ => hQ v a).symm

theorem rangeAll_mapped (h : Intact s) (hlt : target < e) (hle : e ≤ maxAddress) :
    RangeAll Mapped s target e ↔
      ∀ w ∈ areas s.vmaMap, target < w.base + w.size → w.base < e → w.type ≠ .free :=
  rangeAll_iff h hlt hle fun _ _ => Iff.rfl

/-- `CarveVMARange` on a well-formed manager refuses a range that is not mapped as a whole. -/
theorem carveVMARange_wellFormed (h : WellFormed mems s) (ht : target % pageSize = 0)
    (hsz : size % pageSize = 0) (hpos : 0 < size) (hle : target + size ≤ maxAddress) :
    (¬ RangeAll Mapped s target (target + size) ∧
        carveVMARange target size s.vmaMap = some (.error Result.invalidAddressState, s.vmaMap)) ∨
      RangeAll Mapped s target (target + size) ∧
        ∃ done todo rest, Carved (areas s.vmaMap) target (target + size) done todo rest ∧
          (∀ w ∈ done, w.Sound mems) ∧ (∀ w ∈ todo, w.Sound mems) ∧ (∀ w ∈ rest, w.Sound mems) ∧
          carveVMARange target size s.vmaMap = some 
            (.ok target, keyed (done ++ (todo ++ rest))) := by
  have hm := h.keyedByBase.eq_keyed
  have hcarve := carveVMARange_some h.tiles h.sound ht hsz hpos hle
  rw [← hm] at hcarve
  rw [rangeAll_mapped h.toIntact (by omega) hle]
  rcases hcarve with ⟨⟨w, hw, hlo, hhi, hfree⟩, hcarve⟩ | hcarve
  · exact inl ⟨fun hall => hall w hw hlo hhi hfree, hcarve⟩
  · exact inr hcarve

/-- The areas that were carved out of a range that is mapped are mapped. -/
theorem Carved.mapped (hc : Carved (areas s.vmaMap) target e done todo rest)
    (hmap : RangeAll Mapped s target e) : ∀ x ∈ todo, x.type ≠ .free := by
  intro x hx hfree
  obtain ⟨hd, ht, -⟩ := hc.tiles
  obtain ⟨hlo, hpos, hhi⟩ := ht.mem_bounds hx
  rw [base_def, size_def] at *
  obtain ⟨pre, post, rfl⟩ := List.append_of_mem hx
  have hcov : Covers x x.base := ⟨Nat.le_refl _, show x.base < x.base + x.size by omega⟩
  obtain ⟨p, hp, hmp⟩ := hmap x.base hlo (by omega)
  rw [hc.view, hd.view_eq_none (inr hlo), ht.view_eq hcov] at hp
  obtain rfl := some.inj hp
  exact hmp hfree

/-- What an update of the areas makes of a range that is mapped. -/
theorem sweep_wellFormed (h : WellFormed mems s) {upd : VirtualMemoryArea → VirtualMemoryArea}
    {f : PageAttr → PageAttr} (hu : Update upd f) (hsound : ∀ v, v.Sound mems → (upd v).Sound mems)
    (hc : Carved (areas s.vmaMap) target e done todo rest) (hd : ∀ w ∈ done, w.Sound mems)
    (ht : ∀ w ∈ todo, w.Sound mems) (hr : ∀ w ∈ rest, w.Sound mems)
    (hmap : RangeAll Mapped s target e) (hf : ∀ p, Mapped p → (f p).type = .free → f p = {})
    (hl : s'.isLocked = false) (hm : s'.vmaMap = keyed (sweep upd done todo rest)) :
    WellFormed mems s' := by
  refine (updateLoop_carved hu hc).2.wellFormed h hl hm
    (Segment.forall_sweep (sound_glue h.apart) hsound _ _ _ hd ht hr) fun a p ha hae hp => hf p ?_
  obtain ⟨q, hq, hmq⟩ := hmap a ha hae
  obtain rfl := some.inj (hp.symm.trans hq)
  exact hmq

/-! Free areas that an operation does not touch stay as they are. -/

/-- Areas are merged with areas of their own type. -/
theorem free_merges (p n : VirtualMemoryArea) (hm : Merges p n) :
    p.type = .free ↔ n.type = .free := by
  rw [hm.2.2.1]

theorem free_glue (p n : VirtualMemoryArea) (_ : Merges p n) :
    (Segment.glue p n).type = .free ↔ p.type = .free := Iff.rfl

theorem type_of_attr {v w : VirtualMemoryArea} (h : Segment.attr v a = Segment.attr w a) :
    v.type = w.type :=
  congrArg PageAttr.type h

/-- The free areas of `s` are areas of `s'` too. -/
def KeepsFree (s s' : VMManager) : Prop :=
  ∀ v ∈ areas s.vmaMap, v.type = .free → v ∈ areas s'.vmaMap

/-- A free area is on one side of a range that is mapped. -/
theorem Carved.mem_of_free (hc : Carved (areas s.vmaMap) target e done todo rest)
    (hmap : RangeAll Mapped s target e) {v : VirtualMemoryArea} (hv : v ∈ areas s.vmaMap)
    (hfree : v.type = .free) : v ∈ done ∨ v ∈ rest := by
  have hmapped := hc.mapped hmap
  have hne := hc.todo_ne_nil
  obtain ⟨rs, hleft, hright⟩ := hc.left
  have hrs : v ∈ done ∨ v ∈ rs := by
    rcases hleft.mem hv with hd | hr | ⟨-, r, hr, hattr⟩
    · exact inl hd
    · exact inr hr
    · -- the area across the start of the range is not free
      obtain ⟨l, hl, hattr'⟩ := hright.head_left hne hr
      have htype :=
        (type_of_attr (hattr' target)).trans (type_of_attr (hattr target (Nat.le_refl _)))
      exact absurd (htype.trans hfree) (hmapped l hl)
  refine hrs.imp_right fun hr => ?_
  rcases hright.mem hr with ht | hr | ⟨⟨l, hl, hattr⟩, -⟩
  · exact absurd hfree (hmapped v ht)
  · exact hr
  · exact absurd ((type_of_attr (hattr 0)).trans hfree) (hmapped l hl)

theorem sweep_keepsFree {upd : VirtualMemoryArea → VirtualMemoryArea}
    (hupd : ∀ v, (upd v).type = .free → v.type = .free)
    (hc : Carved (areas s.vmaMap) target e done todo rest) (hmap : RangeAll Mapped s target e)
    (hm : s'.vmaMap = keyed (sweep upd done todo rest)) : KeepsFree s s' := by
  intro v hv hfree
  rw [hm, areas_keyed]
  exact Segment.mem_sweep (K := fun v => v.type = .free) free_merges free_glue hupd hfree _ _ _
    (hc.mapped hmap) (hc.mem_of_free hmap hv hfree)

/-- `ChangeMemoryState` succeeds on a range that is as expected and mapped only. -/
theorem changeMemoryState_expected (h : Intact s) (hpos : 0 < size)
    (hle : target + size ≤ maxAddress) {expectedState newState : MemoryState}
    {expectedPerms newPerms : VMAPermission} (hres : res.isSuccess = true)
    (hcall : changeMemoryState target size expectedState expectedPerms newState newPerms s =
      some (res, s')) :
    RangeAll (fun p => Expected expectedState expectedPerms p ∧ Mapped p) s target
      (target + size) := by
  have hlim : maxAddress = 0x40000000 := rfl
  have hlt : target < target + size := by omega
  have hm := h.keyedByBase.eq_keyed
  obtain ⟨xs, v, ys, entries, -, -, hfind, hrange, hany⟩ := overlap_keyed h.tiles
    (show target < maxAddress by omega) hlt
  rw [← hm] at hfind hrange
  rw [rangeAll_iff (Q := fun w => (w.meminfoState = expectedState ∧
    w.permissions &&& expectedPerms = expectedPerms) ∧ w.type ≠ .free) h hlt hle
      fun _ _ => Iff.rfl]
  intro w hw hlo hhi
  unfold changeMemoryState at hcall
  rw [if_neg (by simp [h.isLocked]), add32_eq (by omega)] at hcall
  simp only [hfind, hrange, bind_eq_bind, bind_some] at hcall
  split at hcall
  · obtain ⟨rfl, -⟩ := returned hcall
    cases hres
  next hgood =>
  obtain ⟨⟨r, m⟩, hcarve, hcall⟩ := bind_eq_some_iff.mp hcall
  rw [hm] at hcarve
  rcases carveVMARange_keyed h.tiles (by omega) (by omega) hcarve with ⟨rfl, -⟩ | ⟨-, hfree, -⟩
  · obtain ⟨rfl, -⟩ := returned hcall
    cases hres
  refine ⟨?_, hfree w hw hlo hhi⟩
  by_contra hno
  exact hgood ((hany fun w => decide (w.meminfoState ≠ expectedState ∨
    w.permissions &&& expectedPerms ≠ expectedPerms)).mpr
      ⟨w, hw, hlo, hhi, decide_eq_true (by tauto)⟩)

/-- `CarveVMARange` refuses a range that is not mapped as a whole only. -/
theorem carveVMARange_refused (h : Intact s) (htg : target < 2 ^ 32) (hsz : size < 2 ^ 32)
    {e : Result}
    {m : VMAMap} (hcarve : carveVMARange target size s.vmaMap = some (.error e, m)) :
    ¬ RangeAll Mapped s target (target + size) := by
  have hlim : maxAddress = 0x40000000 := rfl
  have hm := h.keyedByBase.eq_keyed
  obtain ⟨hpos, hle⟩ := carveVMARange_inSpace htg hsz hcarve
  obtain ⟨xs, v, ys, entries, -, -, hfind, hrange, hany⟩ := overlap_keyed h.tiles
    (show target < maxAddress by omega) (show target < target + size by omega)
  rw [← hm] at hfind hrange
  rw [rangeAll_mapped h (by omega) hle]
  intro hall
  unfold carveVMARange at hcarve
  rw [add32_eq (by omega)] at hcarve
  simp only [hfind, hrange, bind_eq_bind, bind_some] at hcarve
  split at hcarve
  · cases hcarve
  split at hcarve
  · cases hcarve
  split at hcarve
  next hfree =>
    obtain ⟨w, hw, hlo, hhi, hwf⟩ := (hany fun w => decide (w.type = .free)).mp hfree
    exact hall w hw hlo hhi (of_decide_eq_true hwf)
  next =>
    obtain ⟨⟨k, m₁⟩, -, hcarve⟩ := bind_eq_some_iff.mp hcarve
    obtain ⟨m₂, -, hcarve⟩ := bind_eq_some_iff.mp hcarve
    cases hcarve

theorem unmapRange_refused (h : Intact s) (htg : target < 2 ^ 32) (hsz : size < 2 ^ 32)
    (hres : res.isSuccess = false) (hcall : unmapRange target size s = some (res, s')) :
    ¬ RangeAll Mapped s target (target + size) := by
  unfold unmapRange at hcall
  rw [if_neg (by simp [h.isLocked])] at hcall
  obtain ⟨⟨r, m⟩, hcarve, hcall⟩ := bind_eq_some_iff.mp hcall
  cases r with
  | error e => exact carveVMARange_refused h htg hsz hcarve
  | ok k =>
    obtain ⟨m', -, hcall⟩ := bind_eq_some_iff.mp hcall
    obtain ⟨k', -, hcall⟩ := bind_eq_some_iff.mp hcall
    obtain ⟨v, -, hcall⟩ := bind_eq_some_iff.mp hcall
    split at hcall
    · cases hcall
    · obtain ⟨rfl, -⟩ := returned hcall
      cases hres

/-- `ChangeMemoryState` refuses a range that is not as expected or not mapped only. -/
theorem changeMemoryState_refused (h : Intact s) (hpos : 0 < size)
    (hle : target + size ≤ maxAddress) {expectedState newState : MemoryState}
    {expectedPerms newPerms : VMAPermission} (hres : res.isSuccess = false)
    (hcall : changeMemoryState target size expectedState expectedPerms newState newPerms s =
      some (res, s')) :
    ¬ RangeAll (fun p => Expected expectedState expectedPerms p ∧ Mapped p) s target
      (target + size) := by
  have hlim : maxAddress = 0x40000000 := rfl
  have hlt : target < target + size := by omega
  obtain ⟨xs, v, ys, entries, -, -, hfind, hrange, hany⟩ := overlap_keyed h.tiles
    (show target < maxAddress by omega) hlt
  rw [← h.keyedByBase.eq_keyed] at hfind hrange
  intro hall
  unfold changeMemoryState at hcall
  rw [if_neg (by simp [h.isLocked]), add32_eq (by omega)] at hcall
  simp only [hfind, hrange, bind_eq_bind, bind_some] at hcall
  split at hcall
  next hbad =>
    obtain ⟨w, hw, hlo, hhi, hne⟩ := (hany fun w => decide (w.meminfoState ≠ expectedState ∨
      w.permissions &&& expectedPerms ≠ expectedPerms)).mp hbad
    rw [rangeAll_iff (Q := fun w => (w.meminfoState = expectedState ∧
      w.permissions &&& expectedPerms = expectedPerms) ∧ w.type ≠ .free) h hlt hle
        fun _ _ => Iff.rfl] at hall
    have hgood := (hall w hw hlo hhi).1
    simp [hgood.1, hgood.2] at hne
  next =>
    obtain ⟨⟨r, m⟩, hcarve, hcall⟩ := bind_eq_some_iff.mp hcall
    cases r with
    | error e =>
      refine carveVMARange_refused h (by omega) (by omega) hcarve fun a ha hae => ?_
      obtain ⟨p, hp, -, hmapped⟩ := hall a ha hae
      exact ⟨p, hp, hmapped⟩
    | ok k =>
      obtain ⟨m', -, hcall⟩ := bind_eq_some_iff.mp hcall
      obtain ⟨rfl, -⟩ := returned hcall
      cases hres

/-- `GetBackingBlocksForRange` refuses a range that is not mapped as a whole only. -/
theorem backingBlocksLoop_refused (h : Intact s) (hle : e ≤ maxAddress) {fuel t : Nat}
    {acc : List (MemoryRef × Nat)} {err : Result} (hte : t ≤ e)
    (hloop : backingBlocksLoop s.vmaMap e fuel t acc = some (.error err)) :
    ¬ RangeAll Mapped s t e := by
  induction fuel generalizing t acc with
  | zero => cases hloop
  | succ fuel ih =>
    rcases Nat.lt_or_eq_of_le hte with hlt | rfl
    · rcases backingBlocksLoop_step h hle hlt with ⟨out, hout, heq⟩ | ⟨r, n, hpos, hend, -, heq⟩
      · rw [heq] at hloop
        rcases hout with rfl | ⟨-, p, hp, hfree⟩
        · cases hloop
        · intro hall
          obtain ⟨q, hq, hmapped⟩ := hall t (Nat.le_refl t) hlt
          obtain rfl := some.inj (hp.symm.trans hq)
          exact hmapped hfree
      · rw [heq] at hloop
        exact fun hall => ih hend hloop fun a ha hae => hall a (by omega) hae
    · rw [backingBlocksLoop, if_pos rfl] at hloop
      cases hloop

/-- `ChangeMemoryState` does its work on a range that is as expected and mapped, and refuses any
other. -/
theorem changeMemoryState_some (h : WellFormed mems s) (ht : target % pageSize = 0)
    (hsz : size % pageSize = 0) (hpos : 0 < size) (hle : target + size ≤ maxAddress)
    (expectedState newState : MemoryState) (expectedPerms newPerms : VMAPermission) :
    (¬ RangeAll (fun p => Expected expectedState expectedPerms p ∧ Mapped p) s target
        (target + size) ∧
        ∃ e : Result, e.isSuccess = false ∧
          changeMemoryState target size expectedState expectedPerms newState newPerms s =
            some (e, s)) ∨
      RangeAll (fun p => Expected expectedState expectedPerms p ∧ Mapped p) s target
        (target + size) ∧
        ∃ s', changeMemoryState target size expectedState expectedPerms newState newPerms s =
          some (Result.success, s') ∧ WellFormed mems s' ∧ KeepsFree s s' := by
  have hlim : maxAddress = 0x40000000 := rfl
  have hlt : target < target + size := by omega
  have hm := h.keyedByBase.eq_keyed
  have hiff := rangeAll_iff h.toIntact hlt hle
    (Q := fun w => w.meminfoState = expectedState ∧ w.permissions &&& expectedPerms = expectedPerms)
    (R := Expected expectedState expectedPerms) fun _ _ => Iff.rfl
  obtain ⟨xs, v, ys, entries, -, -, hfind, hrange, hany⟩ := overlap_keyed h.tiles
    (show target < maxAddress by omega) hlt
  rw [← hm] at hfind hrange
  have hany := hany fun w => decide (w.meminfoState ≠ expectedState ∨
    w.permissions &&& expectedPerms ≠ expectedPerms)
  unfold changeMemoryState
  rw [if_neg (by simp [h.isLocked]), add32_eq (by omega)]
  simp only [hfind, hrange, bind_eq_bind, bind_some]
  by_cases hexp : RangeAll (Expected expectedState expectedPerms) s target (target + size)
  · rw [if_neg fun hbad => by
      obtain ⟨w, hw, hlo, hhi, hne⟩ := hany.mp hbad
      have hq := hiff.mp hexp w hw hlo hhi
      simp [hq.1, hq.2] at hne]
    rcases carveVMARange_wellFormed h ht hsz hpos hle with
      ⟨hno, hcarve⟩ | ⟨hmap, done, todo, rest, hc, hd, htd, hr, hcarve⟩
    · rw [hcarve]
      refine inl ⟨fun hall => hno fun a ha hae => ?_, Result.invalidAddressState, rfl, rfl⟩
      obtain ⟨p, hp, -, hmp⟩ := hall a ha hae
      exact ⟨p, hp, hmp⟩
    · have hu := stateChanged_update newState newPerms
      rw [hcarve]
      simp only [bind_some]
      rw [(updateLoop_carved hu hc).1]
      have hfree : ∀ v, (stateChanged newState newPerms v).type = .free → v.type = .free :=
        fun _ hfree => hfree
      refine inr ⟨fun a ha hae => ?_, _, rfl, sweep_wellFormed h hu
        (fun v hv => ⟨hv.base, hv.size, hv.within⟩) hc hd htd hr hmap
        (fun p hp hfree => absurd hfree hp) h.isLocked rfl, sweep_keepsFree hfree hc hmap rfl⟩
      obtain ⟨p, hp, hep⟩ := hexp a ha hae
      obtain ⟨q, hq, hmq⟩ := hmap a ha hae
      obtain rfl := some.inj (hp.symm.trans hq)
      exact ⟨p, hp, hep, hmq⟩
  · have hbad : (entries.any fun e => decide (e.2.meminfoState ≠ expectedState ∨
        e.2.permissions &&& expectedPerms ≠ expectedPerms)) = true := by
      rw [hiff] at hexp
      push Not at hexp
      obtain ⟨w, hw, hlo, hhi, hne⟩ := hexp
      refine hany.mpr ⟨w, hw, hlo, hhi, decide_eq_true ?_⟩
      by_cases hst : w.meminfoState = expectedState
      · exact inr (hne hst)
      · exact inl hst
    rw [if_pos hbad]
    refine inl ⟨fun hall => hexp fun a ha hae => ?_, Result.invalidAddressState, rfl, rfl⟩
    obtain ⟨p, hp, hep, -⟩ := hall a ha hae
    exact ⟨p, hp, hep⟩

/-- `UnmapRange` frees a range that is mapped as a whole, and refuses any other. -/
theorem unmapRange_some (h : WellFormed mems s) (ht : target % pageSize = 0)
    (hsz : size % pageSize = 0) (hpos : 0 < size) (hle : target + size ≤ maxAddress) :
    (¬ RangeAll Mapped s target (target + size) ∧
        unmapRange target size s = some (Result.invalidAddressState, s)) ∨
      RangeAll Mapped s target (target + size) ∧
        ∃ s', unmapRange target size s = some (Result.success, s') ∧ WellFormed mems s' := by
  have hlim : maxAddress = 0x40000000 := rfl
  unfold unmapRange
  rw [if_neg (by simp [h.isLocked])]
  rcases carveVMARange_wellFormed h ht hsz hpos hle with
    ⟨hno, hcarve⟩ | ⟨hmap, done, todo, rest, hc, hd, htd, hr, hcarve⟩
  · rw [hcarve]
    exact inl ⟨hno, rfl⟩
  · obtain ⟨htd', htt, htr⟩ := hc.tiles
    -- unmapped areas merge with one another, so that one area is left over the range
    obtain ⟨w, hw, hlo, hhi⟩ := Segment.sweep_covers unmapped_update done todo rest htd' htt htr
      hc.todo_ne_nil (fun _ _ _ _ => ⟨rfl, rfl, rfl, nofun⟩)
      (fun x _ y hy hm => hc.mapped hmap y hy hm.2.2.1.symm) (inl (Eq.refl target))
    obtain ⟨hrun, hrew⟩ := updateLoop_carved unmapped_update hc
    obtain ⟨pre, post, hsplit⟩ := List.append_of_mem hw
    have hlo' : w.base ≤ target := hlo
    have hhi' : target + size ≤ w.base + w.size := hhi
    have htiles : Tiles 0 (pre ++ w :: post) maxAddress := hsplit ▸ hrew.tiles
    have hcov : Covers w target := ⟨hlo', show target < w.base + w.size by omega⟩
    rw [hcarve]
    simp only [bind_eq_bind, bind_some]
    rw [add32_eq (by omega), hrun]
    simp only [bind_some]
    rw [hsplit, findVMA_keyed htiles hcov]
    simp only [bind_some, get?_keyed htiles]
    rw [if_neg (by omega), ← hsplit]
    exact inr ⟨hmap, _, rfl, sweep_wellFormed h unmapped_update
      (fun v hv => ⟨hv.base, hv.size, nofun⟩) hc hd htd hr hmap (fun _ _ _ => rfl) h.isLocked rfl⟩

/-- `ReprotectRange` changes a range that is mapped as a whole, and refuses any other. -/
theorem reprotectRange_some (h : WellFormed mems s) (ht : target % pageSize = 0)
    (hsz : size % pageSize = 0) (hpos : 0 < size) (hle : target + size ≤ maxAddress)
    (newPerms : VMAPermission) :
    (¬ RangeAll Mapped s target (target + size) ∧
        reprotectRange target size newPerms s = some (Result.invalidAddressState, s)) ∨
      RangeAll Mapped s target (target + size) ∧
        ∃ s', reprotectRange target size newPerms s = some (Result.success, s') ∧
          WellFormed mems s' := by
  have hlim : maxAddress = 0x40000000 := rfl
  unfold reprotectRange
  rw [if_neg (by simp [h.isLocked])]
  rcases carveVMARange_wellFormed h ht hsz hpos hle with
    ⟨hno, hcarve⟩ | ⟨hmap, done, todo, rest, hc, hd, htd, hr, hcarve⟩
  · rw [hcarve]
    exact inl ⟨hno, rfl⟩
  · have hu := reprotected_update newPerms
    rw [hcarve]
    simp only [bind_eq_bind, bind_some]
    rw [add32_eq (by omega), (updateLoop_carved hu hc).1]
    exact inr ⟨hmap, _, rfl, sweep_wellFormed h hu (fun v hv => ⟨hv.base, hv.size, hv.within⟩)
      hc hd htd hr hmap (fun p hp hfree => absurd hfree hp) h.isLocked rfl⟩

/-- `Reprotect` of an area that is mapped. -/
theorem reprotect_some (h : WellFormed mems s) {v : VirtualMemoryArea} (hv : v ∈ areas s.vmaMap)
    (hmap : v.type ≠ .free) (newPerms : VMAPermission) :
    ∃ k s', reprotect v.base newPerms s = some (k, s') ∧ WellFormed mems s' ∧ KeepsFree s s' := by
  obtain ⟨xs, ys, hxs⟩ := List.append_of_mem hv
  have htiles : Tiles 0 (xs ++ v :: ys) maxAddress := hxs ▸ h.tiles
  have hm : s.vmaMap = keyed (xs ++ v :: ys) := hxs ▸ h.keyedByBase.eq_keyed
  have hu := reprotected_update newPerms
  obtain ⟨zs, l, hpush, hupd⟩ := updateVMA_keyed hu htiles
  have hcall : reprotect v.base newPerms s =
      some (l.base, VMManager.mk
        (keyed (zs ++ l :: (Segment.absorb (reprotected newPerms v) ys).2)) s.isLocked) := by
    unfold reprotect
    rw [if_neg (by simp [h.isLocked]), hm, hupd]
    rfl
  refine ⟨_, _, hcall, ?_⟩
  obtain ⟨hl, v', vs', hget, hvs', hrew⟩ := reprotect_effect h.tiles h.keyedByBase.eq_keyed hcall
  rw [hm, get?_keyed htiles] at hget
  obtain rfl := some.inj hget
  have hareas : vs' = settle xs (reprotected newPerms v) ys := by
    rw [settle, hpush, List.append_assoc, List.singleton_append, ← areas_keyed vs', ← hvs',
      areas_keyed]
  refine ⟨hrew.wellFormed h (hl.trans h.isLocked) hvs' ?_ fun a p ha hae hp hfree => ?_,
    fun w hw hfree => ?_⟩
  · obtain ⟨hsx, hsv⟩ := List.forall_mem_append.mp (hxs ▸ h.sound)
    obtain ⟨hsv, hsy⟩ := List.forall_mem_cons.mp hsv
    rw [hareas]
    exact Segment.forall_settle (sound_glue h.apart) hsx ⟨hsv.base, hsv.size, hsv.within⟩ hsy
  · rw [hxs, htiles.view_eq ⟨ha, hae⟩] at hp
    obtain rfl := some.inj hp
    exact absurd hfree hmap
  · rw [hvs', areas_keyed, hareas]
    refine Segment.mem_settle (K := fun v => v.type = .free) free_merges free_glue hfree
      (show ¬ (reprotected newPerms v).type = .free from hmap) ?_
    rw [hxs] at hw
    rcases List.mem_append.mp hw with hx | hy
    · exact inl hx
    · rcases List.mem_cons.mp hy with rfl | hy
      · exact absurd hfree hmap
      · exact inr hy

/-! ## One page -/

theorem pointerAt_area (h : Intact s) {v : VirtualMemoryArea} (hv : v ∈ areas s.vmaMap)
    (ha : Covers v a) (htype : v.type ≠ .free) : (pointerAt s a).isSome = true := by
  obtain ⟨xs, ys, hxs⟩ := List.append_of_mem hv
  have htiles : Tiles 0 (xs ++ v :: ys) maxAddress := hxs ▸ h.tiles
  have hview : Segment.view (areas s.vmaMap) a = some (v.pageAttr a) := by
    rw [hxs, htiles.view_eq ha]
    rfl
  obtain ⟨q, hq⟩ := h.pointer_of_mapped hview htype
  rw [pointerAt, hview, bind_some, hq]
  rfl

/-- `MapBackingMemory` of one page returns, and then the page is mapped: by it, or because it
was. -/
theorem mapBackingMemory_page (h : WellFormed mems s) (ht : target % pageSize = 0)
    (hle : target + pageSize ≤ maxAddress) (state : MemoryState) (hptr : memory.getPtr ≠ 0)
    (hin : memory.Within mems pageSize) :
    ∃ r s', mapBackingMemory target memory pageSize state s = some (r, s') ∧ WellFormed mems s' ∧
      (∀ a, (pointerAt s a).isSome = true → (pointerAt s' a).isSome = true) ∧
      ∀ a, target ≤ a → a < target + pageSize → (pointerAt s' a).isSome = true := by
  have hpage : pageSize = 0x1000 := rfl
  obtain ⟨xs, v, ys, hs, hcov⟩ := h.tiles.exists_cover (Nat.zero_le target) (by omega)
  have hv : v ∈ areas s.vmaMap := hs ▸ (by simp)
  have hlo : v.base ≤ target := hcov.1
  have hhi : target < v.base + v.size := hcov.2
  -- areas consist of whole pages
  have hend : target + pageSize ≤ v.base + v.size := by
    have hb : v.base % 0x1000 = 0 := (h.sound v hv).base
    have hz : v.size % 0x1000 = 0 := (h.sound v hv).size
    have ht : target % 0x1000 = 0 := ht
    omega
  cases htype : v.type with
  | free =>
    obtain ⟨k, s', hcall, hwf⟩ :=
      mapBackingMemory_some h ht (by decide) (by decide) state hptr hin hv
      htype hlo hend
    obtain ⟨-, -, hpointer⟩ := mapBackingMemory_pointerAt h.toIntact (by decide) hcall
    refine ⟨_, s', hcall, hwf, fun a ha => ?_, fun a h₁ h₂ => ?_⟩
    · rw [hpointer]
      split_ifs
      · rfl
      · exact ha
    · rw [hpointer, if_pos ⟨h₁, h₂⟩]
      rfl
  | backingMemory =>
    have htiles : Tiles 0 (xs ++ v :: ys) maxAddress := hs ▸ h.tiles
    have hm : s.vmaMap = keyed (xs ++ v :: ys) := hs ▸ h.keyedByBase.eq_keyed
    have hcall : mapBackingMemory target memory pageSize state s =
        some (.error Result.invalidAddressState, s) := by
      have hcarve : carveVMA target pageSize s.vmaMap =
          some (.error Result.invalidAddressState, s.vmaMap) := by
        unfold carveVMA
        rw [if_neg (not_or.mpr ⟨by decide, not_not.mpr ht⟩), hm, findVMA_keyed htiles hcov]
        simp only [get?_keyed htiles, bind_eq_bind, bind_some, htype, ne_eq,
          reduceCtorEq, not_false_eq_true, if_true]
      unfold mapBackingMemory
      rw [if_neg (by simp [h.isLocked]), if_neg hptr, hcarve]
      rfl
    refine ⟨_, s, hcall, h, fun _ ha => ha, fun a h₁ h₂ => ?_⟩
    exact pointerAt_area h.toIntact hv ⟨show v.base ≤ a by omega, show a < v.base + v.size by omega⟩
      (by rw [htype]; decide)

end VMManager

end GbaStation.Memory
