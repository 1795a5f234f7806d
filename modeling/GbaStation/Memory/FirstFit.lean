import GbaStation.Memory.Progress

/-!
# First fit

`MapBackingMemoryToBase` is to map a block at the lowest free place of a region. It takes the first
free area that ends far enough behind the region's base, without a look at where that area starts:

- an area that starts above the base may be too small, and then the areas behind it are not tried;
- where no area is found, the end of the map is read.

`firstFit_iff` says for which states and sizes the lowest place is found nevertheless.
-/

namespace GbaStation.Memory

open Kernel (Result)
open Segment (Tiles)

namespace VMManager

variable {mems : BackingMem → Prop} {s s' : VMManager} {base regionSize size : Nat}

/-- `[a, a + size)` lies in one free area. -/
def FitsAt (s : VMManager) (a size : Nat) : Prop :=
  ∃ v ∈ areas s.vmaMap, v.type = .free ∧ v.base ≤ a ∧ a + size ≤ v.base + v.size

/-- A place in the region `[base, base + regionSize)`. -/
def Place (s : VMManager) (base regionSize size a : Nat) : Prop :=
  base ≤ a ∧ a + size ≤ base + regionSize ∧ FitsAt s a size

/-- What first fit promises: the call returns; it maps the block at the lowest place of the region
if there is one, and is an error that changes nothing otherwise. -/
def FirstFit (base regionSize : Nat) (memory : MemoryRef) (size : Nat) (state : MemoryState)
    (s : VMManager) : Prop :=
  ∃ r s', mapBackingMemoryToBase base regionSize memory size state s = some (r, s') ∧
    ((∃ a, r = .ok a) ↔ ∃ a, Place s base regionSize size a) ∧
    (∀ a, r = .ok a → Place s base regionSize size a ∧
      (∀ b, Place s base regionSize size b → a ≤ b) ∧
      ∀ b, Segment.view (areas s'.vmaMap) b =
        if a ≤ b ∧ b < a + size
          then (Segment.view (areas s.vmaMap) b).map (Call.mapped a memory state b)
          else Segment.view (areas s.vmaMap) b) ∧
    ∀ e, r = .error e → e.isSuccess = false ∧ s' = s

/-- The first area that ends far enough behind `base` is large enough, or nothing is. -/
def FindsPlace (base regionSize size : Nat) (s : VMManager) : Prop :=
  ∃ v, (areas s.vmaMap).find? (endsBehind base size) = some v ∧
    ((v.base ≤ base ∧ base - v.base + size < 2 ^ 32) ∨
      base < v.base ∧ (size ≤ v.size ∨ ¬ ∃ a, Place s base regionSize size a))

/-! ## The area that is found -/

theorem find?_keyed (vs : List VirtualMemoryArea) (p : VirtualMemoryArea → Bool) :
    (keyed vs).find? (fun e => p e.2) = (vs.find? p).map fun v => (v.base, v) := by
  unfold keyed
  rw [List.find?_map]
  rfl

theorem endsBehind_iff {v : VirtualMemoryArea} (hle : v.base + v.size ≤ maxAddress) :
    endsBehind base size v = true ↔
      v.type = .free ∧ base < v.base + v.size ∧ add32 base size ≤ v.base + v.size := by
  have hlim : maxAddress = 0x40000000 := rfl
  unfold endsBehind
  rw [add32_eq (by omega)]
  by_cases hf : v.type = .free
  · simp [hf]
  · simp [hf]

/-- Every place of the region is in the area that is found or in a later one. -/
theorem place_behind (h : Intact s) (hreg : base + regionSize ≤ maxAddress) (hpos : 0 < size)
    {v : VirtualMemoryArea} (hv : (areas s.vmaMap).find? (endsBehind base size) = some v) {a : Nat}
    (ha : Place s base regionSize size a) : v.base ≤ a := by
  have hlim : maxAddress = 0x40000000 := rfl
  obtain ⟨hba, hae, w, hw, hfree, hwa, hwe⟩ := ha
  obtain ⟨-, as, bs, hsplit, has⟩ := List.find?_eq_some_iff_append.mp hv
  have hbound := (h.tiles.mem_bounds hw).2.2
  have hbehind : endsBehind base size w = true :=
    (endsBehind_iff hbound).mpr ⟨hfree, by omega, by rw [add32_eq (by omega)]; omega⟩
  have htiles := h.tiles
  rw [hsplit] at hw htiles
  rcases List.mem_append.mp hw with hmem | hmem
  · have := has w hmem
    rw [hbehind] at this
    cases this
  · obtain ⟨m, -, hvs⟩ := Segment.tiles_append.mp htiles
    obtain rfl : v.base = m := hvs.1
    have hlo : v.base ≤ w.base := (hvs.mem_bounds hmem).1
    omega

/-! ## What the call does with it -/

theorem mapBackingMemoryToBase_eq (h : Intact s) {memory : MemoryRef} {state : MemoryState}
    {v : VirtualMemoryArea} (hv : (areas s.vmaMap).find? (endsBehind base size) = some v) :
    mapBackingMemoryToBase base regionSize memory size state s =
      if add32 base regionSize < add32 (max base v.base) size then
        some (.error Result.outOfMemory, s)
      else (mapBackingMemory (max base v.base) memory size state s).bind fun r =>
        match r with
        | (.error e, s) => some (.error e, s)
        | (.ok _, s) => some (.ok (max base v.base), s) := by
  have hfind : s.vmaMap.find? (fun vma => endsBehind base size vma.2) = some (v.base, v) := by
    rw [h.keyedByBase.eq_keyed, find?_keyed, hv]
    rfl
  unfold mapBackingMemoryToBase
  rw [if_neg (by simp [h.isLocked]), hfind]
  rfl

/-- The found area has room behind `max base v.base`: the block is mapped there. -/
theorem firstFit_of_room (h : WellFormed mems s) (hb : base % pageSize = 0)
    (hsz : size % pageSize = 0) (hpos : 0 < size) (hreg : base + regionSize ≤ maxAddress)
    {memory : MemoryRef} (hptr : memory.getPtr ≠ 0) {state : MemoryState} {v : VirtualMemoryArea}
    (hv : (areas s.vmaMap).find? (endsBehind base size) = some v)
    (hroom : max base v.base + size ≤ v.base + v.size) :
    FirstFit base regionSize memory size state s := by
  have hlim : maxAddress = 0x40000000 := rfl
  have hmem := List.mem_of_find?_eq_some hv
  have hbound : v.base + v.size ≤ maxAddress := (h.tiles.mem_bounds hmem).2.2
  have hfree := ((endsBehind_iff hbound).mp (List.find?_some hv)).1
  have hpage : max base v.base % pageSize = 0 := by
    rcases Nat.le_total base v.base with hle | hle
    · rw [Nat.max_eq_right hle]
      exact (h.sound v hmem).base
    · rwa [Nat.max_eq_left hle]
  have hle := fun a => place_behind h.toIntact hreg hpos hv (a := a)
  have heq : mapBackingMemoryToBase base regionSize memory size state s = _ :=
    mapBackingMemoryToBase_eq h.toIntact hv
  rw [add32_eq (by omega), add32_eq (by omega)] at heq
  by_cases hfit : base + regionSize < max base v.base + size
  · rw [if_pos hfit] at heq
    refine ⟨_, _, heq, iff_of_false (by simp) ?_, by simp, ?_⟩
    · rintro ⟨a, ha⟩
      have := hle a ha
      have := ha.1
      have := ha.2.1
      omega
    · rintro e ⟨⟩
      exact ⟨rfl, rfl⟩
  · obtain ⟨done, x, rest, k, -, -, -, -, hcall⟩ :=
      mapBackingMemory_ok h hpage hsz hpos state hptr hmem hfree (Nat.le_max_right _ _) hroom
    rw [if_neg hfit, hcall] at heq
    have hplace : Place s base regionSize size (max base v.base) :=
      ⟨Nat.le_max_left _ _, by omega, v, hmem, hfree, Nat.le_max_right _ _, hroom⟩
    rcases mapBackingMemory_effect h.tiles h.keyedByBase.eq_keyed (by omega) hcall with
      ⟨e, -, he, -⟩ | ⟨-, -, -, -, vs', hvs', hrew⟩
    · cases he
    · refine ⟨_, _, heq, iff_of_true ⟨_, rfl⟩ ⟨_, hplace⟩, ?_, by simp⟩
      rintro a ⟨⟩
      refine ⟨hplace, fun b hb => Nat.max_le.mpr ⟨hb.1, hle b hb⟩, fun b => ?_⟩
      rw [hvs', areas_keyed, hrew.view]

theorem firstFit_of_error {memory : MemoryRef} {state : MemoryState} {e : Result}
    (he : e.isSuccess = false)
    (hcall : mapBackingMemoryToBase base regionSize memory size state s = some (.error e, s)) :
    FirstFit base regionSize memory size state s ↔ ¬ ∃ a, Place s base regionSize size a := by
  constructor
  · rintro ⟨r, s', hcall', hiff, -⟩ hplace
    obtain ⟨a, rfl⟩ := hiff.mpr hplace
    rw [hcall] at hcall'
    cases hcall'
  · intro hno
    refine ⟨_, _, hcall, iff_of_false (by simp) hno, by simp, ?_⟩
    rintro e' ⟨⟩
    exact ⟨he, rfl⟩

section Refusals

variable {memory : MemoryRef} {state : MemoryState} {v : VirtualMemoryArea} {target : Nat}

/-- `MapBackingMemory` inside a free area, up to `CarveVMA`'s comparison with the area's size. -/
theorem carveVMA_free (h : Intact s) (ht : target % pageSize = 0) (hsz : size % pageSize = 0)
    (hv : v ∈ areas s.vmaMap) (hfree : v.type = .free) (hcov : Segment.Covers v target) :
    carveVMA target size s.vmaMap =
      if v.size < add32 (target - v.base) size then
        some (.error Result.invalidAddressState, s.vmaMap)
      else (splitEnd v.base (add32 (target - v.base) size) v.size s.vmaMap).bind fun m =>
        (splitStart v.base (target - v.base) m).bind fun r => some (.ok r.1, r.2) := by
  have hlim : maxAddress = 0x40000000 := rfl
  obtain ⟨xs, ys, hxs⟩ := List.append_of_mem hv
  have htiles : Tiles 0 (xs ++ v :: ys) maxAddress := hxs ▸ h.tiles
  have hm : s.vmaMap = keyed (xs ++ v :: ys) := hxs ▸ h.keyedByBase.eq_keyed
  obtain ⟨-, -, -, hle, -⟩ := focus htiles
  have hlo : v.base ≤ target := hcov.1
  have hhi : target < v.base + v.size := hcov.2
  unfold carveVMA
  rw [if_neg (by omega), hm, findVMA_keyed htiles hcov]
  simp only [get?_keyed htiles, Option.bind_eq_bind, Option.bind_some, hfree, ne_eq,
    not_true_eq_false, if_false]
  rw [sub32_eq hlo (by omega)]

theorem mapBackingMemory_refused (h : Intact s) (ht : target % pageSize = 0)
    (hsz : size % pageSize = 0) (hptr : memory.getPtr ≠ 0) (hv : v ∈ areas s.vmaMap)
    (hfree : v.type = .free) (hcov : Segment.Covers v target)
    (hword : target - v.base + size < 2 ^ 32) (hlarge : v.base + v.size < target + size) :
    mapBackingMemory target memory size state s = some (.error Result.invalidAddressState, s) := by
  unfold mapBackingMemory
  rw [if_neg (by simp [h.isLocked]), if_neg hptr, carveVMA_free h ht hsz hv hfree hcov,
    add32_eq hword, if_pos (by omega)]
  rfl

/-- A size that wraps passes the comparison, and then the area is to be split behind its end. -/
theorem mapBackingMemory_wraps (h : WellFormed mems s) (ht : target % pageSize = 0)
    (hsz : size % pageSize = 0) (hlt : size < 2 ^ 32) (hv : v ∈ areas s.vmaMap)
    (hfree : v.type = .free) (hcov : Segment.Covers v target)
    (hword : 2 ^ 32 ≤ target - v.base + size) :
    mapBackingMemory target memory size state s = none := by
  have hlim : maxAddress = 0x40000000 := rfl
  obtain ⟨xs, ys, hxs⟩ := List.append_of_mem hv
  have htiles : Tiles 0 (xs ++ v :: ys) maxAddress := hxs ▸ h.tiles
  have hm : s.vmaMap = keyed (xs ++ v :: ys) := hxs ▸ h.keyedByBase.eq_keyed
  obtain ⟨-, -, -, hle, -⟩ := focus htiles
  have hhi : target < v.base + v.size := hcov.2
  have hend : add32 (target - v.base) size = target - v.base + size - 2 ^ 32 := by
    unfold add32
    omega
  have hcarve : carveVMA target size s.vmaMap = none := by
    rw [carveVMA_free h.toIntact ht hsz hv hfree hcov, hend, if_neg (by omega)]
    cases hsplit : splitEnd v.base (target - v.base + size - 2 ^ 32) v.size s.vmaMap with
    | none => rfl
    | some m =>
      rw [hm] at hsplit
      obtain ⟨w, rest, hdiv, hwb, hws, -, rfl⟩ := splitEnd_keyed htiles hsplit
      have hw : Tiles 0 (xs ++ w :: rest) maxAddress := by
        have := Segment.tiles_append.mpr ⟨_, hdiv.tiles⟩
        simpa using this
      have hstart : splitStart v.base (target - v.base) (keyed (xs ++ w :: rest)) = none := by
        rw [← hwb]
        unfold splitStart
        rw [if_pos (by omega)]
        unfold splitVMA
        rw [get?_keyed hw]
        simp only [Option.bind_eq_bind, Option.bind_some]
        rw [if_pos (by omega)]
        rfl
      simp only [Option.bind_some, hstart]
      rfl
  unfold mapBackingMemory
  rw [hcarve]
  split_ifs <;> rfl

end Refusals

/-- `MapBackingMemoryToBase` finds the lowest place of the region, or says that there is none,
exactly if the first area that it looks at is large enough, or nothing is. -/
theorem firstFit_iff (h : WellFormed mems s) (hb : base % pageSize = 0)
    (hsz : size % pageSize = 0) (hpos : 0 < size) (hlt : size < 2 ^ 32)
    (hreg : base + regionSize ≤ maxAddress) {memory : MemoryRef} (hptr : memory.getPtr ≠ 0)
    (state : MemoryState) :
    FirstFit base regionSize memory size state s ↔ FindsPlace base regionSize size s := by
  have hlim : maxAddress = 0x40000000 := rfl
  cases hv : (areas s.vmaMap).find? (endsBehind base size) with
  | none =>
    refine iff_of_false ?_ (by rintro ⟨v, hv', -⟩; cases hv.symm.trans hv')
    rintro ⟨r, s', hcall, -⟩
    unfold mapBackingMemoryToBase at hcall
    rw [h.keyedByBase.eq_keyed, find?_keyed, hv] at hcall
    split_ifs at hcall
    cases hcall
  | some v =>
    have hmem := List.mem_of_find?_eq_some hv
    have hbound : v.base + v.size ≤ maxAddress := (h.tiles.mem_bounds hmem).2.2
    obtain ⟨hfree, hbv, hbs⟩ := (endsBehind_iff hbound).mp (List.find?_some hv)
    have heq : mapBackingMemoryToBase base regionSize memory size state s = _ :=
      mapBackingMemoryToBase_eq h.toIntact hv
    have hfinds : FindsPlace base regionSize size s ↔
        (v.base ≤ base ∧ base - v.base + size < 2 ^ 32) ∨
          base < v.base ∧ (size ≤ v.size ∨ ¬ ∃ a, Place s base regionSize size a) := by
      constructor
      · rintro ⟨w, hw, hcond⟩
        obtain rfl := Option.some.inj (hv.symm.trans hw)
        exact hcond
      · exact fun hcond => ⟨v, hv, hcond⟩
    rw [hfinds]
    by_cases hroom : max base v.base + size ≤ v.base + v.size
    · refine iff_of_true (firstFit_of_room h hb hsz hpos hreg hptr hv hroom) ?_
      omega
    · have hpage : max base v.base % pageSize = 0 := by
        rcases Nat.le_total base v.base with hle | hle
        · rw [Nat.max_eq_right hle]
          exact (h.sound v hmem).base
        · rwa [Nat.max_eq_left hle]
      have hcov : Segment.Covers v (max base v.base) := by
        have hvpos : 0 < v.size := (h.tiles.mem_bounds hmem).2.1
        exact ⟨Nat.le_max_right _ _, show max base v.base < v.base + v.size by omega⟩
      by_cases hword : max base v.base - v.base + size < 2 ^ 32
      · -- the area is too small: the call fails
        have herr : ∃ e : Result, e.isSuccess = false ∧
            mapBackingMemoryToBase base regionSize memory size state s = some (.error e, s) := by
          rw [heq]
          split_ifs
          · exact ⟨_, rfl, rfl⟩
          · rw [mapBackingMemory_refused h.toIntact hpage hsz hptr hmem hfree hcov hword (by omega)]
            exact ⟨_, rfl, rfl⟩
        obtain ⟨e, he, hcall⟩ := herr
        rw [firstFit_of_error he hcall]
        rcases Nat.lt_or_ge base v.base with hlt' | hle
        · have : ¬ size ≤ v.size := by omega
          simp [this, hlt', Nat.not_le.mpr hlt']
        · refine iff_of_true ?_ (Or.inl ⟨hle, by omega⟩)
          rintro ⟨a, -, hae, -⟩
          rw [add32_eq (by omega)] at hbs
          omega
      · refine iff_of_false ?_ (by omega)
        rintro ⟨r, s', hcall, -⟩
        have hle : v.base ≤ base := by omega
        have hadd : add32 (max base v.base) size < base := by
          unfold add32
          omega
        rw [heq, add32_eq (show base + regionSize < 2 ^ 32 by omega), if_neg (by omega),
          mapBackingMemory_wraps h hpage hsz hlt hmem hfree hcov (by omega)] at hcall
        cases hcall

/-! ## A gap that is too small -/

/-- A host allocation of 16 pages. -/
def sixteenPages : BackingMem := ⟨0x100000, 0x10000⟩

/-- One page free between mapped ones, and everything behind them. -/
def smallGap : List VirtualMemoryArea :=
  [{ size := 0x2000, type := .backingMemory, permissions := VMAPermission.readWrite,
     meminfoState := .shared, backingMemory := ⟨some sixteenPages, 0⟩ },
   { base := 0x2000, size := 0x1000 },
   { base := 0x3000, size := 0x1000, type := .backingMemory,
     permissions := VMAPermission.readWrite, meminfoState := .shared,
     backingMemory := ⟨some sixteenPages, 0x8000⟩ },
   { base := 0x4000, size := maxAddress - 0x4000 }]

theorem smallGap_wellFormed : WellFormed (· = sixteenPages) { vmaMap := keyed smallGap } := by
  refine wellFormed_of_areas rfl rfl ?_ ?_ (fun v hv => ?_) (by decide)
  · exact ⟨rfl, by decide, rfl, by decide, rfl, by decide, rfl, by decide, rfl⟩
  · rintro _ _ rfl rfl h
    exact absurd rfl h
  · simp only [smallGap, List.mem_cons, List.not_mem_nil, or_false] at hv
    rcases hv with rfl | rfl | rfl | rfl
    · exact ⟨rfl, rfl, fun _ => ⟨_, rfl, rfl, by decide⟩⟩
    · exact ⟨rfl, rfl, nofun⟩
    · exact ⟨rfl, rfl, fun _ => ⟨_, rfl, rfl, by decide⟩⟩
    · exact ⟨rfl, rfl, nofun⟩

/-- One page fits in the gap. -/
theorem firstFit_one_page :
    FirstFit 0x1000 0x10000 ⟨some sixteenPages, 0x4000⟩ 0x1000 .shared
      { vmaMap := keyed smallGap } :=
  (firstFit_iff smallGap_wellFormed (by decide) (by decide) (by decide) (by decide) (by decide)
    (by decide) .shared).mpr ⟨_, rfl, Or.inr ⟨by decide, Or.inl (by decide)⟩⟩

/-- Two pages do not fit in the gap, and are not mapped behind it. -/
theorem firstFit_two_pages :
    WellFormed (· = sixteenPages) { vmaMap := keyed smallGap } ∧
      Place { vmaMap := keyed smallGap } 0x1000 0x10000 0x2000 0x4000 ∧
      ¬ FirstFit 0x1000 0x10000 ⟨some sixteenPages, 0x4000⟩ 0x2000 .shared
        { vmaMap := keyed smallGap } := by
  have hplace : Place { vmaMap := keyed smallGap } 0x1000 0x10000 0x2000 0x4000 :=
    ⟨by decide, by decide, _, List.mem_of_getElem? (i := 3) rfl, rfl, by decide, by decide⟩
  have hcall : mapBackingMemoryToBase 0x1000 0x10000 ⟨some sixteenPages, 0x4000⟩ 0x2000 .shared
      { vmaMap := keyed smallGap } =
        some (.error Result.invalidAddressState, { vmaMap := keyed smallGap }) := by
    decide +kernel
  refine ⟨smallGap_wellFormed, hplace, ?_⟩
  rw [firstFit_of_error rfl hcall]
  exact not_not.mpr ⟨_, hplace⟩

end VMManager

end GbaStation.Memory
