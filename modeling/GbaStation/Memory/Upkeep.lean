import GbaStation.Memory.Joined
import GbaStation.Memory.Progress

/-!
# What an operation leaves behind

An operation that returns leaves a well-formed manager well-formed (`unmapRange_wellFormed` and its
siblings), and `MapBackingMemory` does if the memory lies inside one allocation. Free areas next to
the range stay as they are: a range that `FitsFree` can be mapped block by block
(`mapReprotect_some`), also after the state of other memory has changed.
-/

namespace GbaStation.Memory

open Kernel (Result)
open Segment (Tiles Covers DividesAt Cut Merges sweep settle tiles_append)
open VirtualMemoryArea (base_def size_def mod_sub)

namespace VMManager

variable {mems : BackingMem → Prop} {s s' s₁ : VMManager} {target e size : Nat}

/-- The range lies in one free area. -/
def FitsFree (s : VMManager) (target e : Nat) : Prop :=
  ∃ v ∈ areas s.vmaMap, v.type = .free ∧ v.base ≤ target ∧ e ≤ v.base + v.size

instance (s : VMManager) (target e : Nat) : Decidable (FitsFree s target e) :=
  inferInstanceAs (Decidable (∃ v ∈ _, _))

/-! ## Mapping -/

section Mapping

variable {memory : MemoryRef} {state : MemoryState} {perms : VMAPermission}

/-- What is cut out of free memory was part of a free area. -/
theorem fitsFree_of_divides {vs ls done rest : List VirtualMemoryArea} {x : VirtualMemoryArea}
    (hend : DividesAt 0 maxAddress vs e ls rest) (hstart : DividesAt 0 e ls target done [x])
    (hfree : x.type = .free) :
    ∃ v ∈ vs, v.type = .free ∧ v.base ≤ target ∧ e ≤ v.base + v.size := by
  obtain ⟨w, hw, hlo, hwend, hattr⟩ := hstart.origin_right (r := x) rfl
  obtain ⟨pre, post, rfl⟩ := List.append_of_mem hw
  obtain ⟨hd, hx⟩ := hstart.tiles
  obtain ⟨hxb, -, hxend⟩ := Segment.tiles_singleton.mp hx
  obtain ⟨m, -, hrest⟩ := tiles_append.mp hend.tiles.1
  obtain ⟨m', hwt, hpost⟩ := Segment.tiles_cons.mp hrest
  obtain ⟨hwb, -, hwe⟩ := Segment.tiles_singleton.mp hwt
  obtain rfl : m' = e := by omega
  obtain rfl := hpost.eq_nil
  obtain ⟨v, hv, hvb, hve, hvattr⟩ := hend.origin_left (l := w) (by simp)
  refine ⟨v, hv, ?_, ?_, hve⟩
  · rw [← type_of_attr (hvattr target), ← type_of_attr (hattr target (Nat.le_refl _))]
    exact hfree
  · exact Nat.le_trans (Nat.le_of_eq hvb) hlo

/-- What a mapping that succeeds says about the range. -/
theorem mapBackingMemory_inv (h : Intact s) (hsz : size < 2 ^ 32) {k : Nat}
    (hcall : mapBackingMemory target memory size state s = some (.ok k, s')) :
    target % pageSize = 0 ∧ size % pageSize = 0 ∧ 0 < size ∧ target + size ≤ maxAddress ∧
      memory.getPtr ≠ 0 ∧ FitsFree s target (target + size) := by
  unfold mapBackingMemory at hcall
  split at hcall
  · cases hcall
  split at hcall
  · cases hcall
  next hptr =>
  obtain ⟨⟨r, m⟩, hcarve, hcall⟩ := Option.bind_eq_some_iff.mp hcall
  have halign : size % pageSize = 0 ∧ target % pageSize = 0 := by
    unfold carveVMA at hcarve
    split at hcarve
    · cases hcarve
    · omega
  rw [h.keyedByBase.eq_keyed] at hcarve
  rcases carveVMA_keyed h.tiles hsz hcarve with
    ⟨err, -, rfl, rfl⟩ | ⟨rfl, hpos, hle, ls, done, x, rest, hend, hstart, hfree, -⟩
  · cases hcall
  · exact ⟨halign.2, halign.1, hpos, hle, hptr, fitsFree_of_divides hend hstart hfree⟩

/-- Only one area covers an address. -/
theorem Intact.area_unique (h : Intact s) {v w : VirtualMemoryArea} {a : Nat}
    (hv : v ∈ areas s.vmaMap) (hw : w ∈ areas s.vmaMap) (hva : v.base ≤ a ∧ a < v.base + v.size)
    (hwa : w.base ≤ a ∧ a < w.base + w.size) : v = w := by
  obtain ⟨xs, ys, hxs⟩ := List.append_of_mem hv
  obtain ⟨pre, post, hpre⟩ := List.append_of_mem hw
  exact ((hxs ▸ h.tiles).cover_unique (hxs.symm.trans hpre) hva hwa).2.1

/-- The part of a segment behind the place where a range inside it ends. -/
theorem divides_rest (h : Intact s) {ls rest : List VirtualMemoryArea}
    (hend : DividesAt 0 maxAddress (areas s.vmaMap) e ls rest) {v : VirtualMemoryArea}
    (hv : v ∈ areas s.vmaMap) (hlo : v.base ≤ e) (hhi : e < v.base + v.size) :
    ∃ r ∈ rest, r.base = e ∧ r.base + r.size = v.base + v.size ∧ r.type = v.type := by
  have hbound := (h.tiles.mem_bounds hv).2.2
  rw [base_def, size_def] at hbound
  have hrt := hend.tiles.2
  cases rest with
  | nil =>
    have : e = maxAddress := hrt
    omega
  | cons r rest =>
    obtain ⟨w, hw, hwlo, hwend, hattr⟩ := hend.origin_right (r := r) rfl
    have hrb : r.base = e := hrt.1
    have hrpos : 0 < r.size := hrt.2.1
    rw [base_def] at hwlo
    rw [base_def, size_def, base_def, size_def] at hwend
    obtain rfl := h.area_unique hw hv ⟨hwlo, by omega⟩ ⟨hlo, hhi⟩
    exact ⟨r, by simp, hrb, hwend.symm, type_of_attr (hattr e (Nat.le_refl e))⟩

/-- `MapBackingMemory` maps a range of a free area, and leaves the part behind the range free. -/
theorem mapBackingMemory_fits (h : WellFormed mems s) (ht : target % pageSize = 0)
    (hsz : size % pageSize = 0) (hpos : 0 < size) (state : MemoryState) (hptr : memory.getPtr ≠ 0)
    (hin : memory.Within mems size) (hfits : FitsFree s target (target + size)) :
    ∃ k s', mapBackingMemory target memory size state s = some (.ok k, s') ∧
      WellFormed mems s' ∧
      ∀ e, target + size < e → FitsFree s target e → FitsFree s' (target + size) e := by
  obtain ⟨v, hv, hfree, hlo, hhi⟩ := hfits
  obtain ⟨k, s', hcall, hwf⟩ := mapBackingMemory_some h ht hsz hpos state hptr hin hv hfree hlo hhi
  refine ⟨k, s', hcall, hwf, fun e he hfits => ?_⟩
  obtain ⟨w, hw, -, hwlo, hwhi⟩ := hfits
  obtain rfl := h.toIntact.area_unique hw hv ⟨hwlo, (by omega : target < _)⟩ ⟨hlo, (by omega)⟩
  obtain ⟨xs, ys, hxs⟩ := List.append_of_mem hv
  have hm : s.vmaMap = keyed (xs ++ w :: ys) := hxs ▸ h.keyedByBase.eq_keyed
  obtain ⟨ls, done, x, rest, hend, hstart, -, -, -, -, hcarve⟩ :=
    carveVMA_some (hxs ▸ h.tiles) (hxs ▸ h.sound) ht hsz hpos hfree hlo hhi
  obtain ⟨hd, hx⟩ := hstart.tiles
  rw [← hm] at hcarve
  obtain ⟨zs, l, hpush, hcall'⟩ : ∃ zs l,
      Segment.push done (Segment.absorb (backed memory state x) rest).1 = zs ++ [l] ∧
        mapBackingMemory target memory size state s = some (.ok l.base, { s with
          vmaMap := keyed (zs ++ l :: (Segment.absorb (backed memory state x) rest).2) }) :=
    mapBackingMemory_carved h.isLocked hptr hd hx hend.tiles.2 hcarve
  rw [hcall] at hcall'
  obtain ⟨-, rfl⟩ := returned hcall'
  have hareas : zs ++ l :: (Segment.absorb (backed memory state x) rest).2 =
      settle done (backed memory state x) rest := by
    rw [settle, hpush, List.append_assoc, List.singleton_append]
  obtain ⟨r, hr, hrb, hre, hrt⟩ := divides_rest h.toIntact (hxs ▸ hend) hw
    (show w.base ≤ target + size by omega) (by omega)
  refine ⟨r, ?_, hrt.trans hfree, Nat.le_of_eq hrb, by omega⟩
  rw [hareas, areas_keyed]
  exact Segment.mem_settle free_merges free_glue (hrt.trans hfree) (by simp [backed]) (Or.inr hr)

/-- The area that `MapBackingMemory` returns covers the range. -/
theorem mapBackingMemory_handle (h : Intact s) (hsz : size < 2 ^ 32) {k : Nat}
    (hcall : mapBackingMemory target memory size state s = some (.ok k, s')) :
    ∃ l ∈ areas s'.vmaMap, l.base = k ∧ l.type ≠ .free := by
  obtain ⟨-, done, x, rest, zs, l, hcut, -, hpush, hk, hareas⟩ :=
    mapBackingMemory_cutOut h hsz hcall
  rcases mapBackingMemory_effect h.tiles h.keyedByBase.eq_keyed hsz hcall with
    ⟨err, -, herr, -⟩ | ⟨-, -, hpos, hle, vs', hm, hrew⟩
  · cases herr
  obtain ⟨hlo, hhi, -⟩ := settled_ends hcut.left
    (show Tiles target [backed memory state x] (target + size) from hcut.middle) hcut.right hpush
  have hvs : vs' = zs ++ l :: (Segment.absorb (backed memory state x) rest).2 := by
    rw [← hareas, hm, areas_keyed]
  refine ⟨l, by simp [hareas], hk.symm, fun hfree => ?_⟩
  subst hvs
  have hview := hrew.view target
  have hcov : Covers l target := ⟨hlo, show target < l.base + l.size by omega⟩
  rw [if_pos ⟨Nat.le_refl _, by omega⟩, hrew.tiles.view_eq hcov] at hview
  obtain ⟨p, -, hp⟩ := Option.map_eq_some_iff.mp hview.symm
  exact absurd ((congrArg PageAttr.type hp).trans hfree) nofun

/-- One block mapped and reprotected, in a free area. -/
theorem mapReprotect_some (h : WellFormed mems s) (ht : target % pageSize = 0)
    (hsz : size % pageSize = 0) (hpos : 0 < size) (state : MemoryState) (perms : VMAPermission)
    (hptr : memory.getPtr ≠ 0) (hin : memory.Within mems size)
    (hfits : FitsFree s target (target + size)) :
    ∃ k s₁ k' s', mapBackingMemory target memory size state s = some (.ok k, s₁) ∧
      reprotect k perms s₁ = some (k', s') ∧ WellFormed mems s' ∧
      ∀ e, target + size < e → FitsFree s target e → FitsFree s' (target + size) e := by
  have hlim : maxAddress = 0x40000000 := rfl
  obtain ⟨k, s₁, hcall, h₁, hrest⟩ := mapBackingMemory_fits h ht hsz hpos state hptr hin hfits
  obtain ⟨v, hv, -, -, hhi⟩ := hfits
  have hbound := (h.tiles.mem_bounds hv).2.2
  rw [base_def, size_def] at hbound
  obtain ⟨l, hl, rfl, htype⟩ := mapBackingMemory_handle h.toIntact (by omega) hcall
  obtain ⟨k', s', hrep, h', hkeep⟩ := reprotect_some h₁ hl htype perms
  refine ⟨_, s₁, k', s', hcall, hrep, h', fun e he hfits => ?_⟩
  obtain ⟨w, hw, hfree, hlo, hhi⟩ := hrest e he hfits
  exact ⟨w, hkeep w hw hfree, hfree, hlo, hhi⟩

end Mapping

/-! ## The other operations -/

theorem carveVMARange_aligned {m : VMAMap} {r : Except Result Nat × VMAMap}
    (h : carveVMARange target size m = some r) : target % pageSize = 0 ∧ size % pageSize = 0 := by
  unfold carveVMARange at h
  split at h
  · cases h
  · omega

theorem changeMemoryState_aligned (hl : s.isLocked = false) {expectedState newState : MemoryState}
    {expectedPerms newPerms : VMAPermission} {res : Result} (hres : res.isSuccess = true)
    (hcall : changeMemoryState target size expectedState expectedPerms newState newPerms s =
      some (res, s')) : target % pageSize = 0 ∧ size % pageSize = 0 := by
  unfold changeMemoryState at hcall
  rw [if_neg (by simp [hl])] at hcall
  split at hcall
  · obtain ⟨rfl, -⟩ := returned hcall
    cases hres
  obtain ⟨entries, -, hcall⟩ := Option.bind_eq_some_iff.mp hcall
  split at hcall
  · obtain ⟨rfl, -⟩ := returned hcall
    cases hres
  obtain ⟨r, hcarve, -⟩ := Option.bind_eq_some_iff.mp hcall
  exact carveVMARange_aligned hcarve

theorem changeMemoryState_wellFormed (h : WellFormed mems s) (htg : target < 2 ^ 32)
    (hsz : size < 2 ^ 32) {expectedState newState : MemoryState}
    {expectedPerms newPerms : VMAPermission} {res : Result}
    (hcall : changeMemoryState target size expectedState expectedPerms newState newPerms s =
      some (res, s')) : WellFormed mems s' ∧ KeepsFree s s' := by
  rcases changeMemoryState_effect h.toIntact htg hsz hcall with ⟨-, rfl⟩ | ⟨hres, hrew⟩
  · exact ⟨h, fun _ hv _ => hv⟩
  have hok : res.isSuccess = true := by
    rw [hres]
    decide
  obtain ⟨ht, hs⟩ := changeMemoryState_aligned h.isLocked hok hcall
  rcases changeMemoryState_some h ht hs hrew.pos hrew.inSpace expectedState newState
    expectedPerms newPerms with ⟨-, e, hfail, hcall'⟩ | ⟨-, s'', hcall', hs, hkeep⟩
  · rw [hcall] at hcall'
    obtain ⟨rfl, -⟩ := returned hcall'
    rw [hok] at hfail
    cases hfail
  · rw [hcall] at hcall'
    obtain ⟨-, rfl⟩ := returned hcall'
    exact ⟨hs, hkeep⟩

/-- A call that carves out its range has checked it. -/
theorem carved_range (hl : s.isLocked = false) (htg : target < 2 ^ 32) (hsz : size < 2 ^ 32)
    {k : Except Result Nat × VMAMap → Option (Result × VMManager)} {out : Result × VMManager}
    (hcall : (if s.isLocked then none else carveVMARange target size s.vmaMap >>= k) = some out) :
    target % pageSize = 0 ∧ size % pageSize = 0 ∧ 0 < size ∧ target + size ≤ maxAddress := by
  rw [if_neg (by simp [hl])] at hcall
  obtain ⟨r, hcarve, -⟩ := Option.bind_eq_some_iff.mp hcall
  obtain ⟨ht, hs⟩ := carveVMARange_aligned hcarve
  exact ⟨ht, hs, carveVMARange_inSpace htg hsz hcarve⟩

/-- A call that fails leaves the manager as it was. -/
theorem WellFormed.of_outcome {call : Option (Result × VMManager)} {P : Prop} {e res : Result}
    (h : WellFormed mems s) (hcases : (¬ P ∧ call = some (e, s)) ∨
      P ∧ ∃ s', call = some (Result.success, s') ∧ WellFormed mems s')
    (hcall : call = some (res, s')) : WellFormed mems s' := by
  rcases hcases with ⟨-, hcall'⟩ | ⟨-, s'', hcall', hs⟩
  · obtain ⟨-, rfl⟩ := returned (hcall'.symm.trans hcall)
    exact h
  · obtain ⟨-, rfl⟩ := returned (hcall'.symm.trans hcall)
    exact hs

theorem unmapRange_wellFormed (h : WellFormed mems s) (htg : target < 2 ^ 32) (hsz : size < 2 ^ 32)
    {res : Result} (hcall : unmapRange target size s = some (res, s')) : WellFormed mems s' := by
  obtain ⟨ht, hs, hpos, hle⟩ := carved_range h.isLocked htg hsz hcall
  exact h.of_outcome (unmapRange_some h ht hs hpos hle) hcall

theorem reprotectRange_wellFormed (h : WellFormed mems s) (htg : target < 2 ^ 32)
    (hsz : size < 2 ^ 32) {newPerms : VMAPermission} {res : Result}
    (hcall : reprotectRange target size newPerms s = some (res, s')) : WellFormed mems s' := by
  obtain ⟨ht, hs, hpos, hle⟩ := carved_range h.isLocked htg hsz hcall
  exact h.of_outcome (reprotectRange_some h ht hs hpos hle newPerms) hcall

/-- A block of whole pages inside one allocation. -/
def SoundBlock (mems : BackingMem → Prop) (b : MemoryRef × Nat) : Prop :=
  b.1.Within mems b.2 ∧ b.2 % pageSize = 0 ∧ 0 < b.2

/-- The loop finds the blocks behind a range that is mapped, and refuses any other. -/
theorem backingBlocksLoop_cases (h : WellFormed mems s) (hle : e ≤ maxAddress)
    (hend : e % pageSize = 0) {fuel t : Nat} (acc : List (MemoryRef × Nat)) (hte : t ≤ e)
    (ht : t % pageSize = 0) (hfuel : e - t < fuel) :
    (¬ RangeAll Mapped s t e ∧
        backingBlocksLoop s.vmaMap e fuel t acc = some (.error Result.invalidAddressState)) ∨
      RangeAll Mapped s t e ∧
        ∃ bs, backingBlocksLoop s.vmaMap e fuel t acc = some (.ok (acc ++ bs)) ∧
          ∀ b ∈ bs, SoundBlock mems b := by
  induction fuel generalizing t acc with
  | zero => omega
  | succ fuel ih =>
    rcases Nat.lt_or_eq_of_le hte with hlt | rfl
    · obtain ⟨xs, v, ys, hs, hv, hloop⟩ := backingBlocksLoop_area h.toIntact hle hlt
      have hlo : v.base ≤ t := hv.1
      have hhi : t < v.base + v.size := hv.2
      have htiles : Tiles 0 (xs ++ v :: ys) maxAddress := hs ▸ h.tiles
      have hvs := h.sound v (by simp [hs])
      have hview : ∀ a, t ≤ a → a < v.base + v.size →
          Segment.view (areas s.vmaMap) a = some (v.pageAttr a) := fun a ha hae => by
        rw [hs]
        exact htiles.view_eq ⟨Nat.le_trans hlo ha, hae⟩
      by_cases htype : v.type = .backingMemory
      · have hoff := mod_sub ht hvs.base
        obtain ⟨r, hr, -, hrs⟩ := hvs.backingAt (show t - v.base < v.size by omega) hoff.2
        have hadv : v.backingMemory.advance (t - v.base) = some r := by
          unfold VirtualMemoryArea.backingAt at hr
          rw [htype] at hr
          exact hr
        have hn : (min e (v.base + v.size) - t) % pageSize = 0 := by
          have hvend := (mod_sub hvs.base hvs.size).1
          rcases Nat.le_total e (v.base + v.size) with hmin | hmin
          · rw [Nat.min_eq_left hmin]
            exact (mod_sub hend ht).2
          · rw [Nat.min_eq_right hmin]
            exact (mod_sub hvend ht).2
        have hmapped : RangeAll Mapped s t e ↔
            RangeAll Mapped s (t + (min e (v.base + v.size) - t)) e := by
          constructor
          · exact fun hall a ha hae => hall a (by omega) hae
          · intro hall a ha hae
            by_cases hin : a < v.base + v.size
            · exact ⟨_, hview a ha hin, fun hfree => nomatch htype.symm.trans hfree⟩
            · exact hall a (by omega) hae
        rw [hloop, htype, if_neg (not_not.mpr rfl), hadv, hmapped]
        rcases ih (acc ++ [(r, min e (v.base + v.size) - t)])
          (show t + (min e (v.base + v.size) - t) ≤ e by omega)
          (mod_sub ht hn).1 (by omega) with hno | ⟨hall, bs, hbs, hsound⟩
        · exact Or.inl hno
        · refine Or.inr ⟨hall, (r, min e (v.base + v.size) - t) :: bs, by simpa using hbs,
            List.forall_mem_cons.mpr ⟨?_, hsound⟩⟩
          obtain ⟨m, hm, hrm, hin⟩ := hrs.within htype
          simp only at hrm hin
          exact ⟨⟨m, hm, hrm, by simp only; omega⟩, hn, by simp only; omega⟩
      · refine Or.inl ⟨fun hall => ?_, by rw [hloop, if_pos htype]⟩
        obtain ⟨p, hp, hmapped⟩ := hall t (Nat.le_refl t) hlt
        obtain rfl := Option.some.inj ((hview t (Nat.le_refl t) hhi).symm.trans hp)
        refine hmapped ?_
        show v.type = .free
        cases hv' : v.type with
        | free => rfl
        | backingMemory => exact absurd hv' htype
    · refine Or.inr ⟨fun a ha hae => by omega, [], ?_, by simp⟩
      rw [backingBlocksLoop, if_pos rfl, List.append_nil]

/-- `GetBackingBlocksForRange` of pages. -/
theorem getBackingBlocksForRange_cases (h : WellFormed mems s) (ht : target % pageSize = 0)
    (hsz : size % pageSize = 0) (hle : target + size ≤ maxAddress) :
    (¬ RangeAll Mapped s target (target + size) ∧
        getBackingBlocksForRange target size s = some (.error Result.invalidAddressState)) ∨
      RangeAll Mapped s target (target + size) ∧
        ∃ blocks, getBackingBlocksForRange target size s = some (.ok blocks) ∧
          ∀ b ∈ blocks, SoundBlock mems b := by
  have hlim : maxAddress = 0x40000000 := rfl
  unfold getBackingBlocksForRange
  rw [add32_eq (by omega)]
  exact backingBlocksLoop_cases h hle (mod_sub ht hsz).1 [] (Nat.le_add_right _ _) ht (by omega)

theorem getBackingBlocksForRange_some (h : WellFormed mems s) (ht : target % pageSize = 0)
    (hsz : size % pageSize = 0) (hle : target + size ≤ maxAddress)
    (hmap : RangeAll Mapped s target (target + size)) :
    ∃ blocks, getBackingBlocksForRange target size s = some (.ok blocks) ∧
      ∀ b ∈ blocks, SoundBlock mems b := by
  rcases getBackingBlocksForRange_cases h ht hsz hle with ⟨hno, -⟩ | ⟨-, hblocks⟩
  · exact absurd hmap hno
  · exact hblocks

/-! ## Empty ranges -/

/-- The areas that `ChangeMemoryState` looks at for an empty range: the one around the address,
unless it starts there. -/
theorem range_empty (h : Intact s) (hlt : target < maxAddress) :
    ∃ v ∈ areas s.vmaMap, v.base ≤ target ∧ target < v.base + v.size ∧
      findVMA s.vmaMap target = some v.base ∧
      OrdMap.range s.vmaMap v.base (OrdMap.lowerBound s.vmaMap target) =
        some (if v.base < target then [(v.base, v)] else []) := by
  obtain ⟨xs, v, ys, hs, hv, hfind⟩ := findVMA_cover h.tiles hlt
  have htiles : Tiles 0 (xs ++ v :: ys) maxAddress := hs ▸ h.tiles
  have hm : s.vmaMap = keyed (xs ++ v :: ys) := hs ▸ h.keyedByBase.eq_keyed
  have hlo : v.base ≤ target := hv.1
  have hhi : target < v.base + v.size := hv.2
  obtain ⟨hb, -, -, -, -, hys⟩ := focus htiles
  refine ⟨v, by simp [hs], hlo, hhi, by rw [h.keyedByBase.eq_keyed, hfind], ?_⟩
  rw [hm]
  split_ifs with hbase
  · obtain ⟨as, hrange, has, -⟩ := range_keyed htiles hbase
    -- what lies behind the area starts behind the address
    have hnil : as = [] := List.eq_nil_iff_forall_not_mem.mpr fun w hw => by
      obtain ⟨hw, hwt⟩ := has w hw
      have hbounds := (hys.mem_bounds hw).1
      rw [base_def] at hbounds
      omega
    rw [hrange, hnil]
    rfl
  · obtain rfl : v.base = target := by omega
    rw [keyed_append, OrdMap.lowerBound_focus hb fun e he => by
      obtain rfl := Option.some.inj he
      exact Nat.le_refl _]
    show OrdMap.range _ _ (some v.base) = _
    unfold OrdMap.range
    rw [List.dropWhile_append_of_pos fun e he => decide_eq_true (hb e he)]
    simp [keyed]

/-- `ChangeMemoryState` of an empty range fails an assertion, or refuses the area around it. -/
theorem changeMemoryState_empty (h : Intact s) (hlt : target < maxAddress)
    (expectedState newState : MemoryState) (expectedPerms newPerms : VMAPermission) :
    changeMemoryState target 0 expectedState expectedPerms newState newPerms s =
      if ∃ v ∈ areas s.vmaMap, v.base < target ∧ target < v.base + v.size ∧
          (v.meminfoState ≠ expectedState ∨ v.permissions &&& expectedPerms ≠ expectedPerms)
        then some (Result.invalidAddressState, s) else none := by
  have hlim : maxAddress = 0x40000000 := rfl
  obtain ⟨v, hv, hlo, hhi, hfind, hrange⟩ := range_empty h hlt
  have hcarve : carveVMARange target 0 s.vmaMap = none := by
    cases hc : carveVMARange target 0 s.vmaMap with
    | none => rfl
    | some r => exact absurd (carveVMARange_inSpace (by omega) (by omega) hc).1 (Nat.lt_irrefl 0)
  unfold changeMemoryState
  rw [if_neg (by simp [h.isLocked]), add32_eq (by omega), Nat.add_zero]
  simp only [hfind, hrange, Option.bind_eq_bind, Option.bind_some, hcarve, Option.bind_none]
  refine if_congr ?_ rfl rfl
  constructor
  · intro hany
    split_ifs at hany with hbase
    · simp only [List.any_cons, List.any_nil, Bool.or_false, decide_eq_true_eq] at hany
      exact ⟨v, hv, hbase, hhi, hany⟩
    · cases hany
  · rintro ⟨w, hw, hwlo, hwhi, hbad⟩
    obtain rfl := h.area_unique hv hw ⟨hlo, hhi⟩ ⟨Nat.le_of_lt hwlo, hwhi⟩
    rw [if_pos hwlo]
    simpa using hbad

end VMManager

end GbaStation.Memory
