import GbaStation.Memory.Pointers

/-!
# What a mapping does to its neighbours

`MapBackingMemory` merges the new area with its neighbours before it returns the iterator to it, so
that the `Reprotect` behind it may reach further than the mapping. This file says how far.
-/

namespace GbaStation.Memory

open Segment (Tiles Covers DividesAt Merges push absorb tiles_append tiles_singleton absorb_cons
  view)
open VirtualMemoryArea (size_def base_def)
open VMAPermission (readWrite)
open VMManager (backed)

/-- What `MapBackingMemory` makes of an address: the byte at `p`, readable and writable. -/
def PageAttr.fresh (state : MemoryState) (p : Nat) : PageAttr where
  type := .backingMemory
  permissions := readWrite
  meminfoState := state
  pointer := some p

/-- The areas to the left end in one that a mapping can be merged into. -/
theorem merges_left_iff {p x : VirtualMemoryArea} {memory : MemoryRef} {state : MemoryState}
    (hp : 0 < p.size) :
    Merges p (backed memory state x) ↔
      ∃ q, q + 1 = memory.getPtr ∧ p.pageAttr (p.base + p.size - 1) = .fresh state q := by
  show p.Mergeable (backed memory state x) ↔ _
  unfold VirtualMemoryArea.Mergeable VirtualMemoryArea.pageAttr PageAttr.fresh backed
  simp only [PageAttr.mk.injEq]
  constructor
  · rintro ⟨hperms, hstate, htype, hptr⟩
    have heq := hptr htype
    refine ⟨memory.getPtr - 1, by omega, htype, hperms, hstate, ?_⟩
    rw [htype]
    simp only [Option.some.injEq]
    omega
  · rintro ⟨q, hq, htype, hperms, hstate, hptr⟩
    refine ⟨hperms, hstate, htype, fun _ => ?_⟩
    rw [htype] at hptr
    simp only [Option.some.injEq] at hptr
    omega

/-- The areas to the right start with one that can be merged into a mapping. -/
theorem merges_right_iff {n x : VirtualMemoryArea} {memory : MemoryRef} {state : MemoryState} :
    Merges (backed memory state x) n ↔
      n.pageAttr n.base = .fresh state (memory.getPtr + x.size) := by
  show (backed memory state x).Mergeable n ↔ _
  unfold VirtualMemoryArea.Mergeable VirtualMemoryArea.pageAttr PageAttr.fresh backed
  simp only [PageAttr.mk.injEq]
  constructor
  · rintro ⟨hperms, hstate, htype, hptr⟩
    refine ⟨htype.symm, hperms.symm, hstate.symm, ?_⟩
    rw [← htype]
    simp only [Option.some.injEq]
    have := hptr trivial
    omega
  · rintro ⟨htype, hperms, hstate, hptr⟩
    refine ⟨hperms.symm, hstate.symm, htype.symm, fun _ => ?_⟩
    rw [htype] at hptr
    simp only [Option.some.injEq] at hptr
    omega

namespace VMManager

variable {s s' s₁ : VMManager} {target e size : Nat} {memory : MemoryRef} {state : MemoryState}
  {perms : VMAPermission} {byte : Nat → Option Nat}

/-- The address in front of `target` is as a mapping there of the byte in front of `first` would
make it. -/
def ContinuedBefore (s : VMManager) (target : Nat) (state : MemoryState) (first : Option Nat) :
    Prop :=
  ∃ p ∈ first, 0 < target ∧ 0 < p ∧
    view (areas s.vmaMap) (target - 1) = some (.fresh state (p - 1))

/-- The address `e` is as a mapping there of the byte behind `last` would make it. -/
def ContinuedAfter (s : VMManager) (e : Nat) (state : MemoryState) (last : Option Nat) : Prop :=
  ∃ p ∈ last, view (areas s.vmaMap) e = some (.fresh state (p + 1))

/-- `[target, e)` was free and has been mapped to the bytes `byte 0`, `byte 1`, ... -/
structure MappedAt (s s' : VMManager) (target e : Nat) (state : MemoryState)
    (perms : VMAPermission) (byte : Nat → Option Nat) : Prop where
  intact : Intact s'
  free : ∀ a p, target ≤ a → a < e → view (areas s.vmaMap) a = some p → p.type = .free
  inside : ∀ a, target ≤ a → a < e → view (areas s'.vmaMap) a =
    some ⟨.backingMemory, perms, state, byte (a - target)⟩
  below : perms = readWrite ∨ ¬ ContinuedBefore s target state (byte 0) →
    ∀ a < target, view (areas s'.vmaMap) a = view (areas s.vmaMap) a
  above : perms = readWrite ∨ ¬ ContinuedAfter s e state (byte (e - target - 1)) →
    ∀ a, e ≤ a → view (areas s'.vmaMap) a = view (areas s.vmaMap) a
  /-- What continues the mapping is reprotected with it. -/
  joinedBefore : ContinuedBefore s target state (byte 0) →
    view (areas s'.vmaMap) (target - 1) =
      (view (areas s.vmaMap) (target - 1)).map (.reprotected perms)
  joinedAfter : ContinuedAfter s e state (byte (e - target - 1)) →
    view (areas s'.vmaMap) e =
      (view (areas s.vmaMap) e).map (.reprotected perms)

/-! ## One block -/

section Block

variable {done rest : List VirtualMemoryArea} {x : VirtualMemoryArea}

/-- Where `CarveVMA` has cut the range out: `x` lies over it, between `done` and `rest`. -/
structure CutOut (vs : List VirtualMemoryArea) (target e : Nat) (done : List VirtualMemoryArea)
    (x : VirtualMemoryArea) (rest : List VirtualMemoryArea) : Prop where
  left : Tiles 0 done target
  middle : Tiles target [x] e
  right : Tiles e rest maxAddress
  free : x.type = .free
  view : ∀ a, Segment.view vs a =
    (Segment.view done a).or ((Segment.view [x] a).or (Segment.view rest a))

namespace CutOut

variable {vs : List VirtualMemoryArea}

theorem view_left (h : CutOut vs target e done x rest) {a : Nat} (ha : a < target) :
    Segment.view vs a = Segment.view done a := by
  have hle := h.middle.le
  rw [h.view, h.middle.view_eq_none (Or.inl ha), h.right.view_eq_none (Or.inl (by omega))]
  simp

theorem view_right (h : CutOut vs target e done x rest) {a : Nat} (ha : e ≤ a) :
    Segment.view vs a = Segment.view rest a := by
  have hle := h.middle.le
  rw [h.view, h.middle.view_eq_none (Or.inr ha), h.left.view_eq_none (Or.inr (by omega))]
  simp

theorem view_middle (h : CutOut vs target e done x rest) {a : Nat} (ha : target ≤ a)
    (hae : a < e) : Segment.view vs a = some (x.pageAttr a) := by
  have hcov : Covers x a := by
    obtain ⟨hb, -, hend⟩ := tiles_singleton.mp h.middle
    rw [Covers]
    omega
  rw [h.view, h.left.view_eq_none (Or.inr ha), Segment.view_singleton, if_pos hcov]
  rfl

/-- A neighbour that the mapping is merged with was readable and writable. -/
theorem readWrite_left (h : CutOut vs target e done x rest) {p : VirtualMemoryArea}
    (hp : p ∈ done.getLast?) (hm : Merges p (backed memory state x)) {a : Nat} (hlo : p.base ≤ a)
    (ha : a < target) :
    ∃ q, Segment.view vs a = some q ∧ q.permissions = readWrite := by
  obtain ⟨ys, rfl⟩ := List.getLast?_eq_some_iff.mp hp
  obtain ⟨m, -, hpt⟩ := tiles_append.mp h.left
  obtain ⟨-, -, hend⟩ := tiles_singleton.mp hpt
  rw [size_def] at hend
  have hb : p.base = m := hpt.1
  have hcov : Covers p a := by
    rw [Covers, base_def, size_def]
    omega
  exact ⟨_, (h.view_left ha).trans (h.left.view_eq hcov), hm.1⟩

theorem readWrite_right (h : CutOut vs target e done x rest) {n : VirtualMemoryArea}
    (hn : n ∈ rest.head?) (hm : Merges (backed memory state x) n) {a : Nat} (ha : e ≤ a)
    (hhi : a < n.base + n.size) :
    ∃ q, Segment.view vs a = some q ∧ q.permissions = readWrite := by
  obtain ⟨ys, rfl⟩ := List.head?_eq_some_iff.mp hn
  have hb : n.base = e := h.right.1
  have hcov : Covers n a := by
    rw [Covers, base_def, size_def]
    omega
  have hr : Tiles e ([] ++ n :: ys) maxAddress := h.right
  exact ⟨_, (h.view_right ha).trans (hr.view_eq hcov), hm.1.symm⟩

theorem continuedBefore_iff (h : CutOut (areas s.vmaMap) target e done x rest)
    (hptr : memory.getPtr ≠ 0) :
    ContinuedBefore s target state (some memory.getPtr) ↔
      ∃ p ∈ done.getLast?, Merges p (backed memory state x) := by
  unfold ContinuedBefore
  simp only [Option.mem_some_iff, exists_eq_left']
  rcases List.eq_nil_or_concat done with rfl | ⟨ys, p, rfl⟩
  · have ht : 0 = target := h.left
    simp [← ht]
  · have hd := h.left
    rw [List.concat_eq_append] at hd ⊢
    obtain ⟨m, -, hp⟩ := tiles_append.mp hd
    obtain ⟨hb, hpos, hend⟩ := tiles_singleton.mp hp
    rw [base_def] at hb
    rw [size_def] at hpos hend
    have hcov : Covers p (target - 1) := by
      rw [Covers, base_def, size_def]
      omega
    have hview : Segment.view (areas s.vmaMap) (target - 1) = some (p.pageAttr (target - 1)) := by
      have hd' : Tiles 0 (ys ++ p :: []) target := hd
      rw [h.view_left (by omega), List.concat_eq_append, hd'.view_eq hcov]
      rfl
    simp only [List.getLast?_concat, Option.mem_some_iff, exists_eq_left']
    rw [merges_left_iff hpos, hview, show p.base + p.size - 1 = target - 1 by omega,
      Option.some.injEq]
    constructor
    · rintro ⟨-, -, hq⟩
      exact ⟨memory.getPtr - 1, by omega, hq⟩
    · rintro ⟨q, hq, hattr⟩
      exact ⟨by omega, by omega, by rw [hattr, ← hq, Nat.add_sub_cancel]⟩

theorem continuedAfter_iff (h : CutOut (areas s.vmaMap) target e done x rest) {last : Nat}
    (hlast : last + 1 = memory.getPtr + x.size) :
    ContinuedAfter s e state (some last) ↔
      ∃ n ∈ rest.head?, Merges (backed memory state x) n := by
  unfold ContinuedAfter
  simp only [Option.mem_some_iff, exists_eq_left']
  rw [h.view_right (Nat.le_refl e), hlast]
  cases rest with
  | nil => simp [Segment.view]
  | cons n rest =>
    have hr := h.right
    have hb : n.base = e := hr.1
    have hpos : 0 < n.size := hr.2.1
    have hcov : Covers n e := by
      rw [Covers, base_def, size_def]
      omega
    have hr' : Tiles e ([] ++ n :: rest) maxAddress := hr
    have hview := hr'.view_eq hcov
    rw [List.nil_append] at hview
    simp only [List.head?_cons, Option.mem_some_iff, exists_eq_left']
    rw [hview, Option.some.injEq, merges_right_iff, hb]
    rfl

end CutOut

/-- The two ends of the area that a new mapping becomes part of. -/
theorem settled_ends (hd : Tiles 0 done target) (hx : Tiles target [x] e)
    (hr : Tiles e rest maxAddress) {zs : List VirtualMemoryArea} {l : VirtualMemoryArea}
    (hpush : push done (absorb x rest).1 = zs ++ [l]) :
    l.base ≤ target ∧ e ≤ l.base + l.size ∧
      (l.base < target ↔ ∃ p ∈ done.getLast?, Merges p x) ∧
      (e < l.base + l.size ↔ ∃ n ∈ rest.head?, Merges x n) ∧
      (∀ p ∈ done.getLast?, Merges p x → l.base = p.base) ∧
      ∀ n ∈ rest.head?, Merges x n → l.base + l.size = n.base + n.size := by
  have key : ∀ (c : VirtualMemoryArea) (hi : Nat), Tiles target [c] hi → (absorb x rest).1 = c →
      (∀ p, Merges p c ↔ Merges p x) →
      l.base ≤ target ∧ l.base + l.size = hi ∧ (l.base < target ↔ ∃ p ∈ done.getLast?, Merges p x) ∧
        ∀ p ∈ done.getLast?, Merges p x → l.base = p.base := by
    intro c hi hc habs hmerge
    rw [habs] at hpush
    obtain ⟨xs, l', hpush', hle, hend, -, hb⟩ := Segment.push_last hd hc
    obtain ⟨-, hl⟩ := List.append_inj' (hpush.symm.trans hpush') rfl
    obtain rfl := List.singleton_inj.mp hl
    refine ⟨hle, hend, ?_, fun p hp hm => hb p hp ((hmerge p).mpr hm)⟩
    simpa only [hmerge, base_def] using Segment.push_start hd hc hpush
  cases rest with
  | nil =>
    obtain ⟨hle, hend, hlt, hb⟩ := key x e hx rfl fun _ => Iff.rfl
    exact ⟨hle, Nat.le_of_eq hend.symm, hlt, by simp [hend], hb, by simp⟩
  | cons n rest =>
    obtain ⟨m, hn, -⟩ := Segment.tiles_cons.mp hr
    obtain ⟨hnb, hnpos, hnend⟩ := tiles_singleton.mp hn
    rw [base_def] at hnb
    rw [size_def] at hnpos hnend
    simp only [List.head?_cons, Option.mem_some_iff, exists_eq_left', forall_eq']
    by_cases hm : Merges x n
    · obtain ⟨hle, hend, hlt, hb⟩ := key (Segment.glue x n) m (Segment.tiles_glue hx hn)
        (by rw [absorb_cons, if_pos hm]) fun p => Segment.merges_glue_right p x n
      exact ⟨hle, by omega, hlt, iff_of_true (by omega) hm, hb, fun _ => by omega⟩
    · obtain ⟨hle, hend, hlt, hb⟩ := key x e hx (by rw [absorb_cons, if_neg hm]) fun _ => Iff.rfl
      exact ⟨hle, Nat.le_of_eq hend.symm, hlt, iff_of_false (by omega) hm, hb,
        fun hm' => absurd hm' hm⟩

/-- Where `MapBackingMemory` has put the new area, and which area it returns. -/
theorem mapBackingMemory_cutOut (h : Intact s) (hsz : size < 2 ^ 32) {k : Nat}
    (hmap : mapBackingMemory target memory size state s = some (.ok k, s₁)) :
    memory.getPtr ≠ 0 ∧ ∃ done x rest zs l,
      CutOut (areas s.vmaMap) target (target + size) done x rest ∧ x.size = size ∧
        push done (absorb (backed memory state x) rest).1 = zs ++ [l] ∧ k = l.base ∧
        areas s₁.vmaMap = zs ++ l :: (absorb (backed memory state x) rest).2 := by
  have hm := h.keyedByBase.eq_keyed
  have hcall := hmap
  unfold mapBackingMemory at hmap
  split at hmap
  · cases hmap
  split at hmap
  · cases hmap
  next hptr =>
  obtain ⟨⟨r, m⟩, hcarve, -⟩ := Option.bind_eq_some_iff.mp hmap
  obtain ⟨done, x, rest, hcut, hcarve'⟩ : ∃ done x rest,
      CutOut (areas s.vmaMap) target (target + size) done x rest ∧
        carveVMA target size s.vmaMap = some (.ok target, keyed (done ++ x :: rest)) := by
    rw [hm] at hcarve
    rcases carveVMA_keyed h.tiles hsz hcarve with
      ⟨err, -, rfl, -⟩ | ⟨rfl, -, -, ls, done, x, rest, hend, hstart, hfree, rfl⟩
    · rw [hm, hcarve] at hmap
      cases hmap
    · obtain ⟨hd, hx⟩ := hstart.tiles
      refine ⟨done, x, rest, ⟨hd, hx, hend.tiles.2, hfree, fun a => ?_⟩, by rw [hm, hcarve]⟩
      rw [← hend.view, ← hstart.view, Option.or_assoc]
  obtain ⟨zs, l, hpush, hcall'⟩ : ∃ zs l,
      push done (absorb (backed memory state x) rest).1 = zs ++ [l] ∧
        mapBackingMemory target memory size state s = some (.ok l.base, { s with
          vmaMap := keyed (zs ++ l :: (absorb (backed memory state x) rest).2) }) :=
    mapBackingMemory_carved h.isLocked hptr hcut.left hcut.middle hcut.right hcarve'
  rw [hcall] at hcall'
  obtain ⟨hk, rfl⟩ := returned hcall'
  have hxsize : x.size = size := by
    have : target + x.size = target + size := hcut.middle.2.2
    omega
  exact ⟨hptr, done, x, rest, zs, l, hcut, hxsize, hpush, Except.ok.inj hk, areas_keyed _⟩

/-- One block mapped and reprotected, as the loops of the callers do. -/
theorem mapReprotect_effect (h : Intact s) (hsz : size < 2 ^ 32) {k k' : Nat}
    (hmap : mapBackingMemory target memory size state s = some (.ok k, s₁))
    (hrep : reprotect k perms s₁ = some (k', s')) :
    0 < size ∧ target + size ≤ maxAddress ∧
      MappedAt s s' target (target + size) state perms (bytePointer [(memory, size)]) := by
  obtain ⟨hptr, done, x, rest, zs, l, hcut, hxsize, hpush, rfl, hareas₁⟩ :=
    mapBackingMemory_cutOut h hsz hmap
  rcases mapBackingMemory_effect h.tiles h.keyedByBase.eq_keyed hsz hmap with
    ⟨err, -, herr, -⟩ | ⟨-, hl₁, hpos, hle, vs₁, hm₁, hrew₁⟩
  · cases herr
  have hvs₁ : vs₁ = zs ++ l :: (absorb (backed memory state x) rest).2 := by
    rw [← hareas₁, hm₁, areas_keyed]
  obtain ⟨hl, v, vs', hget, hvs', hrew⟩ := reprotect_effect hrew₁.tiles hm₁ hrep
  obtain rfl : l = v := by
    rw [hm₁, hvs₁, get?_keyed (hvs₁ ▸ hrew₁.tiles)] at hget
    exact Option.some.inj hget
  obtain ⟨hlo, hhi, hbefore, hafter, hlb, hle'⟩ := settled_ends hcut.left
    (show Tiles target [backed memory state x] (target + size) from hcut.middle) hcut.right hpush
  have hfirst : bytePointer [(memory, size)] 0 = some memory.getPtr := by
    rw [bytePointer, if_pos hpos, Nat.add_zero]
  have hlast : bytePointer [(memory, size)] (target + size - target - 1) =
      some (memory.getPtr + (size - 1)) := by
    rw [bytePointer, if_pos (by omega)]
    congr 1
    omega
  rw [← hcut.continuedBefore_iff hptr] at hbefore
  have hend : memory.getPtr + (size - 1) + 1 = memory.getPtr + x.size := by omega
  rw [← hcut.continuedAfter_iff hend] at hafter
  -- what the two steps make of an address
  have hview : ∀ a, view (areas s'.vmaMap) a =
      if l.base ≤ a ∧ a < l.base + l.size then
        (if target ≤ a ∧ a < target + size then
          (view (areas s.vmaMap) a).map (Call.mapped target memory state a)
        else view (areas s.vmaMap) a).map (.reprotected perms)
      else view (areas s.vmaMap) a := by
    intro a
    rw [hvs', areas_keyed, hrew.view, hrew₁.view]
    split_ifs with h₁ h₂ h₂
    · rfl
    · rfl
    · exact absurd ⟨by omega, by omega⟩ h₁
    · rfl
  have hsame : ∀ {a : Nat} {q : PageAttr}, perms = readWrite →
      view (areas s.vmaMap) a = some q → q.permissions = readWrite →
      (view (areas s.vmaMap) a).map (.reprotected perms) =
        view (areas s.vmaMap) a := by
    intro a q hperms hq hqp
    rw [hq, Option.map_some, PageAttr.reprotected, hperms, ← hqp]
  refine ⟨hpos, hle, hrew.intact (hl.trans (hl₁.trans h.isLocked)) hvs', fun a p ha hae hp => ?_,
    fun a ha hae => ?_, fun hb a ha => ?_, fun hb a ha => ?_, fun hb => ?_, fun hb => ?_⟩
  · obtain rfl := Option.some.inj ((hcut.view_middle ha hae).symm.trans hp)
    exact hcut.free
  · rw [hview, if_pos (by omega), if_pos ⟨ha, hae⟩, hcut.view_middle ha hae, bytePointer,
      if_pos (by omega)]
    rfl
  · rw [hview, if_neg (show ¬ (target ≤ a ∧ a < target + size) by omega), ite_eq_right_iff]
    intro hin
    obtain ⟨p, hp, hmerge⟩ := (hcut.continuedBefore_iff hptr).mp (hbefore.mp (by omega))
    obtain ⟨q, hq, hqp⟩ := hcut.readWrite_left hp hmerge (hlb p hp hmerge ▸ hin.1) ha
    rcases hb with hperms | hb
    · exact hsame hperms hq hqp
    · rw [hfirst] at hb
      exact absurd (hbefore.mp (by omega)) hb
  · rw [hview, if_neg (show ¬ (target ≤ a ∧ a < target + size) by omega), ite_eq_right_iff]
    intro hin
    obtain ⟨n, hn, hmerge⟩ := (hcut.continuedAfter_iff hend).mp (hafter.mp (by omega))
    obtain ⟨q, hq, hqp⟩ := hcut.readWrite_right hn hmerge ha (hle' n hn hmerge ▸ hin.2)
    rcases hb with hperms | hb
    · exact hsame hperms hq hqp
    · rw [hlast] at hb
      exact absurd (hafter.mp (by omega)) hb
  · rw [hfirst, ← hbefore] at hb
    rw [hview, if_pos (by omega), if_neg (by omega)]
  · rw [hlast, ← hafter] at hb
    rw [hview, if_pos (by omega), if_neg (by omega)]

end Block

/-! ## Blocks one behind the other -/

/-- Two mappings one behind the other are one. The first joins nothing on its right, where the
memory is still free; the second joins the first only where that changes nothing. -/
theorem MappedAt.trans {mid : Nat} {f g : Nat → Option Nat}
    (h₁ : MappedAt s s₁ target mid state perms f) (h₂ : MappedAt s₁ s' mid e state perms g)
    (htm : target < mid) (hme : mid < e)
    (hbyte : ∀ i, byte i = if i < mid - target then f i else g (i - (mid - target))) :
    MappedAt s s' target e state perms byte := by
  have hbehind : ∀ a, mid ≤ a →
      view (areas s₁.vmaMap) a = view (areas s.vmaMap) a := by
    refine h₁.above (Or.inr fun hc => ?_)
    have hview := h₁.joinedAfter hc
    obtain ⟨p, -, hp⟩ := hc
    rw [hp, Option.map_some] at hview
    cases h₂.free mid _ (Nat.le_refl mid) hme hview
  have hahead : ∀ a < mid,
      view (areas s'.vmaMap) a = view (areas s₁.vmaMap) a := by
    refine h₂.below ?_
    by_cases hperms : perms = readWrite
    · exact Or.inl hperms
    · refine Or.inr ?_
      rintro ⟨p, -, -, -, hp⟩
      rw [h₁.inside (mid - 1) (by omega) (by omega), Option.some.injEq] at hp
      exact hperms (congrArg PageAttr.permissions hp)
  have hfirst : byte 0 = f 0 := by rw [hbyte, if_pos (by omega)]
  have hlast : byte (e - target - 1) = g (e - mid - 1) := by
    rw [hbyte, if_neg (by omega)]
    congr 1
    omega
  have hafter : ContinuedAfter s e state (byte (e - target - 1)) ↔
      ContinuedAfter s₁ e state (g (e - mid - 1)) := by
    unfold ContinuedAfter
    rw [hlast, hbehind e (by omega)]
  refine ⟨h₂.intact, fun a p ha hae hp => ?_, fun a ha hae => ?_, fun hb a ha => ?_,
    fun hb a ha => ?_, fun hb => ?_, fun hb => ?_⟩
  · rcases Nat.lt_or_ge a mid with hlt | hge
    · exact h₁.free a p ha hlt hp
    · exact h₂.free a p hge hae ((hbehind a hge).trans hp)
  · rcases Nat.lt_or_ge a mid with hlt | hge
    · rw [hahead a hlt, h₁.inside a ha hlt, hbyte, if_pos (by omega)]
    · rw [h₂.inside a hge hae, hbyte, if_neg (by omega), Nat.sub_sub,
        Nat.add_sub_cancel' (Nat.le_of_lt htm)]
  · rw [hfirst] at hb
    rw [hahead a (by omega), h₁.below hb a ha]
  · rw [hafter] at hb
    rw [h₂.above hb a ha, hbehind a (by omega)]
  · rw [hfirst] at hb
    rw [hahead _ (by omega), h₁.joinedBefore hb]
  · rw [hafter] at hb
    rw [h₂.joinedAfter hb, hbehind e (by omega)]

/-- A mapping with permissions other than `ReadWrite` changes what continues it. -/
theorem MappedAt.changed (h : MappedAt s s' target e state perms byte)
    (hperms : perms ≠ readWrite) :
    (ContinuedBefore s target state (byte 0) →
        view (areas s'.vmaMap) (target - 1) ≠ view (areas s.vmaMap) (target - 1)) ∧
      (ContinuedAfter s e state (byte (e - target - 1)) →
        view (areas s'.vmaMap) e ≠ view (areas s.vmaMap) e) := by
  constructor
  · intro hc heq
    have hjoin := h.joinedBefore hc
    obtain ⟨p, -, -, -, hp⟩ := hc
    rw [heq, hp, Option.map_some, Option.some.injEq] at hjoin
    exact hperms (congrArg PageAttr.permissions hjoin).symm
  · intro hc heq
    have hjoin := h.joinedAfter hc
    obtain ⟨p, -, hp⟩ := hc
    rw [heq, hp, Option.map_some, Option.some.injEq] at hjoin
    exact hperms (congrArg PageAttr.permissions hjoin).symm

/-- What is beside a mapping, apart from addresses that cannot continue it, is as before exactly if
nothing continues the mapping or the permissions are those a mapping has anyway. -/
theorem MappedAt.frame_iff (h : MappedAt s s' target e state perms byte) {P : Nat → Prop}
    (hP : ∀ a p, P a → view (areas s.vmaMap) a ≠ some (.fresh state p)) :
    (∀ a, (a < target ∨ e ≤ a) → ¬ P a →
        view (areas s'.vmaMap) a = view (areas s.vmaMap) a) ↔
      perms = readWrite ∨ ¬ ContinuedBefore s target state (byte 0) ∧
        ¬ ContinuedAfter s e state (byte (e - target - 1)) := by
  constructor
  · intro hframe
    by_cases hperms : perms = readWrite
    · exact Or.inl hperms
    · refine Or.inr ⟨fun hc => ?_, fun hc => ?_⟩
      · obtain ⟨p, -, hpos, -, hp⟩ := id hc
        exact (h.changed hperms).1 hc (hframe _ (Or.inl (by omega)) fun hin => hP _ _ hin hp)
      · obtain ⟨p, -, hp⟩ := id hc
        exact (h.changed hperms).2 hc (hframe _ (Or.inr (Nat.le_refl e)) fun hin => hP _ _ hin hp)
  · rintro hb a (ha | ha) -
    · exact h.below (hb.imp_right And.left) a ha
    · exact h.above (hb.imp_right And.right) a ha

/-- Nothing mapped. -/
theorem MappedAt.refl (h : Intact s) (target : Nat) (state : MemoryState) (perms : VMAPermission) :
    MappedAt s s target target state perms (bytePointer []) where
  intact := h
  free _ _ ha hae := absurd hae (Nat.not_lt.mpr ha)
  inside _ ha hae := absurd hae (Nat.not_lt.mpr ha)
  below _ _ _ := rfl
  above _ _ _ := rfl
  joinedBefore := by rintro ⟨p, hp, -⟩; cases hp
  joinedAfter := by rintro ⟨p, hp, -⟩; cases hp

end VMManager

end GbaStation.Memory
