import GbaStation.Memory.Calls

/-!
# Where the address space points

`pointerAt s a` is the host address behind the address `a`. Of all the operations only a
new mapping and an unmapping change it; protections and states do not. `bytePointer` says
the same of a list of backing blocks, so that `getBackingBlocksForRange` and `mapBlocks`
become the two directions of one correspondence.
-/

namespace GbaStation.Memory

open Kernel (Result)
open Segment (Tiles)

namespace VMManager

/-- The host address behind an address. -/
def pointerAt (s : VMManager) (a : Nat) : Option Nat :=
  (Segment.view (areas s.vmaMap) a).bind PageAttr.pointer

variable {s s' : VMManager} {res : Result}

theorem intact_of_reset {s₀ : VMManager} (h : s₀.reset = some s) : Intact s :=
  have ht := tiled_reset h
  ⟨ht.isLocked, ht.keyedByBase, ht.tiles⟩

/-- What is behind an address is behind it in an area. -/
theorem exists_area_of_pointerAt {a p : Nat} (h : pointerAt s a = some p) :
    ∃ v ∈ areas s.vmaMap, v.base ≤ a ∧ a < v.base + v.size ∧ (v.pageAttr a).pointer = some p := by
  obtain ⟨q, hview, hq⟩ := Option.bind_eq_some_iff.mp h
  obtain ⟨v, hfind, rfl⟩ := Option.map_eq_some_iff.mp hview
  have hcovers : Segment.Covers v a :=
    of_decide_eq_true (List.find?_some (p := fun v => decide (Segment.Covers v a)) hfind)
  exact ⟨v, List.mem_of_find?_eq_some hfind, hcovers.1, hcovers.2, hq⟩

theorem pointerAt_reset {s₀ : VMManager} (h : s₀.reset = some s) (a : Nat) :
    pointerAt s a = none := by
  unfold pointerAt
  by_cases ha : a < maxAddress
  · rw [(tiled_reset h).agrees a ha]
    rfl
  · rw [(tiled_reset h).tiles.view_eq_none (Or.inr (Nat.le_of_not_lt ha))]
    rfl

variable {vs' : List VirtualMemoryArea} {size target : Nat} {g : Nat → PageAttr → PageAttr}
  {keeps : Prop} {newPerms : VMAPermission}

theorem Rewritten.intact {vs : List VirtualMemoryArea} {e : Nat}
    (h : Rewritten vs vs' target e g keeps) (hl : s'.isLocked = false) (hm : s'.vmaMap = keyed vs')
    :
    Intact s' :=
  ⟨hl, hm ▸ keyedByBase_keyed vs', by rw [hm, areas_keyed]; exact h.tiles⟩

theorem Rewritten.pointerAt {e : Nat} (h : Rewritten (areas s.vmaMap) vs' target e g keeps)
    (hm : s'.vmaMap = keyed vs') (a : Nat) :
    pointerAt s' a = if target ≤ a ∧ a < e
      then (Segment.view (areas s.vmaMap) a).bind fun p => (g a p).pointer else pointerAt s a := by
  unfold VMManager.pointerAt
  rw [hm, areas_keyed, h.view]
  split_ifs
  · rw [Option.bind_map]
    rfl
  · rfl

/-- A rewriting that keeps the pointers. -/
theorem Rewritten.pointerAt_eq {e : Nat} (h : Rewritten (areas s.vmaMap) vs' target e g keeps)
    (hm : s'.vmaMap = keyed vs') (hg : ∀ a p, (g a p).pointer = p.pointer) (a : Nat) :
    VMManager.pointerAt s' a = VMManager.pointerAt s a := by
  rw [h.pointerAt hm, ite_eq_right_iff]
  intro
  simp only [hg]
  rfl

theorem mapBackingMemory_pointerAt (h : Intact s) {memory : MemoryRef} {state : MemoryState}
    (hsz : size < 2 ^ 32) {k : Nat}
    (he : mapBackingMemory target memory size state s = some (.ok k, s')) :
    Intact s' ∧ target + size ≤ maxAddress ∧ ∀ a, pointerAt s' a =
      if target ≤ a ∧ a < target + size then some (memory.getPtr + (a - target))
      else pointerAt s a := by
  rcases mapBackingMemory_effect h.tiles h.keyedByBase.eq_keyed hsz he with
    ⟨e, -, he, -⟩ | ⟨-, hl, -, hle, vs', hm, hrew⟩
  · cases he
  · refine ⟨hrew.intact (hl.trans h.isLocked) hm, hle, fun a => ?_⟩
    rw [hrew.pointerAt hm]
    refine ite_congr rfl (fun ha => ?_) fun _ => rfl
    obtain ⟨p, hp⟩ := Option.isSome_iff_exists.mp
      (h.tiles.view_isSome (Nat.zero_le a) (Nat.lt_of_lt_of_le ha.2 hle))
    rw [hp]
    rfl

theorem reprotect_pointerAt (h : Intact s) {k k' : Nat}
    (he : reprotect k newPerms s = some (k', s')) :
    Intact s' ∧ ∀ a, pointerAt s' a = pointerAt s a := by
  obtain ⟨hl, v, vs', -, hm, hrew⟩ := reprotect_effect h.tiles h.keyedByBase.eq_keyed he
  exact ⟨hrew.intact (hl.trans h.isLocked) hm, hrew.pointerAt_eq hm fun _ _ => rfl⟩

/-- A rewriting that keeps the pointers. -/
theorem RangeRewritten.pointerAt_eq {f : PageAttr → PageAttr}
    (h : RangeRewritten s s' target size f keeps) (hf : ∀ p, (f p).pointer = p.pointer) (a : Nat) :
    VMManager.pointerAt s' a = VMManager.pointerAt s a := by
  unfold VMManager.pointerAt
  rw [h.view]
  split_ifs
  · rw [Option.bind_map]
    exact Option.bind_congr fun p _ => hf p
  · rfl

theorem reprotectRange_pointerAt (h : Intact s) (htg : target < 2 ^ 32) (hsz : size < 2 ^ 32)
    (he : reprotectRange target size newPerms s = some (res, s')) :
    Intact s' ∧ ∀ a, pointerAt s' a = pointerAt s a := by
  rcases reprotectRange_effect h htg hsz he with ⟨-, rfl⟩ | ⟨-, hrew⟩
  · exact ⟨h, fun _ => rfl⟩
  · exact ⟨hrew.intact, hrew.pointerAt_eq fun _ => rfl⟩

theorem changeMemoryState_pointerAt (h : Intact s) {expectedState newState : MemoryState}
    {expectedPerms : VMAPermission} (htg : target < 2 ^ 32) (hsz : size < 2 ^ 32)
    (he : changeMemoryState target size expectedState expectedPerms newState newPerms s =
      some (res, s')) :
    Intact s' ∧ (∀ a, pointerAt s' a = pointerAt s a) ∧
      (res.isSuccess = true → target + size ≤ maxAddress) := by
  rcases changeMemoryState_effect h htg hsz he with ⟨hres, rfl⟩ | ⟨-, hrew⟩
  · exact ⟨h, fun _ => rfl, fun hs => absurd hs (by simp [hres])⟩
  · exact ⟨hrew.intact, hrew.pointerAt_eq fun _ => rfl, fun _ => hrew.inSpace⟩

theorem pointerAt_of_covers (h : Intact s) {xs ys : List VirtualMemoryArea}
    {v : VirtualMemoryArea} {a : Nat} (hs : areas s.vmaMap = xs ++ v :: ys)
    (hv : Segment.Covers v a) (ht : v.type = .backingMemory) :
    pointerAt s a = some (v.backingMemory.getPtr + (a - v.base)) := by
  have htiles : Tiles 0 (xs ++ v :: ys) maxAddress := hs ▸ h.tiles
  unfold pointerAt
  rw [hs, htiles.view_eq hv]
  show (v.pageAttr a).pointer = _
  simp only [VirtualMemoryArea.pageAttr, ht]

theorem unmapRange_pointerAt (h : Intact s) (htg : target < 2 ^ 32) (hsz : size < 2 ^ 32)
    (he : unmapRange target size s = some (res, s')) :
    (res.isSuccess = false ∧ s' = s) ∨
      res = Result.success ∧ Intact s' ∧
        (∀ a, target ≤ a → a < target + size → ∃ p, pointerAt s a = some p) ∧
        ∀ a, pointerAt s' a = if target ≤ a ∧ a < target + size then none else pointerAt s a := by
  obtain ⟨hout, hfree⟩ := unmapRange_effect h htg hsz he
  rcases hout with hfail | ⟨rfl, hrew⟩
  · exact Or.inl hfail
  refine Or.inr ⟨rfl, hrew.intact, fun a hlo hhi => ?_, fun a => ?_⟩
  · obtain ⟨xs, v, ys, hs, hv⟩ :=
      h.tiles.exists_cover (Nat.zero_le a) (Nat.lt_of_lt_of_le hhi hrew.inSpace)
    have hvlo : v.base ≤ a := hv.1
    have hvhi : a < v.base + v.size := hv.2
    have htype := hfree rfl v (by simp [hs]) (by omega) (by omega)
    refine ⟨_, pointerAt_of_covers h hs hv ?_⟩
    cases ht : v.type with
    | free => exact absurd ht htype
    | backingMemory => rfl
  · unfold pointerAt
    rw [hrew.view]
    split_ifs
    · rw [Option.bind_map, Option.bind_eq_none_iff]
      exact fun _ _ => rfl
    · rfl

/-! ## Backing blocks -/

/-- The host address of byte `i` of a list of blocks. -/
def bytePointer : List (MemoryRef × Nat) → Nat → Option Nat
  | [], _ => none
  | (r, n) :: bs, i => if i < n then some (r.getPtr + i) else bytePointer bs (i - n)

/-- The bytes in a list of blocks. -/
def blocksSize (bs : List (MemoryRef × Nat)) : Nat := (bs.map Prod.snd).sum

@[simp] theorem blocksSize_nil : blocksSize [] = 0 := rfl

@[simp] theorem blocksSize_cons (b : MemoryRef × Nat) (bs : List (MemoryRef × Nat)) :
    blocksSize (b :: bs) = b.2 + blocksSize bs := rfl

theorem exists_bytePointer {blocks : List (MemoryRef × Nat)} {i : Nat} (h : i < blocksSize blocks) :
    ∃ p, bytePointer blocks i = some p := by
  induction blocks generalizing i with
  | nil => simp at h
  | cons b bs ih =>
    obtain ⟨r, n⟩ := b
    rw [blocksSize_cons] at h
    rw [bytePointer]
    split_ifs with hi
    · exact ⟨_, rfl⟩
    · exact ih (by simp only at h; omega)

theorem bytePointer_isSome {bs : List (MemoryRef × Nat)} {i p : Nat}
    (h : bytePointer bs i = some p) : i < blocksSize bs := by
  induction bs generalizing i with
  | nil => cases h
  | cons b bs ih =>
    obtain ⟨r, n⟩ := b
    rw [bytePointer] at h
    rw [blocksSize_cons]
    split_ifs at h with hi
    · omega
    · have := ih h
      omega

section BackingBlocks

variable {e t fuel : Nat} {acc : List (MemoryRef × Nat)}

/-- One turn of the loop looks at the area across the interval's start. -/
theorem backingBlocksLoop_area (h : Intact s) (he : e ≤ maxAddress) (ht : t < e) :
    ∃ xs v ys, areas s.vmaMap = xs ++ v :: ys ∧ Segment.Covers v t ∧
      ∀ fuel acc, backingBlocksLoop s.vmaMap e (fuel + 1) t acc =
        if v.type ≠ .backingMemory then some (.error Result.invalidAddressState) else
          (v.backingMemory.advance (t - v.base)).bind fun r =>
            backingBlocksLoop s.vmaMap e fuel (t + (min e (v.base + v.size) - t))
              (acc ++ [(r, min e (v.base + v.size) - t)]) := by
  have hlim : maxAddress = 0x40000000 := rfl
  obtain ⟨xs, v, ys, hs, hv, hfind⟩ := findVMA_cover h.tiles (Nat.lt_of_lt_of_le ht he)
  have hlo : v.base ≤ t := hv.1
  have hhi : t < v.base + v.size := hv.2
  have htiles : Tiles 0 (xs ++ v :: ys) maxAddress := hs ▸ h.tiles
  obtain ⟨-, -, -, hle, -⟩ := focus htiles
  rw [← h.keyedByBase.eq_keyed] at hfind
  have hget : OrdMap.get? s.vmaMap v.base = some v := by
    rw [h.keyedByBase.eq_keyed, hs]
    exact get?_keyed htiles
  have hend : add32 v.base v.size = v.base + v.size := add32_eq (by omega)
  have hsize : sub32 (min e (v.base + v.size)) t = min e (v.base + v.size) - t :=
    sub32_eq (by omega) (by omega)
  have hnext : add32 t (min e (v.base + v.size) - t) = t + (min e (v.base + v.size) - t) :=
    add32_eq (by omega)
  refine ⟨xs, v, ys, hs, hv, fun fuel acc => ?_⟩
  rw [backingBlocksLoop, if_neg (Nat.ne_of_lt ht)]
  simp only [hfind, hget, Option.bind_eq_bind, Option.bind_some]
  rw [sub32_eq hlo (by omega), hend, hsize, hnext]

/-- One turn of the loop: it ends in an assertion or at free memory, or the area across the
interval's start gives one block, up to the end of the area or of the range. -/
theorem backingBlocksLoop_step (h : Intact s) (he : e ≤ maxAddress) (ht : t < e) :
    (∃ out, (out = none ∨ out = some (.error Result.invalidAddressState) ∧
        ∃ p, Segment.view (areas s.vmaMap) t = some p ∧ p.type = .free) ∧
      ∀ fuel acc, backingBlocksLoop s.vmaMap e (fuel + 1) t acc = out) ∨
      ∃ r n, 0 < n ∧ t + n ≤ e ∧ (∀ i < n, pointerAt s (t + i) = some (r.getPtr + i)) ∧
        ∀ fuel acc, backingBlocksLoop s.vmaMap e (fuel + 1) t acc =
          backingBlocksLoop s.vmaMap e fuel (t + n) (acc ++ [(r, n)]) := by
  obtain ⟨xs, v, ys, hs, hv, hloop⟩ := backingBlocksLoop_area h he ht
  have hlo : v.base ≤ t := hv.1
  have hhi : t < v.base + v.size := hv.2
  have htiles : Tiles 0 (xs ++ v :: ys) maxAddress := hs ▸ h.tiles
  by_cases htype : v.type = .backingMemory
  · simp only [htype, ne_eq, not_true_eq_false, if_false] at hloop
    cases hadv : v.backingMemory.advance (t - v.base) with
    | none =>
      refine Or.inl ⟨none, Or.inl rfl, fun fuel acc => ?_⟩
      rw [hloop, hadv]
      rfl
    | some r =>
      refine Or.inr ⟨r, min e (v.base + v.size) - t, by omega, by omega, fun i hi => ?_,
        fun fuel acc => ?_⟩
      · have hcov : Segment.Covers v (t + i) := by
          rw [Segment.Covers, VirtualMemoryArea.base_def, VirtualMemoryArea.size_def]
          omega
        rw [pointerAt_of_covers h hs hcov htype, MemoryRef.getPtr_advance hadv]
        congr 1
        omega
      · rw [hloop, hadv]
        rfl
  · have hfree : v.type = .free := by
      cases hv' : v.type with
      | free => rfl
      | backingMemory => exact absurd hv' htype
    have hview : Segment.view (areas s.vmaMap) t = some (v.pageAttr t) := by
      rw [hs, htiles.view_eq hv]
      rfl
    refine Or.inl ⟨_, Or.inr ⟨rfl, _, hview, hfree⟩, fun fuel acc => ?_⟩
    rw [hloop, if_pos htype]

/-- The blocks of a range hold its bytes. -/
theorem backingBlocksLoop_spec (h : Intact s) (he : e ≤ maxAddress) (ht : t ≤ e)
    {blocks : List (MemoryRef × Nat)}
    (hloop : backingBlocksLoop s.vmaMap e fuel t acc = some (.ok blocks)) :
    ∃ bs, blocks = acc ++ bs ∧ blocksSize bs = e - t ∧
      ∀ i < e - t, bytePointer bs i = pointerAt s (t + i) := by
  induction fuel generalizing t acc with
  | zero => cases hloop
  | succ fuel ih =>
    rcases Nat.lt_or_eq_of_le ht with hlt | rfl
    · rcases backingBlocksLoop_step h he hlt with ⟨out, hout, heq⟩ | ⟨r, n, hn, htn, hr, heq⟩
      · rw [heq fuel acc] at hloop
        rcases hout with rfl | ⟨rfl, -⟩ <;> cases hloop
      rw [heq] at hloop
      obtain ⟨bs, rfl, hsize, hbs⟩ := ih htn hloop
      refine ⟨(r, n) :: bs, by simp, ?_, fun i hi => ?_⟩
      · rw [blocksSize_cons]
        omega
      · rw [bytePointer]
        split_ifs with hin
        · rw [hr i hin]
        · rw [hbs (i - n) (by omega)]
          congr 1
          omega
    · rw [backingBlocksLoop, if_pos rfl] at hloop
      obtain rfl := Except.ok.inj (Option.some.inj hloop)
      exact ⟨[], by simp, by simp, by simp⟩

theorem getBackingBlocksForRange_spec (h : Intact s) {address : Nat}
    (hle : address + size ≤ maxAddress) {blocks : List (MemoryRef × Nat)}
    (hget : getBackingBlocksForRange address size s = some (.ok blocks)) :
    blocksSize blocks = size ∧ ∀ i < size, bytePointer blocks i = pointerAt s (address + i) := by
  have hlim : maxAddress = 0x40000000 := rfl
  unfold getBackingBlocksForRange at hget
  rw [add32_eq (by omega)] at hget
  obtain ⟨bs, rfl, hsize, hbs⟩ := backingBlocksLoop_spec h hle (Nat.le_add_right _ _) hget
  rw [Nat.add_sub_cancel_left] at hsize hbs
  exact ⟨hsize, hbs⟩

/-- The only error the loop returns. -/
theorem backingBlocksLoop_error {m : VMAMap} {err : Result}
    (hloop : backingBlocksLoop m e fuel t acc = some (.error err)) :
    err = Result.invalidAddressState := by
  induction fuel generalizing t acc with
  | zero => cases hloop
  | succ fuel ih =>
    rw [backingBlocksLoop] at hloop
    split at hloop
    · cases hloop
    obtain ⟨k, -, hloop⟩ := Option.bind_eq_some_iff.mp hloop
    obtain ⟨v, -, hloop⟩ := Option.bind_eq_some_iff.mp hloop
    split at hloop
    · exact (Except.error.inj (Option.some.inj hloop)).symm
    obtain ⟨r, -, hloop⟩ := Option.bind_eq_some_iff.mp hloop
    exact ih hloop

end BackingBlocks

end VMManager

end GbaStation.Memory
