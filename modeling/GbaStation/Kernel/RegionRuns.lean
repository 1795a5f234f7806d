import GbaStation.Kernel.MemoryRegion

/-!
# Runs of a memory region

What the allocators of a region do between `Reset` and any later state, with a record of what is
allocated: each entry is what one request got, less what was freed of it since.

- `region_allocator`: what holds in every state of a run.
-/

namespace GbaStation.Kernel

open IntervalSet (toFinset_empty toFinset_subSet toFinset_add toFinset_sub total_eq empty toFinset)
open GbaStation.Interval (total mem_toFinset)
open Finset (empty_union sdiff_subset mem_Ico)

namespace MemoryRegionInfo

/-- A call of one of the four allocators. -/
inductive Request
  | heapAllocate (size : Nat)
  | linearAllocateAt (offset size : Nat)
  | linearAllocate (size : Nat)
  | rLinearAllocate (size : Nat)
deriving DecidableEq, Repr

namespace Request

def size : Request → Nat
  | heapAllocate n | linearAllocateAt _ n | linearAllocate n | rLinearAllocate n => n

/-- A size that is not 0, and words that do not wrap. -/
def Valid : Request → Prop
  | linearAllocateAt offset n => 0 < n ∧ offset + n < 2 ^ 32
  | q => 0 < q.size ∧ q.size < 2 ^ 32

/-- One block. -/
def block (offset size : Nat) : IntervalSet := empty.add ⟨offset, add32 offset size⟩

/-- What a request got, and the region after it. -/
def exec (r : MemoryRegionInfo) : Request → Option (Option IntervalSet × MemoryRegionInfo)
  | heapAllocate n => do
    let (result, r) ← r.heapAllocate n
    some (if result.blocks.isEmpty then none else some result, r)
  | linearAllocateAt offset n => do
    let (allocated, r) ← r.linearAllocateAt offset n
    some (if allocated then some (block offset n) else none, r)
  | linearAllocate n => do
    let (offset, r) ← r.linearAllocate n
    some (offset.map (block · n), r)
  | rLinearAllocate n => do
    let (offset, r) ← r.rLinearAllocate n
    some (offset.map (block · n), r)

/-- A run of free numbers. -/
def FreeRun (r : MemoryRegionInfo) (offset size : Nat) : Prop :=
  Finset.Ico offset (offset + size) ⊆ r.freeSet

/-- The request can be met. -/
def Fits (r : MemoryRegionInfo) : Request → Prop
  | heapAllocate n => n ≤ r.freeBlocks.total
  | linearAllocateAt offset n => FreeRun r offset n
  | linearAllocate n | rLinearAllocate n => ∃ offset, FreeRun r offset n

/-- The numbers `x` are the ones that the request is to take. -/
def Placed (r : MemoryRegionInfo) (x : Finset Nat) : Request → Prop
  | heapAllocate _ => True
  | linearAllocateAt offset n => x = Finset.Ico offset (offset + n)
  | linearAllocate n => ∃ offset, x = Finset.Ico offset (offset + n) ∧
      ∀ offset', FreeRun r offset' n → offset ≤ offset'
  | rLinearAllocate n => ∃ offset, x = Finset.Ico offset (offset + n) ∧
      ∀ offset', FreeRun r offset' n → offset' ≤ offset

end Request

open Request (exec block)

/-! ## What is allocated -/

/-- All the numbers of a record. -/
def held (live : List (Finset Nat)) : Finset Nat := live.foldr (· ∪ ·) ∅

@[simp] theorem held_nil : held [] = ∅ := rfl

@[simp] theorem held_cons (x : Finset Nat) (live : List (Finset Nat)) :
    held (x :: live) = x ∪ held live := rfl

theorem subset_held {x : Finset Nat} {live : List (Finset Nat)} (h : x ∈ live) : x ⊆ held live := by
  induction live with
  | nil => cases h
  | cons y live ih =>
    rcases List.mem_cons.mp h with rfl | h
    · exact Finset.subset_union_left
    · exact (ih h).trans Finset.subset_union_right

theorem held_sdiff (y : Finset Nat) (live : List (Finset Nat)) :
    held (live.map (· \ y)) = held live \ y := by
  induction live with
  | nil => exact (Finset.empty_sdiff y).symm
  | cons x live ih => rw [List.map_cons, held_cons, held_cons, ih, Finset.union_sdiff_distrib]

theorem held_empty {live : List (Finset Nat)} (h : ∀ x ∈ live, x = ∅) : held live = ∅ := by
  induction live with
  | nil => rfl
  | cons x live ih =>
    obtain ⟨hx, hlive⟩ := List.forall_mem_cons.mp h
    rw [held_cons, hx, ih hlive, empty_union]

/-- The region `[base, base + size)` and the record of what is allocated in it. -/
structure Ledger (base size : Nat) (r : MemoryRegionInfo) (live : List (Finset Nat)) : Prop where
  isLocked : r.isLocked = false
  used : r.used + r.freeSet.card = size
  free : r.freeSet ⊆ Finset.Ico base (base + size)
  held : held live = Finset.Ico base (base + size) \ r.freeSet
  pairwise : live.Pairwise Disjoint

/-- The states of a run from `Reset`, each with what is allocated there. -/
inductive Reached (base size : Nat) : MemoryRegionInfo → List (Finset Nat) → Prop
  | reset {r₀ r : MemoryRegionInfo} : r₀.reset base size = some r → Reached base size r []
  | request {r r' : MemoryRegionInfo} {live : List (Finset Nat)} {q : Request}
      {answer : Option IntervalSet} : Reached base size r live → q.Valid →
      q.exec r = some (answer, r') →
      Reached base size r' ((answer.map toFinset).toList ++ live)
  | free {r r' : MemoryRegionInfo} {live : List (Finset Nat)} {x : Finset Nat} {offset n : Nat} :
      Reached base size r live → x ∈ live → Finset.Ico offset (offset + n) ⊆ x →
      r.free offset n = some r' →
      Reached base size r' (live.map (· \ Finset.Ico offset (offset + n)))

namespace Ledger

variable {base size : Nat} {r r' : MemoryRegionInfo} {live : List (Finset Nat)}

theorem card_held (h : Ledger base size r live) : (MemoryRegionInfo.held live).card = r.used := by
  have hused := h.used
  rw [h.held, Finset.card_sdiff_of_subset h.free, Nat.card_Ico]
  omega

theorem disjoint (h : Ledger base size r live) :
    Disjoint r.freeSet (MemoryRegionInfo.held live) := by
  rw [h.held]
  exact Finset.disjoint_sdiff

/-- Free numbers become an entry. -/
theorem take (h : Ledger base size r live) (hfit : base + size < 2 ^ 32) {x free' : IntervalSet}
    {n : Nat} (hsub : x.toFinset ⊆ r.freeSet) (hcard : x.toFinset.card = n)
    (hfree : free'.toFinset = r.freeSet \ x.toFinset) :
    Ledger base size { r with freeBlocks := free', used := add32 r.used n }
      (x.toFinset :: live) := by
  have hused := h.used
  have hle : n ≤ r.freeSet.card := hcard ▸ Finset.card_le_card hsub
  refine ⟨h.isLocked, ?_, ?_, ?_, List.pairwise_cons.mpr ⟨fun y hy => ?_, h.pairwise⟩⟩
  · show add32 r.used n + free'.toFinset.card = size
    rw [hfree, Finset.card_sdiff_of_subset hsub, hcard, add32_eq (by omega)]
    omega
  · show free'.toFinset ⊆ _
    rw [hfree]
    exact sdiff_subset.trans h.free
  · show MemoryRegionInfo.held (x.toFinset :: live) = _ \ free'.toFinset
    rw [held_cons, h.held, hfree]
    ext o
    have hfree := @h.free o
    have hsub := @hsub o
    simp only [Finset.mem_union, Finset.mem_sdiff]
    tauto
  · exact (h.disjoint.mono_left hsub).mono_right (subset_held hy)

/-- Numbers of the entries become free. -/
theorem give (h : Ledger base size r live) (hfit : base + size < 2 ^ 32) {y : Finset Nat}
    {free' : IntervalSet} (hy : y ⊆ MemoryRegionInfo.held live)
    (hfree : free'.toFinset = r.freeSet ∪ y) :
    Ledger base size { r with freeBlocks := free', used := sub32 r.used y.card }
      (live.map (· \ y)) := by
  have hused := h.used
  have hle : y.card ≤ r.used := h.card_held ▸ Finset.card_le_card hy
  refine ⟨h.isLocked, ?_, ?_, ?_, ?_⟩
  · show sub32 r.used y.card + free'.toFinset.card = size
    rw [hfree, Finset.card_union_of_disjoint (h.disjoint.mono_right hy), sub32_eq hle (by omega)]
    omega
  · show free'.toFinset ⊆ _
    rw [hfree]
    refine Finset.union_subset h.free (hy.trans ?_)
    rw [h.held]
    exact sdiff_subset
  · show MemoryRegionInfo.held (live.map (· \ y)) = _ \ free'.toFinset
    rw [held_sdiff, h.held, hfree, sdiff_sdiff_left]
    rfl
  · exact List.pairwise_map.mpr (h.pairwise.imp fun hxy =>
      (hxy.mono_left sdiff_subset).mono_right sdiff_subset)

end Ledger

/-! ## What a request does -/

/-- A request is refused and changes nothing, or it takes free numbers. -/
inductive Outcome (q : Request) (r : MemoryRegionInfo) :
    Option IntervalSet → MemoryRegionInfo → Prop
  | refused : ¬ q.Fits r → Outcome q r none r
  | met {x free' : IntervalSet} : q.Fits r → x.toFinset ⊆ r.freeSet → x.toFinset.card = q.size →
      q.Placed r x.toFinset → free'.toFinset = r.freeSet \ x.toFinset →
      Outcome q r (some x) { r with freeBlocks := free', used := add32 r.used q.size }

variable {base size : Nat} {r r' : MemoryRegionInfo} {live : List (Finset Nat)}

/-- What `HeapAllocate` does not find in the blocks. -/
theorem heapTake_rest (is : List Interval) (rest : Nat) (result : IntervalSet) :
    (heapTake is rest result).2 = rest - total is := by
  induction is generalizing rest result with
  | nil => rfl
  | cons i is ih =>
    have htotal : total (i :: is) = i.upper - i.lower + total is := rfl
    rw [heapTake]
    split_ifs with hle
    · show 0 = _
      omega
    · rw [ih]
      omega

theorem total_reverse (bs : List Interval) : total bs.reverse = total bs := by
  unfold total
  rw [List.map_reverse, List.sum_reverse]

theorem heapAllocate_outcome (h : Ledger base size r live) {n : Nat} (hn : 0 < n) :
    ∃ answer r', (Request.heapAllocate n).exec r = some (answer, r') ∧
      Outcome (.heapAllocate n) r answer r' := by
  have hdisj : r.freeBlocks.blocks.reverse.Pairwise fun i j => Disjoint i.toFinset j.toFinset :=
    List.pairwise_reverse.mpr (r.freeBlocks.normal.pairwise_disjoint.imp fun h => h.symm)
  obtain ⟨hsub, hcard⟩ := @heapTake_spec _ n empty hdisj (by simp)
  rw [toFinset_empty, empty_union, Interval.cover_reverse] at hsub
  rw [toFinset_empty, Finset.card_empty, Nat.zero_add] at hcard
  have hrest : (heapTake r.freeBlocks.blocks.reverse n empty).2 =
      n - r.freeBlocks.total := by
    rw [heapTake_rest, total_reverse]
    rfl
  simp only [exec, heapAllocate]
  rw [if_neg (by simp [h.isLocked])]
  generalize heapTake r.freeBlocks.blocks.reverse n empty = taken at hsub hcard hrest
  obtain ⟨result, rest⟩ := taken
  simp only at hsub hcard hrest ⊢
  by_cases hz : rest = 0
  · have hfits : n ≤ r.freeBlocks.total := by omega
    have hsize : result.toFinset.card = n := by omega
    have hne : result.blocks.isEmpty = false := by
      cases hb : result.blocks with
      | nil =>
        have : result.toFinset = ∅ := by
          unfold toFinset
          rw [hb]
          rfl
        rw [this, Finset.card_empty] at hsize
        omega
      | cons => rfl
    rw [if_neg (not_not.mpr hz)]
    have hmet : Outcome (.heapAllocate n) r (some result) _ :=
      .met hfits hsub hsize trivial (toFinset_subSet _ _)
    refine ⟨some result, _, ?_, hmet⟩
    simp only [Option.bind_eq_bind, Option.bind_some, hne, Bool.false_eq_true, if_false]
    rfl
  · rw [if_pos hz]
    refine ⟨none, r, rfl, .refused ?_⟩
    show ¬ n ≤ r.freeBlocks.total
    omega

/-- Taking `[o, o + n)` out of one block. -/
theorem block_toFinset {o n : Nat} (hlt : o + n < 2 ^ 32) :
    (block o n).toFinset = Finset.Ico o (o + n) ∧
      ∀ s : IntervalSet,
        (s.sub ⟨o, o + n⟩).toFinset = s.toFinset \ (block o n).toFinset := by
  have hblock : (block o n).toFinset = Finset.Ico o (o + n) := by
    unfold block
    rw [add32_eq hlt, toFinset_add, toFinset_empty, empty_union]
    rfl
  refine ⟨hblock, fun s => ?_⟩
  rw [hblock]
  exact toFinset_sub _ _

theorem block_card {o n : Nat} (hlt : o + n < 2 ^ 32) : (block o n).toFinset.card = n := by
  rw [(block_toFinset hlt).1, Nat.card_Ico, Nat.add_sub_cancel_left]

theorem linearAllocateAt_outcome (h : Ledger base size r live) {offset n : Nat}
    (hlt : offset + n < 2 ^ 32) :
    ∃ answer r', (Request.linearAllocateAt offset n).exec r = some (answer, r') ∧
      Outcome (.linearAllocateAt offset n) r answer r' := by
  obtain ⟨hblock, hsub⟩ := block_toFinset hlt
  simp only [exec, linearAllocateAt, add32_eq hlt]
  rw [if_neg (by simp [h.isLocked])]
  by_cases hc : r.freeBlocks.contains ⟨offset, offset + n⟩ = true
  · have hrun : Request.FreeRun r offset n := IntervalSet.subset_of_contains hc
    have hmet : Outcome (.linearAllocateAt offset n) r (some (block offset n)) _ :=
      .met hrun (hblock ▸ hrun) (block_card hlt) hblock (hsub _)
    rw [if_neg (not_not.mpr hc)]
    exact ⟨some (block offset n), _, rfl, hmet⟩
  · rw [if_pos hc]
    exact ⟨none, r, rfl, .refused fun hrun => hc (IntervalSet.contains_iff.mpr hrun)⟩

/-- The first block that is large enough, of the blocks in the order `R`, has room for a run at any
place, and every run lies in it or in a block behind it. -/
theorem Ledger.search (h : Ledger base size r live) (hfit : base + size < 2 ^ 32)
    {bs : List Interval} {R : Interval → Interval → Prop} (hbs : ∀ i, i ∈ bs ↔ i ∈ r.freeBlocks.blocks)
    (hordered : bs.Pairwise R) {n : Nat} (hn : 0 < n) :
    (bs.find? (fun i => decide (n ≤ i.upper - i.lower)) = none ∧ ¬ ∃ o, Request.FreeRun r o n) ∨
      ∃ i, bs.find? (fun i => decide (n ≤ i.upper - i.lower)) = some i ∧ n ≤ i.upper - i.lower ∧
        i.upper < 2 ^ 32 ∧ (∀ o, i.lower ≤ o → o + n ≤ i.upper → Request.FreeRun r o n) ∧
        ∀ o, Request.FreeRun r o n → ∃ j, (j = i ∨ R i j) ∧ j.lower ≤ o ∧ o + n ≤ j.upper := by
  cases hfind : bs.find? fun i => decide (n ≤ i.upper - i.lower) with
  | none =>
    refine Or.inl ⟨rfl, ?_⟩
    rintro ⟨o, ho⟩
    obtain ⟨j, hj, hjo⟩ := r.freeBlocks.normal.run_in_block hn ho
    have := List.find?_eq_none.mp hfind j ((hbs j).mpr hj)
    rw [decide_eq_true_eq] at this
    omega
  | some i =>
    obtain ⟨hi, as, cs, rfl, has⟩ := List.find?_eq_some_iff_append.mp hfind
    rw [decide_eq_true_eq] at hi
    have hsub : i.toFinset ⊆ r.freeSet := fun x hx =>
      Interval.mem_cover.mpr ⟨i, (hbs i).mp (by simp), mem_toFinset.mp hx⟩
    have hlast := mem_Ico.mp (h.free (hsub (mem_toFinset.mpr
      (show i.lower ≤ i.upper - 1 ∧ i.upper - 1 < i.upper by omega))))
    refine Or.inr ⟨i, rfl, hi, by omega, fun o hlo hhi x hx => hsub ?_, fun o ho => ?_⟩
    · rw [mem_Ico] at hx
      rw [mem_toFinset]
      omega
    obtain ⟨j, hj, hjo⟩ := r.freeBlocks.normal.run_in_block hn ho
    refine ⟨j, ?_, hjo⟩
    rcases List.mem_append.mp ((hbs j).mpr hj) with hmem | hmem
    · have := has j hmem
      simp only [Bool.not_eq_eq_eq_not, Bool.not_true, decide_eq_false_iff_not] at this
      omega
    · rw [List.pairwise_append, List.pairwise_cons] at hordered
      exact (List.mem_cons.mp hmem).imp_right (hordered.2.1.1 j)

theorem linearAllocate_outcome (h : Ledger base size r live) (hfit : base + size < 2 ^ 32) {n : Nat}
    (hn : 0 < n) :
    ∃ answer r', (Request.linearAllocate n).exec r = some (answer, r') ∧
      Outcome (.linearAllocate n) r answer r' := by
  simp only [exec, linearAllocate]
  rw [if_neg (by simp [h.isLocked])]
  rcases h.search hfit (fun _ => Iff.rfl) r.freeBlocks.normal.gaps hn with
    ⟨hfind, hno⟩ | ⟨i, hfind, hlen, hup, hfits, hrun⟩
  · rw [hfind]
    exact ⟨none, r, rfl, .refused hno⟩
  · have hword : i.lower + n < 2 ^ 32 := by omega
    obtain ⟨hblock, hout⟩ := block_toFinset hword
    have hfree := hfits i.lower (Nat.le_refl _) (by omega)
    have hlow : ∀ o, Request.FreeRun r o n → i.lower ≤ o := by
      intro o ho
      obtain ⟨j, rfl | hj, hjo⟩ := hrun o ho
      · exact hjo.1
      · omega
    have hmet : Outcome (.linearAllocate n) r (some (block i.lower n)) _ :=
      .met ⟨i.lower, hfree⟩ (hblock ▸ hfree) (block_card hword) ⟨i.lower, hblock, hlow⟩ (hout _)
    rw [hfind]
    simp only [add32_eq hword]
    exact ⟨some (block i.lower n), _, rfl, hmet⟩

theorem rLinearAllocate_outcome (h : Ledger base size r live) (hfit : base + size < 2 ^ 32)
    {n : Nat} (hn : 0 < n) :
    ∃ answer r', (Request.rLinearAllocate n).exec r = some (answer, r') ∧
      Outcome (.rLinearAllocate n) r answer r' := by
  simp only [exec, rLinearAllocate]
  rw [if_neg (by simp [h.isLocked])]
  rcases h.search hfit (fun _ => List.mem_reverse)
      (List.pairwise_reverse.mpr r.freeBlocks.normal.gaps) hn with
    ⟨hfind, hno⟩ | ⟨i, hfind, hlen, hup, hfits, hrun⟩
  · rw [hfind]
    exact ⟨none, r, rfl, .refused hno⟩
  · have hend : i.upper - n + n = i.upper := by omega
    have hword : i.upper - n + n < 2 ^ 32 := by omega
    obtain ⟨hblock, hout⟩ := block_toFinset hword
    have hfree := hfits (i.upper - n) (by omega) (by omega)
    rw [hend] at hout
    have hhigh : ∀ o, Request.FreeRun r o n → o ≤ i.upper - n := by
      intro o ho
      obtain ⟨j, rfl | hj, hjo⟩ := hrun o ho
      · omega
      · omega
    have hmet : Outcome (.rLinearAllocate n) r (some (block (i.upper - n) n)) _ :=
      .met ⟨i.upper - n, hfree⟩ (hblock ▸ hfree) (block_card hword) ⟨i.upper - n, hblock, hhigh⟩
        (hout _)
    rw [hfind]
    exact ⟨some (block (i.upper - n) n), _, rfl, hmet⟩

/-- A request is refused only when it cannot be met. -/
theorem exec_outcome (h : Ledger base size r live) (hfit : base + size < 2 ^ 32) {q : Request}
    (hq : q.Valid) : ∃ answer r', q.exec r = some (answer, r') ∧ Outcome q r answer r' := by
  cases q with
  | heapAllocate n => exact heapAllocate_outcome h hq.1
  | linearAllocateAt offset n => exact linearAllocateAt_outcome h hq.2
  | linearAllocate n => exact linearAllocate_outcome h hfit hq.1
  | rLinearAllocate n => exact rLinearAllocate_outcome h hfit hq.1

/-- `Free` of a part of an entry. -/
theorem free_ledger (h : Ledger base size r live) (hfit : base + size < 2 ^ 32) {x : Finset Nat}
    {offset n : Nat} (hx : x ∈ live) (hsub : Finset.Ico offset (offset + n) ⊆ x) :
    ∃ r', r.free offset n = some r' ∧
      Ledger base size r' (live.map (· \ Finset.Ico offset (offset + n))) := by
  have hheld := hsub.trans (subset_held hx)
  have hinterval : (⟨offset, add32 offset n⟩ : Interval).toFinset =
      Finset.Ico offset (offset + n) := by
    rcases Nat.eq_zero_or_pos n with rfl | hn
    · have hle : add32 offset 0 ≤ offset := Nat.mod_le _ _
      rw [Nat.add_zero, Finset.Ico_self]
      exact Finset.Ico_eq_empty_of_le hle
    · have hlast := hheld (mem_Ico.mpr
        (show offset ≤ offset + n - 1 ∧ offset + n - 1 < offset + n by omega))
      rw [h.held, Finset.mem_sdiff, mem_Ico] at hlast
      rw [add32_eq (by omega)]
      rfl
  have hcard : (Finset.Ico offset (offset + n)).card = n := by
    rw [Nat.card_Ico, Nat.add_sub_cancel_left]
  have hdisj : r.freeBlocks.intersects ⟨offset, add32 offset n⟩ = false := by
    rw [IntervalSet.intersects_iff, hinterval]
    exact h.disjoint.mono_right hheld
  unfold MemoryRegionInfo.free
  rw [if_neg (by simp [h.isLocked])]
  simp only [hdisj, Bool.false_eq_true, if_false]
  refine ⟨_, rfl, ?_⟩
  have hfree : (r.freeBlocks.add ⟨offset, add32 offset n⟩).toFinset =
      r.freeSet ∪ Finset.Ico offset (offset + n) := by
    rw [toFinset_add, hinterval]
    rfl
  have hgive := h.give hfit hheld hfree
  rwa [hcard] at hgive

/-- After `Reset` nothing is allocated. -/
theorem reset_ledger (hfit : base + size < 2 ^ 32) {r₀ : MemoryRegionInfo}
    (h : r₀.reset base size = some r) : Ledger base size r [] := by
  unfold reset at h
  split_ifs at h with hl
  obtain rfl := Option.some.inj h
  rw [add32_eq hfit]
  have hfree : (empty.add ⟨base, base + size⟩).toFinset =
      Finset.Ico base (base + size) := by
    rw [toFinset_add, toFinset_empty, empty_union]
    rfl
  refine ⟨by simpa using hl, ?_, hfree.subset, ?_, List.Pairwise.nil⟩
  · show 0 + (empty.add ⟨base, base + size⟩).toFinset.card = size
    rw [hfree, Nat.card_Ico]
    omega
  · show ∅ = _ \ (empty.add ⟨base, base + size⟩).toFinset
    rw [hfree, sdiff_self]
    rfl

theorem Outcome.ledger {q : Request} {answer : Option IntervalSet} (ho : Outcome q r answer r')
    (h : Ledger base size r live) (hfit : base + size < 2 ^ 32) :
    Ledger base size r' ((answer.map toFinset).toList ++ live) := by
  cases ho with
  | refused => exact h
  | met _ hsub hcard _ hfree => exact h.take hfit hsub hcard hfree

theorem Reached.ledger (hfit : base + size < 2 ^ 32) (h : Reached base size r live) :
    Ledger base size r live := by
  induction h with
  | reset h => exact reset_ledger hfit h
  | request _ hq he ih =>
    obtain ⟨answer, r', he', ho⟩ := exec_outcome ih hfit hq
    obtain ⟨rfl, rfl⟩ := Prod.mk.inj (Option.some.inj (he.symm.trans he'))
    exact ho.ledger ih hfit
  | free _ hx hsub he ih =>
    obtain ⟨r', he', hledger⟩ := free_ledger ih hfit hx hsub
    obtain rfl := Option.some.inj (he.symm.trans he')
    exact hledger

/-- In every state of a run, the free numbers are inside the region and make it up together with
what is used. A request that cannot be met is refused and changes nothing; any other gets as many
bytes as it asked for, none of them allocated already, and where a place is to be chosen the lowest
or the highest one. What was allocated can be freed, and when all of it is, the region is one free
block again. -/
theorem region_allocator (hfit : base + size < 2 ^ 32) (h : Reached base size r live) :
    r.used + r.freeBlocks.total = size ∧ r.freeSet ⊆ Finset.Ico base (base + size) ∧
      (∀ q : Request, q.Valid → ∃ answer r', q.exec r = some (answer, r') ∧
        (answer = none ↔ ¬ q.Fits r) ∧ (answer = none → r' = r) ∧
        ∀ x, answer = some x → x.total = q.size ∧ x.toFinset ⊆ r.freeSet ∧
          (∀ y ∈ live, Disjoint x.toFinset y) ∧ q.Placed r x.toFinset) ∧
      (∀ x ∈ live, ∀ offset n, Finset.Ico offset (offset + n) ⊆ x →
        ∃ r', r.free offset n = some r') ∧
      ((∀ x ∈ live, x = ∅) →
        r.used = 0 ∧ r.freeBlocks = empty.add ⟨base, base + size⟩) := by
  have hl := h.ledger hfit
  refine ⟨?_, hl.free, fun q hq => ?_, fun x hx offset n hsub => ?_, fun hempty => ?_⟩
  · rw [total_eq]
    exact hl.used
  · obtain ⟨answer, r', he, ho⟩ := exec_outcome hl hfit hq
    refine ⟨answer, r', he, ?_⟩
    cases ho with
    | refused hno => exact ⟨iff_of_true rfl hno, fun _ => rfl, fun _ hx => nomatch hx⟩
    | met hfits hsub hcard hplaced _ =>
      refine ⟨iff_of_false (nofun) (not_not.mpr hfits), nofun, fun x hx => ?_⟩
      obtain rfl := Option.some.inj hx
      refine ⟨?_, hsub, fun y hy => (hl.disjoint.mono_left hsub).mono_right (subset_held hy),
        hplaced⟩
      rw [total_eq]
      exact hcard
  · obtain ⟨r', he, -⟩ := free_ledger hl hfit hx hsub
    exact ⟨r', he⟩
  · have hall : r.freeSet = Finset.Ico base (base + size) := by
      refine Finset.Subset.antisymm hl.free (Finset.sdiff_eq_empty_iff_subset.mp ?_)
      rw [← hl.held, held_empty hempty]
    refine ⟨?_, IntervalSet.ext_toFinset ?_⟩
    · rw [← hl.card_held, held_empty hempty, Finset.card_empty]
    · rw [toFinset_add, toFinset_empty, empty_union]
      exact hall

/-- A region of 16 bytes with 4 taken from its lower end and 3 from its upper end. -/
theorem region_allocator_ends :
    ∃ r live, Reached 0 16 r live ∧ live.length = 2 ∧ r.used + r.freeBlocks.total = 16 := by
  have hreset : Reached 0 16 _ [] := .reset (show MemoryRegionInfo.reset 0 16 {} = some _ from rfl)
  have hlow := Reached.request (q := .linearAllocate 4) hreset ⟨by decide, by decide⟩ rfl
  have hhigh := Reached.request (q := .rLinearAllocate 3) hlow ⟨by decide, by decide⟩ rfl
  exact ⟨_, _, hhigh, rfl, (region_allocator (by decide) hhigh).1⟩

end MemoryRegionInfo

end GbaStation.Kernel
